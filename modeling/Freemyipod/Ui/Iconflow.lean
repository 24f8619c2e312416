import Mathlib.Data.List.Nodup
import Mathlib.Tactic.Ring
import Freemyipod.Ui.ListRenderer

/-!
# Ui.Iconflow

The renderer that shows the items of a chooser as icons on a curve
(`libs/ui/chooser_renderer_iconflow.c`).

* `render`, `itematpixel`: the functions of the renderer, each with its own loop over the items.
* `stack`: the items from the one on top down, which is the one drawn last.
* `drawLoop_eq`, `hitLoop_eq`: the loops as functions of that list.
-/

namespace Freemyipod
namespace Ui
namespace Iconflow

/-- The `struct libui_surface` of an icon; `shown` if its buffer is not null. -/
structure Icon where
  shown : Bool
  size : Point

/-- `struct chooser_renderer_iconflow_itemdata`, without the text. -/
structure Item where
  icon : Icon
  iconSelected : Icon

/-- `struct chooser_renderer_iconflow_params`, with the `stepsperitem` of the action handler. -/
structure Params where
  viewport : Surface
  smoothness : BitVec 32
  iconsinview : Int
  spi : Int
  items : List Item

/-- `struct chooser_renderer_iconflow_data` -/
structure Data where
  viewposition : Int
  lastupdate : BitVec 32
  accumulator : Int
  deriving DecidableEq

/-- `chooser_renderer_iconflow_geticondata`: the position and the opacity of an icon. -/
def geticondata (viewport : Surface) (siv dist : Int) (icon : Icon) : Point × Int :=
  let w := viewport.size.x - icon.size.x
  let h := viewport.size.y - icon.size.y
  (⟨viewport.pos.x + (w * (dist + siv.tdiv 2)).tdiv siv,
    viewport.pos.y + h - (h * dist * dist * 2).tdiv (siv * siv)⟩,
    max 0 (255 - (510 * |dist|).tdiv siv))

/-- An item of the array. There is none outside it. -/
def itemOf (items : List Item) (i : Int) : Option Item :=
  if i < 0 then none else items[i.toNat]?

/-- Where a loop over the items is. -/
structure Walk where
  item : Int
  dir : Int
  pos : Int

namespace Walk

variable (p : Params) (selected : Int) (w : Walk)

/-- Both loops start with the first item. -/
def start : Walk := ⟨0, 1, p.spi.tdiv 2⟩

/-- From the selected item they go on with the last one, backwards. -/
def turn : Walk :=
  if w.item = selected ∧ w.dir = 1 then
    ⟨p.items.length - 1, -1, p.spi * p.items.length - p.spi.tdiv 2⟩
  else w

def next : Walk := ⟨w.item + w.dir, w.dir, w.pos + w.dir * p.spi⟩

end Walk

/-- An item that a loop has come to. -/
structure Visit where
  item : Int
  pos : Int
  look : Item

namespace Visit

variable (p : Params) (selected vpos : Int) (v : Visit)

def icon : Icon := if v.item = selected then v.look.iconSelected else v.look.icon

def icondata : Point × Int :=
  geticondata p.viewport (p.spi * p.iconsinview) (v.pos - vpos) (v.icon selected)

def box : Surface := ⟨(v.icondata p selected vpos).1, (v.icon selected).size⟩

/-- The icon is drawn: there is one, it can be seen, and it is not cut off by the viewport. -/
def Drawn : Prop :=
  (v.icon selected).shown = true ∧
    (if v.item = selected then 255 else (v.icondata p selected vpos).2) ≠ 0 ∧
    p.viewport.pos.x ≤ (v.box p selected vpos).pos.x ∧
    p.viewport.pos.y ≤ (v.box p selected vpos).pos.y ∧
    (v.box p selected vpos).pos.x + (v.icon selected).size.x ≤
      p.viewport.pos.x + p.viewport.size.x ∧
    (v.box p selected vpos).pos.y + (v.icon selected).size.y ≤
      p.viewport.pos.y + p.viewport.size.y

instance : Decidable (v.Drawn p selected vpos) := by unfold Drawn; infer_instance

/-- The comparison of `chooser_renderer_iconflow_itematpixel`. -/
def Hit (x y : Int) : Prop :=
  -- the second one is with the column, too
  (v.box p selected vpos).pos.x ≤ x ∧ (v.box p selected vpos).pos.x ≤ y ∧
    x < (v.box p selected vpos).pos.x + (v.icon selected).size.x ∧
    y < (v.box p selected vpos).pos.y + (v.icon selected).size.y

instance {x y : Int} : Decidable (v.Hit p selected vpos x y) := by unfold Hit; infer_instance

end Visit

/-- The loop of `chooser_renderer_iconflow_render`: what it draws, the first one first. -/
def drawLoop (p : Params) (selected vpos : Int) : Nat → Walk → Option (List Drawn)
  | 0, _ => none
  | fuel + 1, w => do
    let w := w.turn p selected
    let look ← itemOf p.items w.item
    let v : Visit := ⟨w.item, w.pos, look⟩
    let here := if v.Drawn p selected vpos then [⟨w.item, v.box p selected vpos⟩] else []
    if w.item = selected then some here
    else do
      let rest ← drawLoop p selected vpos fuel (w.next p)
      some (here ++ rest)

/-- The loop of `chooser_renderer_iconflow_itematpixel`. -/
def hitLoop (p : Params) (selected vpos x y : Int) : Nat → Walk → Option Int → Option (Option Int)
  | 0, _, _ => none
  | fuel + 1, w, result => do
    let w := w.turn p selected
    let look ← itemOf p.items w.item
    let v : Visit := ⟨w.item, w.pos, look⟩
    let result := if v.Hit p selected vpos x y then some w.item else result
    if w.item = selected then some result
    else hitLoop p selected vpos x y fuel (w.next p) result

/-- The first part of `chooser_renderer_iconflow_render`, which moves the view to the position. What
comes with the new data is whether it has to be drawn again. -/
def animate (p : Params) (d : Data) (position : Int) (time : BitVec 32) : Data × Bool :=
  let timediff := if time - d.lastupdate = 0 then 1 else time - d.lastupdate
  let distance := if d.lastupdate = 0 then 0 else position - d.viewposition
  let factor := if (p.smoothness / timediff).toInt = 0 then 1 else (p.smoothness / timediff).toInt
  let accumulator := d.accumulator + distance
  let distance := accumulator.tdiv factor
  let viewposition := d.viewposition + distance
  let redraw : Bool := position - viewposition ≠ 0
  (⟨viewposition, if redraw then time else 0, accumulator - distance * factor⟩, redraw)

/-- `chooser_renderer_iconflow_render`: its data behind it, what it draws, and whether it wants to be
called again. -/
def render (p : Params) (d : Data) (position selected : Int) (time : BitVec 32) :
    Option (Data × List Drawn × Bool) := do
  let (d, redraw) := animate p d position time
  let drawn ← drawLoop p selected d.viewposition (p.items.length + 1) (.start p)
  some (d, drawn, redraw)

/-- `chooser_renderer_iconflow_itematpixel` -/
def itematpixel (p : Params) (d : Data) (selected x y : Int) : Option (Option Int) :=
  if x < 0 ∨ y < 0 then some none
  else if p.viewport.size.x ≤ x ∨ p.viewport.size.y ≤ y then some none
  else hitLoop p selected d.viewposition x y (p.items.length + 1) (.start p) none

/-! ## The order of the items -/

/-- The items from the one on top down: the selected one and those behind it, which are drawn last, then
those before it. -/
def stack (n selected : Nat) : List Nat :=
  List.range' selected (n - selected) ++ (List.range selected).reverse

theorem nodup_stack {n selected : Nat} : (stack n selected).Nodup := by
  rw [stack, List.nodup_append]
  refine ⟨List.nodup_range', List.nodup_reverse.2 List.nodup_range, fun i hi j hj => ?_⟩
  obtain ⟨k, -, rfl⟩ := List.mem_range'.1 hi
  have hlt := List.mem_range.1 (List.mem_reverse.1 hj)
  omega

/-- Where the loops are when they come to an item. -/
def posOf (p : Params) (selected i : Nat) : Int :=
  if i < selected then p.spi.tdiv 2 + i * p.spi
  else p.spi * p.items.length - p.spi.tdiv 2 - (p.items.length - 1 - i) * p.spi

def visitOf (p : Params) (selected i : Nat) : Visit :=
  ⟨i, posOf p selected i, p.items.getD i ⟨⟨false, ⟨0, 0⟩⟩, ⟨false, ⟨0, 0⟩⟩⟩⟩

/-- The items that a loop comes to from `w` on. -/
@[grind =] def visits (p : Params) (selected : Int) : Nat → Walk → Option (List Visit)
  | 0, _ => none
  | fuel + 1, w => do
    let w := w.turn p selected
    let look ← itemOf p.items w.item
    if w.item = selected then some [⟨w.item, w.pos, look⟩]
    else do
      let rest ← visits p selected fuel (w.next p)
      some (⟨w.item, w.pos, look⟩ :: rest)

variable {p : Params} {fuel : Nat} {w : Walk} {selected i : Nat}

theorem drawLoop_eq_visits {selected vpos : Int} : drawLoop p selected vpos fuel w =
    (visits p selected fuel w).map fun l =>
      (l.filter fun v => v.Drawn p selected vpos).map fun v => ⟨v.item, v.box p selected vpos⟩ := by
  induction fuel generalizing w with
  | zero => rfl
  | succ fuel ih =>
    simp only [drawLoop, visits, ih]
    cases itemOf p.items (w.turn p selected).item with
    | none => rfl
    | some look =>
      simp only [Option.bind_eq_bind, Option.bind_some]
      by_cases hlast : (w.turn p selected).item = selected
      · rw [if_pos hlast, if_pos hlast]
        split_ifs with hdrawn <;> simp [hdrawn]
      · rw [if_neg hlast, if_neg hlast]
        cases visits p selected fuel ((w.turn p selected).next p) with
        | none => rfl
        | some l => split_ifs with hdrawn <;> simp [hdrawn]

theorem hitLoop_eq_visits {selected vpos x y : Int} {result : Option Int} :
    hitLoop p selected vpos x y fuel w result = (visits p selected fuel w).map fun l =>
      ((l.reverse.find? fun v => v.Hit p selected vpos x y).map Visit.item).or result := by
  induction fuel generalizing w result with
  | zero => rfl
  | succ fuel ih =>
    simp only [hitLoop, visits, ih]
    cases itemOf p.items (w.turn p selected).item with
    | none => rfl
    | some look =>
      simp only [Option.bind_eq_bind, Option.bind_some]
      by_cases hlast : (w.turn p selected).item = selected
      · rw [if_pos hlast, if_pos hlast]
        split_ifs with hhit <;> simp [hhit]
      · rw [if_neg hlast, if_neg hlast]
        cases visits p selected fuel ((w.turn p selected).next p) with
        | none => rfl
        | some l =>
          cases hfind : l.reverse.find? fun v => v.Hit p selected vpos x y <;>
            split_ifs with hhit <;> simp [hhit, hfind]

theorem turn_turn {selected : Int} : (w.turn p selected).turn p selected = w.turn p selected := by
  unfold Walk.turn
  split_ifs with h h' <;> simp_all

theorem visits_turn {selected : Int} :
    visits p selected fuel (w.turn p selected) = visits p selected fuel w := by
  cases fuel with
  | zero => rfl
  | succ fuel => simp only [visits, turn_turn]

theorem itemOf_of_lt (selected : Nat) (h : i < p.items.length) : itemOf p.items i = some (visitOf p selected i).look := by
  have h0 : ¬ (i : Int) < 0 := by omega
  simp [itemOf, visitOf, h0, h]

/-- Back from the item `i`. -/
theorem visits_back {k : Nat} (hi : selected + k < p.items.length) (hf : k < fuel) :
    visits p selected fuel ⟨(selected + k : Nat), -1, posOf p selected (selected + k)⟩ =
      some ((List.range' selected (k + 1)).reverse.map (visitOf p selected)) := by
  induction k generalizing fuel with
  | zero =>
    obtain ⟨fuel, rfl⟩ := Nat.exists_eq_succ_of_ne_zero (Nat.ne_zero_of_lt hf)
    have hlook := itemOf_of_lt selected hi
    simp only [Nat.add_zero] at hlook ⊢
    simp [visits, Walk.turn, hlook, visitOf]
  | succ k ih =>
    obtain ⟨fuel, rfl⟩ := Nat.exists_eq_succ_of_ne_zero (Nat.ne_zero_of_lt hf)
    have hlook := itemOf_of_lt selected hi
    have hne : ¬ ((selected + (k + 1) : Nat) : Int) = selected := by omega
    have hnext : Walk.next p ⟨(selected + (k + 1) : Nat), -1, posOf p selected (selected + (k + 1))⟩ =
        ⟨(selected + k : Nat), -1, posOf p selected (selected + k)⟩ := by
      simp only [Walk.next, posOf, Walk.mk.injEq, true_and]
      rw [if_neg (by omega), if_neg (by omega)]
      constructor
      · omega
      · push_cast
        ring
    have hturn : Walk.turn p selected
        ⟨(selected + (k + 1) : Nat), -1, posOf p selected (selected + (k + 1))⟩ =
        ⟨(selected + (k + 1) : Nat), -1, posOf p selected (selected + (k + 1))⟩ := by
      simp [Walk.turn]
    rw [visits, hturn]
    simp only [hlook, Option.bind_eq_bind, Option.bind_some, if_neg hne, hnext, ih (by omega)
      (by omega : k < fuel)]
    rw [List.range'_concat (n := k + 1)]
    simp [visitOf]

/-- Forth from the item `i`, and then back. -/
theorem visits_forth {k : Nat} (hi : i + k = selected) (hlt : selected < p.items.length)
    (hf : k + (p.items.length - selected) ≤ fuel) :
    visits p selected fuel ⟨i, 1, p.spi.tdiv 2 + i * p.spi⟩ =
      some ((List.range' i k ++ (List.range' selected (p.items.length - selected)).reverse).map
        (visitOf p selected)) := by
  induction k generalizing fuel i with
  | zero =>
    obtain rfl : i = selected := by omega
    obtain ⟨n, hn⟩ : ∃ n, p.items.length = i + n + 1 := ⟨p.items.length - i - 1, by omega⟩
    have hturn : Walk.turn p i ⟨i, 1, p.spi.tdiv 2 + i * p.spi⟩ =
        ⟨(i + n : Nat), -1, posOf p i (i + n)⟩ := by
      simp only [Walk.turn, posOf, hn, and_self, if_true, Walk.mk.injEq, true_and]
      rw [if_neg (by omega)]
      constructor
      · omega
      · push_cast
        ring
    rw [← visits_turn, hturn, visits_back (by omega) (by omega)]
    have hsub : p.items.length - i = n + 1 := by omega
    simp [hsub]
  | succ k ih =>
    obtain ⟨fuel, rfl⟩ := Nat.exists_eq_succ_of_ne_zero (n := fuel) (by omega)
    have hlook := @itemOf_of_lt p i selected (by omega)
    have hne : ¬ (i : Int) = selected := by omega
    have hturn : Walk.turn p selected ⟨i, 1, p.spi.tdiv 2 + i * p.spi⟩ =
        ⟨i, 1, p.spi.tdiv 2 + i * p.spi⟩ := by
      simp [Walk.turn, hne]
    have hnext : Walk.next p ⟨i, 1, p.spi.tdiv 2 + i * p.spi⟩ =
        ⟨(i + 1 : Nat), 1, p.spi.tdiv 2 + (i + 1 : Nat) * p.spi⟩ := by
      simp only [Walk.next, Walk.mk.injEq, true_and]
      constructor
      · omega
      · push_cast
        ring
    rw [visits, hturn]
    simp only [hlook, Option.bind_eq_bind, Option.bind_some, if_neg hne, hnext]
    rw [ih (by omega) (by omega)]
    have hpos : posOf p selected i = p.spi.tdiv 2 + i * p.spi := if_pos (by omega)
    simp [List.range'_succ, visitOf, hpos]

theorem visits_start (h : selected < p.items.length) :
    visits p selected (p.items.length + 1) (.start p) =
      some ((stack p.items.length selected).reverse.map (visitOf p selected)) := by
  have hstart : Walk.start p = ⟨(0 : Nat), 1, p.spi.tdiv 2 + (0 : Nat) * p.spi⟩ := by
    simp [Walk.start]
  rw [hstart, visits_forth (k := selected) (by omega) h (by omega), stack]
  simp [List.range_eq_range']

theorem drawLoop_eq {vpos : Int} (h : selected < p.items.length) :
    drawLoop p selected vpos (p.items.length + 1) (.start p) =
      some ((((stack p.items.length selected).reverse.map (visitOf p selected)).filter
        fun v => v.Drawn p selected vpos).map fun v => ⟨v.item, v.box p selected vpos⟩) := by
  rw [drawLoop_eq_visits, visits_start h, Option.map_some]

theorem hitLoop_eq {vpos x y : Int} (h : selected < p.items.length) :
    hitLoop p selected vpos x y (p.items.length + 1) (.start p) none =
      some ((((stack p.items.length selected).map (visitOf p selected)).find?
        fun v => v.Hit p selected vpos x y).map Visit.item) := by
  rw [hitLoop_eq_visits, visits_start h, Option.map_some, Option.or_none, ← List.map_reverse,
    List.reverse_reverse]

end Iconflow
end Ui
end Freemyipod
