import Mathlib.Algebra.Order.BigOperators.Group.List
import Mathlib.Data.List.Basic
import Mathlib.Algebra.Order.Ring.Int

/-!
# Ui.ListRenderer

The renderer that shows the items of a chooser in a list (`libs/ui/chooser_renderer_list.c`).

* `scrollIntoView`, `render`, `itematpixel`: the functions of the renderer.
* `above`: the heights of the items before one of them. All that the loops have in `available` is a
  difference of two of these.
* `scrollIntoView_spec`: the item is in the window, which is not higher than the viewport.
-/

namespace Freemyipod
namespace Ui

/-- `struct libui_point` -/
structure Point where
  x : Int
  y : Int
  deriving DecidableEq

/-- `struct libui_surface`, without the buffer. -/
structure Surface where
  pos : Point
  size : Point
  deriving DecidableEq

/-- The pixel is in the rectangle. -/
def Surface.Contains (s : Surface) (x y : Int) : Prop :=
  s.pos.x ≤ x ∧ x < s.pos.x + s.size.x ∧ s.pos.y ≤ y ∧ y < s.pos.y + s.size.y

instance {s : Surface} {x y : Int} : Decidable (s.Contains x y) := by
  unfold Surface.Contains
  infer_instance

/-- An item that is drawn, and where. -/
structure Drawn where
  item : Int
  box : Surface
  deriving DecidableEq

namespace ListRenderer

/-- The viewport of `struct chooser_renderer_list_params` and the size of each item, from its
`struct chooser_renderer_list_itemdata`. -/
structure Params where
  viewport : Surface
  items : List Point

/-- `struct chooser_renderer_list_data`. A pointer to an item is its index. -/
structure Data where
  topItem : Int
  bottomItem : Int
  deriving DecidableEq

/-- The size of an item. There is none outside the array. -/
def sizeOf (items : List Point) (i : Int) : Option Point :=
  if i < 0 then none else items[i.toNat]?

/-- The first loop: `curr` and `available` behind the items that fit. -/
def fit (items : List Point) : Nat → Int → Int → Option (Int × Int)
  | 0, _, _ => none
  | fuel + 1, curr, available =>
    if 0 < available ∧ curr < items.length then do
      let size ← sizeOf items curr
      if size.y ≤ available then fit items fuel (curr + 1) (available - size.y)
      else some (curr, available)
    else some (curr, available)

/-- The inner one of the loops behind it. -/
def shrink (items : List Point) : Nat → Int → Int → Option (Int × Int)
  | 0, _, _ => none
  | fuel + 1, top, available =>
    if available < 0 then do
      let size ← sizeOf items top
      shrink items fuel (top + 1) (available + size.y)
    else some (top, available)

/-- The outer one. -/
def grow (items : List Point) (item : Int) : Nat → Int → Data → Int → Option Data
  | 0, _, _, _ => none
  | fuel + 1, curr, d, available =>
    if curr < item ∧ curr < items.length then do
      let size ← sizeOf items (curr + 1)
      let (top, available) ← shrink items (items.length + 2) d.topItem (available - size.y)
      grow items item fuel (curr + 1) ⟨top, curr + 1⟩ available
    else some d

/-- `chooser_renderer_list_scroll_into_view`. Each loop is in the array as long as it goes on, so that
it does not go on for longer than there are items. -/
def scrollIntoView (p : Params) (d : Data) (item : Int) : Option Data := do
  let top := if item < d.topItem then item else d.topItem
  let (curr, available) ← fit p.items (p.items.length + 2) top p.viewport.size.y
  grow p.items item (p.items.length + 2) (curr - 1) ⟨top, curr - 1⟩ available

/-- The loop of `chooser_renderer_list_render` from `item` on. -/
def rows (items : List Point) (bottom x : Int) : Nat → Int → Int → Option (List Drawn)
  | 0, _, _ => none
  | fuel + 1, item, y =>
    if item ≤ bottom then do
      let size ← sizeOf items item
      let rest ← rows items bottom x fuel (item + 1) (y + size.y)
      some (⟨item, ⟨⟨x, y⟩, size⟩⟩ :: rest)
    else some []

/-- `chooser_renderer_list_render`: what it does to its data, and the rows that it draws. -/
def render (p : Params) (d : Data) (selected : Int) : Option (Data × List Drawn) := do
  let d ← scrollIntoView p d selected
  let drawn ← rows p.items d.bottomItem p.viewport.pos.x (p.items.length + 2) d.topItem
    p.viewport.pos.y
  some (d, drawn)

/-- The loop of `chooser_renderer_list_itematpixel`. -/
def hit (items : List Point) (x : Int) : Nat → Int → Int → Option (Option Int)
  | 0, _, _ => none
  | fuel + 1, item, y =>
    if (items.length : Int) ≤ item then some none
    else do
      let size ← sizeOf items item
      if y < size.y then some (if x < size.x then some item else none)
      else hit items x fuel (item + 1) (y - size.y)

/-- `chooser_renderer_list_itematpixel` -/
def itematpixel (p : Params) (d : Data) (x y : Int) : Option (Option Int) :=
  if x < 0 ∨ y < 0 then some none
  else hit p.items x (p.items.length + 2) d.topItem y

/-! ## Heights -/

/-- The heights of the items from `i` to `j`. -/
def heights (items : List Point) (i j : Int) : Int :=
  (((items.take (j + 1).toNat).drop i.toNat).map Point.y).sum

/-- The heights of the items before `i`. -/
def above (items : List Point) (i : Int) : Int := ((items.take i.toNat).map Point.y).sum

variable {items : List Point} {i j top curr item available height : Int} {size : Point}
  {fuel : Nat}

theorem sizeOf_of_lt (items : List Point) (h0 : 0 ≤ i) (hi : i < items.length) :
    ∃ size, sizeOf items i = some size ∧ size ∈ items := by
  have hlt : i.toNat < items.length := by omega
  exact ⟨items[i.toNat], by rw [sizeOf, if_neg (by omega), List.getElem?_eq_getElem hlt],
    List.getElem_mem hlt⟩

theorem sizeOf_range (h : sizeOf items i = some size) : 0 ≤ i ∧ i < items.length := by
  unfold sizeOf at h
  split at h
  · cases h
  · have hlt := (List.getElem?_eq_some_iff.1 h).1
    omega

theorem above_succ (h : sizeOf items i = some size) :
    above items (i + 1) = above items i + size.y := by
  have h0 := (sizeOf_range h).1
  have hsucc : (i + 1).toNat = i.toNat + 1 := by omega
  rw [sizeOf, if_neg (by omega)] at h
  rw [above, above, hsucc, List.take_add_one, h]
  simp

theorem heights_eq (h : i ≤ j + 1) :
    heights items i j = above items (j + 1) - above items i := by
  obtain ⟨n, hn⟩ : ∃ n, (j + 1).toNat = i.toNat + n := ⟨(j + 1).toNat - i.toNat, by omega⟩
  rw [heights, above, above, hn, List.drop_take, List.take_add, List.map_append, List.sum_append,
    Nat.add_sub_cancel_left]
  omega

section Heights

variable (hheight : ∀ s ∈ items, 0 ≤ s.y)

include hheight

theorem above_mono (h : i ≤ j) : above items i ≤ above items j := by
  obtain ⟨n, hn⟩ : ∃ n, j.toNat = i.toNat + n := ⟨j.toNat - i.toNat, by omega⟩
  have hnonneg : 0 ≤ (((items.drop i.toNat).take n).map Point.y).sum := by
    apply List.sum_nonneg
    intro y hy
    obtain ⟨s, hs, rfl⟩ := List.mem_map.1 hy
    exact hheight s (List.mem_of_mem_drop (List.mem_of_mem_take hs))
  rw [above, above, hn, List.take_add, List.map_append, List.sum_append]
  omega

end Heights

/-! ## The loops -/

/-- What the first loop keeps: `available` is what the items from `top` on leave. -/
theorem fit_spec (h0 : 0 ≤ curr) (hcurr : curr ≤ items.length)
    (hfits : above items curr - above items top ≤ height)
    (hfuel : (items.length : Int) - curr < fuel) :
    ∃ curr', fit items fuel curr (height - (above items curr - above items top)) =
        some (curr', height - (above items curr' - above items top)) ∧
      curr ≤ curr' ∧ curr' ≤ items.length ∧ above items curr' - above items top ≤ height := by
  induction fuel generalizing curr with
  | zero => omega
  | succ fuel ih =>
    by_cases hc : 0 < height - (above items curr - above items top) ∧ curr < items.length
    · obtain ⟨size, hsize, -⟩ := sizeOf_of_lt items h0 hc.2
      have habove := above_succ hsize
      by_cases hle : size.y ≤ height - (above items curr - above items top)
      · have hleft : height - (above items curr - above items top) - size.y =
            height - (above items (curr + 1) - above items top) := by omega
        obtain ⟨curr', hfit, hge, hlen, hle'⟩ :=
          @ih (curr + 1) (by omega) (by omega) (by omega) (by omega)
        refine ⟨curr', ?_, by omega, hlen, hle'⟩
        simp only [fit, if_pos hc, hsize, Option.bind_eq_bind, Option.bind_some, if_pos hle, hleft]
        exact hfit
      · refine ⟨curr, ?_, le_refl curr, hcurr, hfits⟩
        simp only [fit, if_pos hc, hsize, Option.bind_eq_bind, Option.bind_some, if_neg hle]
    · exact ⟨curr, by rw [fit, if_neg hc], le_refl curr, hcurr, hfits⟩

section Loops

variable (hheight : ∀ s ∈ items, 0 ≤ s.y ∧ s.y ≤ height)

include hheight

/-- The inner loop ends at the latest where only the item `curr` is left. -/
theorem shrink_spec (h0 : 0 ≤ top) (htop : top ≤ curr) (hcurr : curr < items.length)
    (hfuel : curr - top < fuel) :
    ∃ top', shrink items fuel top (height - (above items (curr + 1) - above items top)) =
        some (top', height - (above items (curr + 1) - above items top')) ∧
      top ≤ top' ∧ top' ≤ curr ∧ above items (curr + 1) - above items top' ≤ height ∧
      (above items (curr + 1) - above items top ≤ height → top' = top) := by
  induction fuel generalizing top with
  | zero => omega
  | succ fuel ih =>
    by_cases hneg : height - (above items (curr + 1) - above items top) < 0
    · obtain ⟨size, hsize, hmem⟩ := sizeOf_of_lt items h0 (by omega)
      have habove := above_succ hsize
      have hne : top ≠ curr := by
        rintro rfl
        have hle := (hheight size hmem).2
        omega
      have hleft : height - (above items (curr + 1) - above items top) + size.y =
          height - (above items (curr + 1) - above items (top + 1)) := by omega
      obtain ⟨top', hshrink, hge, hle, hfits, -⟩ := @ih (top + 1) (by omega) (by omega) (by omega)
      refine ⟨top', ?_, by omega, hle, hfits, fun h => by omega⟩
      simp only [shrink, if_pos hneg, hsize, Option.bind_eq_bind, Option.bind_some, hleft]
      exact hshrink
    · exact ⟨top, by rw [shrink, if_neg hneg], le_refl top, htop, by omega, fun _ => rfl⟩

/-- The outer loop goes on to the item. -/
theorem grow_spec (h0 : 0 ≤ top) (htop : top ≤ item) (hnext : top ≤ curr + 1)
    (hitem : item < items.length) (hcurr : curr < items.length)
    (hfits : above items (curr + 1) - above items top ≤ height) (hfuel : item - curr < fuel)
    (hpos : 0 < fuel) :
    ∃ d, grow items item fuel curr ⟨top, curr⟩
        (height - (above items (curr + 1) - above items top)) = some d ∧
      top ≤ d.topItem ∧ d.topItem ≤ item ∧ item ≤ d.bottomItem ∧ d.bottomItem < items.length ∧
      above items (d.bottomItem + 1) - above items d.topItem ≤ height ∧
      (above items (item + 1) - above items top ≤ height → d.topItem = top) := by
  induction fuel generalizing top curr with
  | zero => omega
  | succ fuel ih =>
    by_cases hc : curr < item ∧ curr < items.length
    · obtain ⟨size, hsize, -⟩ := @sizeOf_of_lt (curr + 1) items (by omega) (by omega)
      have habove := above_succ hsize
      have hleft : height - (above items (curr + 1) - above items top) - size.y =
          height - (above items (curr + 1 + 1) - above items top) := by omega
      obtain ⟨top', hshrink, hge, hle, hfits', hkeep⟩ := @shrink_spec items top (curr + 1)
        height (items.length + 2) hheight h0 hnext (by omega) (by omega)
      obtain ⟨d, hgrow, hge', hle', hbottom, hlen, hfits'', hkeep'⟩ :=
        ih (by omega) (by omega) (by omega) (by omega) hfits' (by omega) (by omega)
      refine ⟨d, ?_, by omega, hle', hbottom, hlen, hfits'', fun hvisible => ?_⟩
      · simp only [grow, if_pos hc, hsize, Option.bind_eq_bind, Option.bind_some, hleft, hshrink]
        exact hgrow
      · have hmono : above items (curr + 1 + 1) ≤ above items (item + 1) :=
          above_mono (fun s hs => (hheight s hs).1) (by omega)
        have htop' : top' = top := hkeep (by omega)
        rw [hkeep' (by rw [htop']; exact hvisible), htop']
    · exact ⟨⟨top, curr⟩, by rw [grow, if_neg hc], le_refl top, htop, by dsimp only; omega, hcurr,
        hfits, fun _ => rfl⟩

end Loops

/-- The item is in the window, and the window is in the list and not higher than the viewport. -/
structure Shown (p : Params) (item : Int) (d : Data) : Prop where
  top_le : d.topItem ≤ item
  le_bottom : item ≤ d.bottomItem
  nonneg : 0 ≤ d.topItem
  lt : d.bottomItem < p.items.length
  fits : heights p.items d.topItem d.bottomItem ≤ p.viewport.size.y

/-- The item is at `topItem` or behind it, and all of it fits. -/
def Visible (p : Params) (d : Data) (item : Int) : Prop :=
  d.topItem ≤ item ∧ heights p.items d.topItem item ≤ p.viewport.size.y

theorem scrollIntoView_spec (p : Params) (d : Data) (item : Int)
    (hheight : ∀ s ∈ p.items, 0 ≤ s.y ∧ s.y ≤ p.viewport.size.y)
    (htop : 0 ≤ d.topItem ∧ d.topItem < p.items.length)
    (hitem : 0 ≤ item ∧ item < p.items.length) :
    ∃ d', scrollIntoView p d item = some d' ∧ Shown p item d' ∧
      (Visible p d item → d'.topItem = d.topItem) := by
  obtain ⟨top, htop_eq⟩ : ∃ top, (if item < d.topItem then item else d.topItem) = top := ⟨_, rfl⟩
  have hrange : 0 ≤ top ∧ top ≤ item ∧ top ≤ d.topItem ∧ (d.topItem ≤ item → top = d.topItem) := by
    rw [← htop_eq]
    split <;> omega
  have hheight0 : 0 ≤ p.viewport.size.y := by
    obtain ⟨size, -, hmem⟩ := sizeOf_of_lt p.items hitem.1 hitem.2
    have hsize := hheight size hmem
    omega
  obtain ⟨curr, hfit, hge, hlen, hfits⟩ := @fit_spec p.items top top p.viewport.size.y
    (p.items.length + 2) hrange.1 (by omega) (by omega) (by omega)
  obtain ⟨d', hgrow, hge', hle, hbottom, hlt, hfits', hkeep⟩ := @grow_spec p.items top (curr - 1) item
    p.viewport.size.y (p.items.length + 2) hheight hrange.1 hrange.2.1 (by omega) hitem.2 (by omega)
    (by rw [Int.sub_add_cancel]; exact hfits) (by omega) (by omega)
  rw [Int.sub_add_cancel] at hgrow
  rw [Int.sub_self, Int.sub_zero] at hfit
  refine ⟨d', ?_, ⟨hle, hbottom, by omega, hlt, ?_⟩, fun hvisible => ?_⟩
  · simp only [scrollIntoView, htop_eq, hfit, Option.bind_eq_bind, Option.bind_some]
    exact hgrow
  · rw [heights_eq (by omega)]
    exact hfits'
  · obtain ⟨hge'', hfits''⟩ := hvisible
    rw [heights_eq (by omega), ← hrange.2.2.2 hge''] at hfits''
    rw [hkeep hfits'', hrange.2.2.2 hge'']

/-- A list of three items, the last of which does not fit. -/
def three : Params where
  viewport := ⟨⟨0, 0⟩, ⟨10, 5⟩⟩
  items := [⟨10, 2⟩, ⟨10, 2⟩, ⟨10, 3⟩]

/-- The last item is scrolled into view, and the first one out of it. -/
theorem scrolls_to_last : ∃ d', scrollIntoView three ⟨0, 1⟩ 2 = some d' ∧ Shown three 2 d' ∧
    (Visible three ⟨0, 1⟩ 2 → d'.topItem = 0) :=
  scrollIntoView_spec three ⟨0, 1⟩ 2 (by decide) (by decide) (by decide)

end ListRenderer
end Ui
end Freemyipod
