import Freemyipod.Ui.Iconflow

/-!
# Ui.HitTest

What both renderers of the choosers say about a pixel, against what they draw there.

* `hit_spec`: the loop over the rows finds the first row from `topItem` on with the line of the pixel.
* `Distinct`, `Covered`: what has to be said of a list and of a stack of icons for the two to agree.
* `hits_iff`: they agree exactly then.
-/

namespace Freemyipod
namespace Ui

/-- Two searches find the same where what only one of them looks for is always behind something that
both look for. -/
theorem find?_eq_iff {α : Type} {P Q : α → Bool} {l : List α} (hl : l.Nodup) :
    l.find? P = l.find? Q ↔
      ∀ pre x post, l = pre ++ x :: post → P x ≠ Q x → ∃ y ∈ pre, P y = true ∧ Q y = true := by
  induction l with
  | nil => simp
  | cons a l ih =>
    obtain ⟨ha, hl⟩ := List.nodup_cons.1 hl
    have hmem : ∀ {R : α → Bool}, l.find? R ≠ some a := fun h => ha (List.mem_of_find?_eq_some h)
    constructor
    · intro h pre x post heq hne
      rw [List.find?_cons, List.find?_cons] at h
      cases pre with
      | nil =>
        obtain ⟨rfl, rfl⟩ := List.cons.inj heq
        cases hP : P a <;> cases hQ : Q a <;> rw [hP, hQ] at h hne
        · exact absurd rfl hne
        · exact absurd h hmem
        · exact absurd h.symm hmem
        · exact absurd rfl hne
      | cons b pre =>
        obtain ⟨rfl, rfl⟩ := List.cons.inj heq
        cases hP : P a <;> cases hQ : Q a <;> rw [hP, hQ] at h
        · obtain ⟨y, hy, hboth⟩ := (ih hl).1 h pre x post rfl hne
          exact ⟨y, List.mem_cons_of_mem a hy, hboth⟩
        · exact absurd h hmem
        · exact absurd h.symm hmem
        · exact ⟨a, List.mem_cons_self, hP, hQ⟩
    · intro h
      rw [List.find?_cons, List.find?_cons]
      have hsame : P a = Q a := by
        by_contra hne
        obtain ⟨y, hy, -⟩ := h [] a l rfl hne
        exact absurd hy List.not_mem_nil
      rw [← hsame]
      cases hP : P a with
      | true => rfl
      | false =>
        refine (ih hl).2 fun pre x post heq hne => ?_
        obtain ⟨y, hy, hboth⟩ := h (a :: pre) x post (by rw [heq, List.cons_append]) hne
        rcases List.mem_cons.1 hy with rfl | hy
        · rw [hP] at hboth
          exact absurd hboth.1 Bool.false_ne_true
        · exact ⟨y, hy, hboth⟩

namespace ListRenderer

variable {items : List Point} {x y K item i j bottom : Int} {fuel : Nat} {size : Point}
  {p : Params} {d d' : Data} {drawn : List Drawn}

/-! ## The list -/

/-- The line `K`, counted from the first item, is in the row of the item `i`. -/
def Spans (items : List Point) (K i : Int) : Prop :=
  i < items.length ∧ above items i ≤ K ∧ K < above items (i + 1)

/-- The rows that the loop draws. -/
theorem mem_rows {row : Drawn} (h : rows items bottom x fuel item y = some drawn) :
    row ∈ drawn ↔ item ≤ row.item ∧ row.item ≤ bottom ∧ ∃ size,
      sizeOf items row.item = some size ∧
        row.box = ⟨⟨x, y + (above items row.item - above items item)⟩, size⟩ := by
  induction fuel generalizing item y drawn with
  | zero => cases h
  | succ fuel ih =>
    unfold rows at h
    split at h
    · rename_i hle
      simp only [Option.bind_eq_bind, Option.bind_eq_some_iff, Option.some.injEq] at h
      obtain ⟨size, hsize, rest, hrest, rfl⟩ := h
      have habove := above_succ hsize
      rw [List.mem_cons, ih hrest]
      constructor
      · rintro (rfl | ⟨hge, hbottom, size', hsize', hbox⟩)
        · exact ⟨le_refl _, hle, size, hsize, by simp⟩
        · refine ⟨by omega, hbottom, size', hsize', ?_⟩
          rw [hbox, habove]
          congr 2
          omega
      · rintro ⟨hge, hbottom, size', hsize', hbox⟩
        by_cases heq : row.item = item
        · left
          rw [heq, hsize] at hsize'
          cases hsize'
          cases row
          simp_all
        · right
          refine ⟨by omega, hbottom, size', hsize', ?_⟩
          rw [hbox, habove]
          congr 2
          omega
    · cases h
      simp only [List.not_mem_nil, false_iff]
      omega

/-- The loop of the hit test finds the first row with the line. -/
theorem hit_spec (h0 : 0 ≤ item) (hK : above items item ≤ K)
    (hfuel : (items.length : Int) - item < fuel) (hpos : 0 < fuel) :
    ∃ res, hit items x fuel item (K - above items item) = some res ∧ ∀ i, res = some i ↔
      item ≤ i ∧ Spans items K i ∧ (∀ j, item ≤ j → j < i → ¬ Spans items K j) ∧
        ∃ size, sizeOf items i = some size ∧ x < size.x := by
  induction fuel generalizing item with
  | zero => omega
  | succ fuel ih =>
    by_cases hend : (items.length : Int) ≤ item
    · refine ⟨none, by rw [hit, if_pos hend], fun i => ?_⟩
      simp only [reduceCtorEq, Spans, false_iff]
      omega
    · obtain ⟨size, hsize, -⟩ := sizeOf_of_lt items h0 (by omega)
      have habove := above_succ hsize
      by_cases hline : K - above items item < size.y
      · have hspans : Spans items K item := ⟨by omega, hK, by omega⟩
        refine ⟨if x < size.x then some item else none, ?_, fun i => ?_⟩
        · simp only [hit, if_neg hend, hsize, Option.bind_eq_bind, Option.bind_some, if_pos hline]
        · constructor
          · intro h
            split at h
            · cases h
              exact ⟨le_refl _, hspans, fun j hj hlt => by omega, size, hsize, ‹_›⟩
            · cases h
          · rintro ⟨hle, -, hfirst, size', hsize', hx⟩
            obtain rfl : item = i := by
              by_contra hne
              exact hfirst item (le_refl _) (by omega) hspans
            rw [hsize] at hsize'
            cases hsize'
            rw [if_pos hx]
      · have hspans : ¬ Spans items K item := fun h => by have := h.2.2; omega
        have hleft : K - above items item - size.y = K - above items (item + 1) := by omega
        obtain ⟨res, hres, hiff⟩ := @ih (item + 1) (by omega) (by omega) (by omega) (by omega)
        refine ⟨res, ?_, fun i => (hiff i).trans ?_⟩
        · simp only [hit, if_neg hend, hsize, Option.bind_eq_bind, Option.bind_some, if_neg hline,
            hleft]
          exact hres
        · constructor
          · rintro ⟨hle, hi, hfirst, hwide⟩
            refine ⟨by omega, hi, fun j hj hlt => ?_, hwide⟩
            by_cases heq : j = item
            · rw [heq]
              exact hspans
            · exact hfirst j (by omega) hlt
          · rintro ⟨hle, hi, hfirst, hwide⟩
            have hne : item ≠ i := fun heq => hspans (heq ▸ hi)
            exact ⟨by omega, hi, fun j hj hlt => hfirst j (by omega) hlt, hwide⟩

/-- The pixel of the viewport is in the row of the item, whether it is drawn or not. -/
def InRow (p : Params) (d : Data) (x y i : Int) : Prop :=
  d.topItem ≤ i ∧ Spans p.items (above p.items d.topItem + y) i ∧
    ∃ size, sizeOf p.items i = some size ∧ x < size.x

/-- No row gets in the way of another one. -/
structure Distinct (p : Params) (d : Data) (x y : Int) : Prop where
  /-- A row behind `bottomItem` has the pixel only where a row before it has the line. -/
  undrawn : ∀ i, d.bottomItem < i → InRow p d x y i →
    ∃ j, d.topItem ≤ j ∧ j < i ∧ Spans p.items (above p.items d.topItem + y) j
  /-- No row has the pixel if one drawn before it has the line. -/
  apart : ∀ i j, d.topItem ≤ i → i < j → j ≤ d.bottomItem →
    Spans p.items (above p.items d.topItem + y) i → ¬ InRow p d x y j

/-- Without negative heights, only the rows that are not drawn matter. -/
theorem distinct_iff (hheight : ∀ s ∈ p.items, 0 ≤ s.y) :
    Distinct p d x y ↔ ∀ i, d.bottomItem < i → ¬ InRow p d x y i := by
  have hone : ∀ i j, i < j → Spans p.items (above p.items d.topItem + y) i →
      ¬ Spans p.items (above p.items d.topItem + y) j := by
    intro i j hij hi hj
    have hmono : above p.items (i + 1) ≤ above p.items j := above_mono hheight (by omega)
    have hline := hi.2.2
    have hline' := hj.2.1
    omega
  constructor
  · intro h i hi hrow
    obtain ⟨j, -, hj, hspans⟩ := h.undrawn i hi hrow
    exact hone j i hj hspans hrow.2.1
  · intro h
    exact ⟨fun i hi hrow => absurd hrow (h i hi), fun i j _ hij _ hspans hrow =>
      hone i j hij hspans hrow.2.1⟩

/-- The hit test finds exactly the item in whose row the pixel has been drawn. -/
def Agrees (p : Params) (d : Data) (drawn : List Drawn) (x y : Int) : Prop :=
  ∃ res, itematpixel p d x y = some res ∧ ∀ i, res = some i ↔
    ∃ row ∈ drawn, row.item = i ∧ row.box.Contains (p.viewport.pos.x + x) (p.viewport.pos.y + y)

theorem shrink_le {available available' top top' : Int}
    (h : shrink items fuel top available = some (top', available')) : top ≤ top' := by
  induction fuel generalizing top available with
  | zero => cases h
  | succ fuel ih =>
    unfold shrink at h
    split at h
    · simp only [Option.bind_eq_bind, Option.bind_eq_some_iff] at h
      obtain ⟨size, -, hrest⟩ := h
      have hle := ih hrest
      omega
    · cases h
      exact le_refl _

theorem grow_le {available curr : Int} (h : grow items item fuel curr d available = some d') :
    d.topItem ≤ d'.topItem := by
  induction fuel generalizing curr d available with
  | zero => cases h
  | succ fuel ih =>
    unfold grow at h
    split at h
    · simp only [Option.bind_eq_bind, Option.bind_eq_some_iff, Prod.exists] at h
      obtain ⟨size, -, top, available', hshrink, hrest⟩ := h
      exact (shrink_le hshrink).trans (ih hrest)
    · cases h
      exact le_refl _

theorem scrollIntoView_nonneg (htop : 0 ≤ d.topItem) (hitem : 0 ≤ item)
    (h : scrollIntoView p d item = some d') : 0 ≤ d'.topItem := by
  simp only [scrollIntoView, Option.bind_eq_bind, Option.bind_eq_some_iff, Prod.exists] at h
  obtain ⟨curr, available, -, hgrow⟩ := h
  refine le_trans ?_ (grow_le hgrow)
  dsimp only
  split <;> assumption

theorem agrees_iff {selected : Int} (htop : 0 ≤ d.topItem) (hselected : 0 ≤ selected)
    (hrender : render p d selected = some (d', drawn)) (hx : 0 ≤ x) (hy : 0 ≤ y) :
    Agrees p d' drawn x y ↔ Distinct p d' x y := by
  simp only [render, Option.bind_eq_bind, Option.bind_eq_some_iff, Option.some.injEq,
    Prod.mk.injEq] at hrender
  obtain ⟨d', hscroll, drawn, hrows, rfl, rfl⟩ := hrender
  have htop' : 0 ≤ d'.topItem := scrollIntoView_nonneg htop hselected hscroll
  have hrow : ∀ i, (∃ row ∈ drawn, row.item = i ∧
      row.box.Contains (p.viewport.pos.x + x) (p.viewport.pos.y + y)) ↔
        i ≤ d'.bottomItem ∧ InRow p d' x y i := by
    intro i
    constructor
    · rintro ⟨row, hmem, rfl, hin⟩
      obtain ⟨hge, hle, size, hsize, hbox⟩ := (mem_rows hrows).1 hmem
      have habove := above_succ hsize
      have hlt := (sizeOf_range hsize).2
      simp only [hbox, Surface.Contains] at hin
      exact ⟨hle, hge, ⟨hlt, by omega, by omega⟩, size, hsize, by omega⟩
    · rintro ⟨hle, hge, ⟨-, hline, hline'⟩, size, hsize, hwide⟩
      have habove := above_succ hsize
      refine ⟨⟨i, ⟨p.viewport.pos.x, p.viewport.pos.y + (above p.items i -
        above p.items d'.topItem)⟩, size⟩, (mem_rows hrows).2 ⟨hge, hle, size, hsize, rfl⟩, rfl, ?_⟩
      simp only [Surface.Contains]
      omega
  obtain ⟨res, hres, hfirst⟩ := @hit_spec p.items x (above p.items d'.topItem + y) d'.topItem
    (p.items.length + 2) htop' (by omega) (by omega) (by omega)
  rw [add_sub_cancel_left] at hres
  have hpixel : itematpixel p d' x y = some res := by
    rw [itematpixel, if_neg (by omega), hres]
  simp only [Agrees, hpixel, Option.some.injEq, exists_eq_left', hrow]
  constructor
  · intro h
    refine ⟨fun i hi hin => ?_, fun i j hi hij hj hspans hin => ?_⟩
    · by_contra hno
      have hfound : res = some i := (hfirst i).2 ⟨hin.1, hin.2.1, fun j hj hlt hspans =>
        hno ⟨j, hj, hlt, hspans⟩, hin.2.2⟩
      have hle := ((h i).1 hfound).1
      omega
    · have hfound := (hfirst j).1 ((h j).2 ⟨hj, hin⟩)
      exact hfound.2.2.1 i hi hij hspans
  · intro h i
    constructor
    · intro hfound
      obtain ⟨hge, hspans, hno, hwide⟩ := (hfirst i).1 hfound
      refine ⟨?_, hge, hspans, hwide⟩
      by_contra hlt
      obtain ⟨j, hj, hji, hspans'⟩ := h.undrawn i (by omega) ⟨hge, hspans, hwide⟩
      exact hno j hj hji hspans'
    · rintro ⟨hle, hin⟩
      exact (hfirst i).2 ⟨hin.1, hin.2.1, fun j hj hji hspans =>
        h.apart j i hj hji hle hspans hin, hin.2.2⟩

end ListRenderer

namespace Iconflow

variable {p : Params} {d d' : Data} {selected : Nat} {drawn : List Drawn} {x y : Int}

/-! ## The icons -/

/-- The icon is drawn over the pixel of the viewport. -/
def Over (p : Params) (d : Data) (selected : Nat) (x y : Int) (i : Nat) : Prop :=
  (visitOf p selected i).Drawn p selected d.viewposition ∧
    ((visitOf p selected i).box p selected d.viewposition).Contains
      (p.viewport.pos.x + x) (p.viewport.pos.y + y)

instance {i : Nat} : Decidable (Over p d selected x y i) := by unfold Over; infer_instance

/-- The hit test takes the item, if no other one is over it. -/
def Takes (p : Params) (d : Data) (selected : Nat) (x y : Int) (i : Nat) : Prop :=
  (visitOf p selected i).Hit p selected d.viewposition x y

instance {i : Nat} : Decidable (Takes p d selected x y i) := by unfold Takes; infer_instance

/-- Where the comparison of the hit test is wrong about an icon, one drawn later is over the pixel and
the comparison is right about it. -/
def Covered (p : Params) (d : Data) (selected : Nat) (x y : Int) : Prop :=
  ∀ later i earlier, stack p.items.length selected = later ++ i :: earlier →
    ¬ (Over p d selected x y i ↔ Takes p d selected x y i) →
      ∃ j ∈ later, Over p d selected x y j ∧ Takes p d selected x y j

/-- The hit test finds the last item whose icon has been drawn over the pixel. -/
def Agrees (p : Params) (d : Data) (selected : Nat) (drawn : List Drawn) (x y : Int) : Prop :=
  itematpixel p d selected x y = some ((drawn.reverse.find? fun r =>
    r.box.Contains (p.viewport.pos.x + x) (p.viewport.pos.y + y)).map Drawn.item)

theorem agrees_iff (h : selected < p.items.length)
    (hdrawn : drawLoop p selected d.viewposition (p.items.length + 1) (.start p) = some drawn)
    (hx : 0 ≤ x ∧ x < p.viewport.size.x) (hy : 0 ≤ y ∧ y < p.viewport.size.y) :
    Agrees p d selected drawn x y ↔ Covered p d selected x y := by
  rw [drawLoop_eq h, Option.some.injEq] at hdrawn
  have htop : (drawn.reverse.find? fun r =>
      r.box.Contains (p.viewport.pos.x + x) (p.viewport.pos.y + y)).map Drawn.item =
      ((stack p.items.length selected).find? fun i => Over p d selected x y i).map
        (fun i : Nat => (i : Int)) := by
    rw [← hdrawn, ← List.map_reverse, ← List.filter_reverse, ← List.map_reverse,
      List.reverse_reverse, List.find?_map, List.find?_filter, List.find?_map, Option.map_map,
      Option.map_map]
    simp [Over, Function.comp_def, visitOf]
  have hfound : itematpixel p d selected x y =
      some (((stack p.items.length selected).find? fun i => Takes p d selected x y i).map
        (fun i : Nat => (i : Int))) := by
    rw [itematpixel, if_neg (by omega), if_neg (by omega), hitLoop_eq h, List.find?_map,
      Option.map_map]
    rfl
  have hinj : Function.Injective (Option.map fun i : Nat => (i : Int)) :=
    Option.map_injective Int.ofNat_injective
  rw [Agrees, htop, hfound, Option.some.injEq, hinj.eq_iff, eq_comm, find?_eq_iff nodup_stack]
  simp [Covered]

end Iconflow

/-! ## Both -/

/-- The pixel is in the viewport, in which it has these coordinates. -/
def InViewport (v : Surface) (x y : Int) : Prop :=
  (0 ≤ x ∧ x < v.size.x) ∧ 0 ≤ y ∧ y < v.size.y

/-- One icon, two pixels wide and high, one from the left and two from the top. -/
def single : Iconflow.Params where
  viewport := ⟨⟨0, 0⟩, ⟨4, 4⟩⟩
  smoothness := 0
  iconsinview := 1
  spi := 2
  items := [⟨⟨true, ⟨2, 2⟩⟩, ⟨true, ⟨2, 2⟩⟩⟩]

/-- The first two of the three items, which fit into the viewport. -/
def twoRows : List Drawn := [⟨0, ⟨⟨0, 0⟩, ⟨10, 2⟩⟩⟩, ⟨1, ⟨⟨0, 2⟩, ⟨10, 2⟩⟩⟩]

theorem render_three :
    ListRenderer.render ListRenderer.three ⟨0, 0⟩ 0 = some (⟨0, 1⟩, twoRows) := rfl

theorem render_single : Iconflow.render single ⟨1, 0, 0⟩ 1 (0 : Nat) 0 =
    some (⟨1, 0, 0⟩, [⟨0, ⟨⟨1, 2⟩, ⟨2, 2⟩⟩⟩], false) := by
  decide

end Ui
end Freemyipod
