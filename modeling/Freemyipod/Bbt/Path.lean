import Freemyipod.Bbt.Bitmap

/-!
# Bbt.Path

The way from a virtual sector through the table to its cell.

* `addr`: the cell for a sector in the table of each level.
* `Open`: the cells of the levels above name pages, each page used for one range of sectors only
  (`own` says for which).
* `addr_ne`: so sectors of different ranges have different cells.
* `Open.congr`, `Covered.congr`: a store to the cell of a later sector changes no earlier one.
-/

namespace Freemyipod
namespace Bbt

/-! ## Spans -/

theorem span_pos (k : Nat) : 0 < span k := Nat.two_pow_pos _

theorem span_succ {k : Nat} (hk : k < 3) : span k = span (k + 1) * 32 := by
  interval_cases k <;> rfl

theorem span_dvd {j k : Nat} (h : j ≤ k) : span k ∣ span j := by
  unfold span
  exact pow_dvd_pow 2 (by omega)

/-- The range of the next level is that of this one and five more bits. -/
theorem div_span_succ {k : Nat} (hk : k < 3) (s : Nat) :
    s / span (k + 1) = 32 * (s / span k) + s / span (k + 1) % 32 := by
  rw [span_succ hk, ← Nat.div_div_eq_div_mul]
  omega

theorem div_span_ne {s l k : Nat} (hs : s < l) (hl : span k ∣ l) : s / span k ≠ l / span k :=
  (Nat.div_lt_div_of_lt_of_dvd hl hs).ne

/-- The sectors from an aligned one on are in one range with it, on each level up to its own. -/
theorem div_span_eq {l i j k : Nat} (hl : span k ∣ l) (hi : i < span k) (hj : j ≤ k) :
    (l + i) / span j = l / span j := by
  obtain ⟨c, hc⟩ := span_dvd hj
  have hcpos : 0 < c := by
    rcases Nat.eq_zero_or_pos c with rfl | h
    · have := span_pos j
      omega
    · exact h
  obtain ⟨b, rfl⟩ := hl
  have h1 : (span k * b + i) / span k = b := by
    rw [Nat.mul_add_div (span_pos k), Nat.div_eq_of_lt hi, Nat.add_zero]
  have h2 : span k * b / span k = b := Nat.mul_div_cancel_left b (span_pos k)
  rw [hc, ← Nat.div_div_eq_div_mul, ← Nat.div_div_eq_div_mul, h1, h2]

/-! ## Paths -/

/-- The cell for the sector `s` in the table of the level. -/
def addr (cells : Nat → Nat) (s : Nat) : Nat → Nat
  | 0 => 2 * (s / span 0)
  | k + 1 => 32 * (cells (addr cells s k) % 0x8000) + s / span (k + 1) % 32

/-- Which pages there are, and what each is for: a level and a range of that above. -/
structure Pages where
  own : Nat → Nat × Nat
  l0count : Nat
  used : Nat

variable {cells cells' : Nat → Nat} {w w' : Pages} {s l j k : Nat}

/-- The cells for `s` of the levels below `k` name pages. -/
def Open (cells : Nat → Nat) (w : Pages) (s k : Nat) : Prop :=
  ∀ j < k, ∃ p, cells (addr cells s j) = 0x8000 + p ∧ p < 0x8000 ∧ w.l0count ≤ p ∧ p < w.used ∧
    w.own p = (j + 1, s / span j)

theorem Open.mono (h : Open cells w s k) (hj : j ≤ k) : Open cells w s j :=
  fun i hi => h i (by omega)

/-- The cell of a deeper level is in a page of its own. -/
theorem Open.addr_succ (h : Open cells w s (k + 1)) :
    ∃ p, addr cells s (k + 1) = 32 * p + s / span (k + 1) % 32 ∧ w.l0count ≤ p ∧ p < w.used ∧
      w.own p = (k + 1, s / span k) := by
  obtain ⟨p, hp, hlt, h1, h2, h3⟩ := h k (by omega)
  refine ⟨p, ?_, h1, h2, h3⟩
  rw [addr, hp]
  omega

/-- The cells of level 0 come before all pages. -/
theorem Open.le_addr (h : Open cells w s k) (hk : 0 < k) : 32 * w.l0count ≤ addr cells s k := by
  obtain ⟨k, rfl⟩ : ∃ j, k = j + 1 := ⟨k - 1, by omega⟩
  obtain ⟨p, hp, h1, -, -⟩ := h.addr_succ
  omega

/-- Two cells of deeper levels differ, unless level and range are the same. -/
theorem Open.addr_ne (hs : Open cells w s j) (hl : Open cells w l k) (hj : 0 < j) (hj3 : j ≤ 3)
    (hk : 0 < k) (hne : j = k → s / span k ≠ l / span k) : addr cells s j ≠ addr cells l k := by
  obtain ⟨j, rfl⟩ : ∃ i, j = i + 1 := ⟨j - 1, by omega⟩
  obtain ⟨k, rfl⟩ : ∃ i, k = i + 1 := ⟨k - 1, by omega⟩
  obtain ⟨p, hp, -, -, hpown⟩ := hs.addr_succ
  obtain ⟨q, hq, -, -, hqown⟩ := hl.addr_succ
  intro heq
  have hpq : p = q := by omega
  subst hpq
  rw [hpown] at hqown
  simp only [Prod.mk.injEq] at hqown
  obtain ⟨hjk, hrange⟩ := hqown
  have hjk : j = k := by omega
  subst hjk
  refine hne rfl ?_
  rw [div_span_succ (by omega) s, div_span_succ (by omega) l, hrange]
  omega

/-- The cells that a store for `l` on level `k` changes: its own, and on level 0 the other one of
the pair. -/
def Written (cells : Nat → Nat) (l k i : Nat) : Prop :=
  i = addr cells l k ∨ k = 0 ∧ i = addr cells l 0 + 1

/-- No cell on the way to an earlier sector. -/
theorem not_written (hs : Open cells w s j) (hj3 : j ≤ 3) (hl : Open cells w l k) (hsl : s < l)
    (hdvd : span k ∣ l) (hl0 : l / span 0 < 16 * w.l0count) :
    ¬ Written cells l k (addr cells s j) ∧ ¬ Written cells l k (addr cells s 0 + 1) := by
  have hs0 : s / span 0 ≤ l / span 0 := Nat.div_le_div_right hsl.le
  have hne := div_span_ne hsl hdvd
  have haddr : ∀ c, addr cells c 0 = 2 * (c / span 0) := fun c => rfl
  rcases Nat.eq_zero_or_pos k with rfl | hk
  · refine ⟨?_, ?_⟩
    · rcases Nat.eq_zero_or_pos j with rfl | hj
      · rintro (h | ⟨-, h⟩) <;> rw [haddr, haddr] at h <;> omega
      · have hle := hs.le_addr hj
        rintro (h | ⟨-, h⟩) <;> rw [haddr] at h <;> omega
    · rintro (h | ⟨-, h⟩) <;> rw [haddr, haddr] at h <;> omega
  · have hle := hl.le_addr hk
    refine ⟨?_, ?_⟩
    · rintro (h | ⟨h, -⟩)
      · rcases Nat.eq_zero_or_pos j with rfl | hj
        · rw [haddr] at h
          omega
        · exact hs.addr_ne hl hj hj3 hk (fun _ => hne) h
      · omega
    · rintro (h | ⟨h, -⟩)
      · rw [haddr] at h
        omega
      · omega

/-- More pages may be in use afterwards, with the old ones for what they were. -/
structure Pages.Le (w w' : Pages) : Prop where
  l0count : w'.l0count = w.l0count
  used : w.used ≤ w'.used
  own : ∀ p < w.used, w'.own p = w.own p

theorem Pages.Le.refl (w : Pages) : w.Le w := ⟨rfl, le_rfl, fun _ _ => rfl⟩

/-- If the cells on the way are the same, the way is. -/
theorem addr_congr (h : ∀ i < k, cells' (addr cells s i) = cells (addr cells s i)) :
    ∀ i ≤ k, addr cells' s i = addr cells s i := by
  intro i hi
  induction i with
  | zero => rfl
  | succ i ih =>
    rw [addr, addr, ih (by omega), h i (by omega)]

theorem Open.congr (hs : Open cells w s k) (hw : w.Le w')
    (h : ∀ i < k, cells' (addr cells s i) = cells (addr cells s i)) : Open cells' w' s k := by
  intro i hi
  obtain ⟨p, h1, h2, h3, h4, h5⟩ := hs i hi
  rw [addr_congr h i (by omega), h i hi]
  exact ⟨p, h1, h2, by rw [hw.l0count]; exact h3, by have := hw.used; omega,
    by rw [hw.own p h4]; exact h5⟩

/-- The sector `s` has its cell on level `k`, and is at `phys`. -/
structure Covered (cells : Nat → Nat) (w : Pages) (s k phys : Nat) : Prop where
  le : k ≤ 3
  opened : Open cells w s k
  leaf : cells (addr cells s k) < 0x8000
  phys : phys = s + (cells (addr cells s k) + cells (addr cells s 0 + 1) * 0x1000)

/-- A store for a later sector leaves an earlier one where it is. -/
theorem Covered.congr {phys : Nat} (h : Covered cells w s j phys) (hw : w.Le w') (hsl : s < l)
    (hl : Open cells w l k) (hdvd : span k ∣ l) (hl0 : l / span 0 < 16 * w.l0count)
    (hcells : ∀ i, ¬ Written cells l k i → cells' i = cells i) : Covered cells' w' s j phys := by
  have hcell : ∀ i ≤ j, cells' (addr cells s i) = cells (addr cells s i) := by
    intro i hi
    have h3 := h.le
    exact hcells _ (not_written (h.opened.mono hi) (by omega) hl hsl hdvd hl0).1
  have hbase : cells' (addr cells s 0 + 1) = cells (addr cells s 0 + 1) :=
    hcells _ (not_written h.opened h.le hl hsl hdvd hl0).2
  have haddr : ∀ i ≤ j, addr cells' s i = addr cells s i :=
    addr_congr fun i hi => hcell i hi.le
  refine ⟨h.le, h.opened.congr hw fun i hi => hcell i hi.le, ?_, ?_⟩
  · rw [haddr j le_rfl, hcell j le_rfl]
    exact h.leaf
  · rw [haddr j le_rfl, hcell j le_rfl, haddr 0 (Nat.zero_le _), hbase]
    exact h.phys

end Bbt
end Freemyipod
