import Freemyipod.Bbt.Path

/-!
# Bbt.Generator

What the generator's loop over the sectors keeps, and so what it leaves.

* `Inv`: every sector below `logical` is covered and is at the usable sector with its number, and
  the pages for the next one are open down to its level.
* `openPage_spec`, `leaf_spec`, `turn_spec`: what the parts of one turn do.
* `fill_spec`: the whole loop; `fill_enough`: its bound on the turns is no restriction.
-/

namespace Freemyipod
namespace Bbt

variable {bitmap : Bitmap} {usable : Nat → Prop} [DecidablePred usable]
  {sectors bbtpages start l0count k : Nat} {own : Nat → Nat × Nat} {g g' : Gen}

/-- The pages that are in use. -/
def Gen.pages (g : Gen) (own : Nat → Nat × Nat) (l0count : Nat) : Pages :=
  ⟨own, l0count, g.bbtused - 64⟩

/-- The sectors for data begin at `start`; `l0count` pages are for level 0. -/
structure Inv (usable : Nat → Prop) [DecidablePred usable] (start l0count bbtpages : Nat)
    (own : Nat → Nat × Nat) (g : Gen) (lv : Nat) : Prop where
  count : Nat.count usable g.physical = g.logical
  le : start + g.logical ≤ g.physical
  used : 64 + l0count ≤ g.bbtused
  used_le : g.bbtused ≤ bbtpages
  opened : Open g.cells (g.pages own l0count) g.logical lv
  page : ∀ j < lv, g.cells (addr g.cells g.logical j) = 0x8000 + (g.page (j + 1) - 64)
  base : 0 < lv → g.cells (addr g.cells g.logical 0 + 1) * 0x1000 = g.remapbase ∧
    g.remapbase + g.logical ≤ g.physical
  covered : ∀ s < g.logical, ∃ k, Covered g.cells (g.pages own l0count) s k (Nat.nth usable s)

/-- The distance to the next sector fits into a cell. -/
structure Ready (g : Gen) : Prop where
  dvd : 0x1000 ∣ g.remapbase
  le : g.remapbase + g.logical ≤ g.physical
  near : g.physical - g.logical - g.remapbase ≤ 0x7fff
  small : g.remapbase ≤ 0xffff

/-- Where the pages are open, the generator finds the cell that belongs to the sector. -/
theorem Inv.cell_eq {lv : Nat} (h : Inv usable start l0count bbtpages own g lv) (hk : k ≤ lv) :
    g.cell k = addr g.cells g.logical k := by
  cases k with
  | zero => rfl
  | succ k =>
    obtain ⟨p, hp, hlt, -⟩ := h.opened k (by omega)
    have hpage := h.page k (by omega)
    rw [Gen.cell, if_neg (by omega), addr, hpage]
    omega

/-! ## Stores -/

theorem store_cells {i v : Nat} (h : g.store bbtpages i v = .ok g') :
    g' = { g with cells := Function.update g.cells i (v % 0x10000) } := by
  unfold Gen.store at h
  split at h <;> cases h
  rfl

/-- What `storeCell` leaves. -/
structure Stored (g : Gen) (k v : Nat) (g' : Gen) : Prop where
  eq : g' = { g with cells := g'.cells }
  value : g'.cells (addr g.cells g.logical k) = v % 0x10000
  base : k = 0 → g'.cells (addr g.cells g.logical 0 + 1) = g.remapbase / 0x1000 % 0x10000
  frame : ∀ i, ¬ Written g.cells g.logical k i → g'.cells i = g.cells i

theorem storeCell_spec {v : Nat} (hc : g.cell k = addr g.cells g.logical k)
    (h : g.storeCell bbtpages k v = .ok g') : Stored g k v g' := by
  unfold Gen.storeCell at h
  cases hs : g.store bbtpages (g.cell k) v with
  | error e =>
    rw [hs] at h
    cases h
  | ok g1 =>
    rw [hs] at h
    have h1 := store_cells hs
    dsimp only [Except.bind] at h
    split at h
    · rename_i hk
      subst hk
      have h2 := store_cells h
      have hcell : g1.cell 0 = addr g.cells g.logical 0 := by
        rw [h1]
        rfl
      rw [hcell] at h2
      rw [h2, h1, hc]
      refine ⟨rfl, ?_, fun _ => ?_, fun i hi => ?_⟩ <;> dsimp only
      · rw [Function.update_of_ne (by omega), Function.update_self]
      · rw [Function.update_self]
      · have hi1 : i ≠ addr g.cells g.logical 0 := fun hc => hi (.inl hc)
        have hi2 : i ≠ addr g.cells g.logical 0 + 1 := fun hc => hi (.inr ⟨rfl, hc⟩)
        rw [Function.update_of_ne hi2, Function.update_of_ne hi1]
    · rename_i hk
      cases h
      rw [h1, hc]
      refine ⟨rfl, ?_, fun h0 => absurd h0 hk, fun i hi => ?_⟩
      · exact Function.update_self _ _ _
      · exact Function.update_of_ne (fun hc => hi (.inl hc)) _ _

/-- The cells on the way to the one that is stored are others. -/
theorem not_written_below {cells : Nat → Nat} {w : Pages} {l j : Nat} (hl : Open cells w l k)
    (hk : k ≤ 3) (hl0 : l / span 0 < 16 * w.l0count) (hj : j < k) :
    ¬ Written cells l k (addr cells l j) ∧ ¬ Written cells l k (addr cells l 0 + 1) := by
  have hle := hl.le_addr (by omega)
  have h0 : addr cells l 0 = 2 * (l / span 0) := rfl
  constructor
  · rintro (h | ⟨h, -⟩)
    · rcases Nat.eq_zero_or_pos j with rfl | hjpos
      · omega
      · exact (hl.mono hj.le).addr_ne hl hjpos (by omega) (by omega) (fun hc => by omega) h
    · omega
  · rintro (h | ⟨h, -⟩)
    · omega
    · omega

/-- A store to the cell of `logical`, on a level it is aligned to. -/
structure Inv.Stored (g : Gen) (own : Nat → Nat × Nat) (l0count k : Nat) (g' : Gen)
    (w' : Pages) : Prop where
  opened : Open g'.cells w' g.logical k
  addr : ∀ j ≤ k, Bbt.addr g'.cells g.logical j = Bbt.addr g.cells g.logical j
  below : ∀ j < k, g'.cells (Bbt.addr g.cells g.logical j) = g.cells (Bbt.addr g.cells g.logical j)
  base : 0 < k →
    g'.cells (Bbt.addr g.cells g.logical 0 + 1) = g.cells (Bbt.addr g.cells g.logical 0 + 1)
  covered : ∀ s < g.logical, ∀ phys, (∃ j, Covered g.cells (g.pages own l0count) s j phys) →
    ∃ j, Covered g'.cells w' s j phys

theorem Inv.stored {v lv : Nat} {w' : Pages} (h : Inv usable start l0count bbtpages own g lv)
    (hk : k ≤ lv) (hk3 : k ≤ 3) (hdvd : span k ∣ g.logical)
    (hl0 : g.logical / span 0 < 16 * l0count) (hs : Bbt.Stored g k v g')
    (hw : (g.pages own l0count).Le w') : Inv.Stored g own l0count k g' w' := by
  have hopen := h.opened.mono hk
  have hbelow : ∀ j < k, g'.cells (Bbt.addr g.cells g.logical j) =
      g.cells (Bbt.addr g.cells g.logical j) := by
    intro j hj
    exact hs.frame _ (not_written_below hopen hk3 hl0 hj).1
  refine ⟨hopen.congr hw hbelow, addr_congr hbelow, hbelow, fun h0 => ?_, fun s hlt phys => ?_⟩
  · exact hs.frame _ (not_written_below hopen hk3 hl0 h0).2
  · rintro ⟨j, hc⟩
    exact ⟨j, hc.congr hw hlt hopen hdvd hl0 hs.frame⟩

/-! ## A new page -/

theorem openPage_spec (h : Inv usable start l0count bbtpages own g k) (hr : Ready g) (hk : k < 3)
    (hdvd : span k ∣ g.logical) (hl0 : g.logical / span 0 < 16 * l0count)
    (hpages : bbtpages ≤ 32832) (ho : g.openPage bbtpages k = .ok g') :
    (∃ own', Inv usable start l0count bbtpages own' g' (k + 1)) ∧ g'.logical = g.logical ∧
      g'.physical = g.physical ∧ g'.remapbase = g.remapbase := by
  unfold Gen.openPage at ho
  split at ho
  · cases ho
  rename_i hne
  cases hs : g.storeCell bbtpages k (0x8000 ||| (g.bbtused - 64)) with
  | error e =>
    rw [hs] at ho
    cases ho
  | ok g1 =>
    rw [hs] at ho
    cases ho
    have hst := storeCell_spec (h.cell_eq le_rfl) hs
    have hused := h.used
    have hused_le := h.used_le
    have hor : 0x8000 ||| (g.bbtused - 64) = 0x8000 + (g.bbtused - 64) := by
      have := Nat.two_pow_add_eq_or_of_lt (show g.bbtused - 64 < 2 ^ 15 by omega) 1
      simpa using this.symm
    have hval : g1.cells (addr g.cells g.logical k) = 0x8000 + (g.bbtused - 64) := by
      rw [hst.value, hor]
      omega
    let own' := Function.update own (g.bbtused - 64) (k + 1, g.logical / span k)
    have hle : (g.pages own l0count).Le ⟨own', l0count, g.bbtused + 1 - 64⟩ := by
      refine ⟨rfl, by show g.bbtused - 64 ≤ g.bbtused + 1 - 64; omega, fun p hp => ?_⟩
      exact Function.update_of_ne (Nat.ne_of_lt hp) _ _
    have hkeep := h.stored le_rfl hk.le hdvd hl0 hst hle
    have heq := hst.eq
    rw [heq]
    refine ⟨⟨own', ⟨h.count, h.le, by dsimp only; omega, by dsimp only; omega, ?_, ?_, ?_, ?_⟩⟩,
      rfl, rfl, rfl⟩
    · intro j hj
      rcases Nat.lt_succ_iff_lt_or_eq.1 hj with hj | rfl
      · exact hkeep.opened j hj
      · refine ⟨g.bbtused - 64, ?_, by omega, by show l0count ≤ g.bbtused - 64; omega, ?_, ?_⟩
        · show g1.cells (addr g1.cells g.logical j) = _
          rw [hkeep.addr j le_rfl, hval]
        · show g.bbtused - 64 < g.bbtused + 1 - 64
          omega
        · exact Function.update_self _ _ _
    · intro j hj
      show g1.cells (addr g1.cells g.logical j) =
        0x8000 + (Function.update g.page (k + 1) g.bbtused (j + 1) - 64)
      rcases Nat.lt_succ_iff_lt_or_eq.1 hj with hj | rfl
      · rw [hkeep.addr j hj.le, hkeep.below j hj, h.page j hj,
          Function.update_of_ne (by omega)]
      · rw [hkeep.addr j le_rfl, hval, Function.update_self]
    · intro _
      show g1.cells (addr g1.cells g.logical 0 + 1) * 0x1000 = g.remapbase ∧ _
      refine ⟨?_, hr.le⟩
      rw [hkeep.addr 0 (Nat.zero_le _)]
      rcases Nat.eq_zero_or_pos k with rfl | hpos
      · rw [hst.base rfl]
        obtain ⟨c, hc⟩ := hr.dvd
        have hsmall := hr.small
        omega
      · rw [hkeep.base hpos]
        exact (h.base hpos).1
    · intro s hlt
      exact hkeep.covered s hlt _ (h.covered s hlt)

theorem Ready.congr (h : Ready g) (hl : g'.logical = g.logical) (hp : g'.physical = g.physical)
    (hr : g'.remapbase = g.remapbase) : Ready g' := by
  refine ⟨?_, ?_, ?_, ?_⟩
  · rw [hr]
    exact h.dvd
  · rw [hr, hl, hp]
    exact h.le
  · rw [hr, hl, hp]
    exact h.near
  · rw [hr]
    exact h.small

theorem openPages_spec {lv : Nat} (h : Inv usable start l0count bbtpages own g lv) (hr : Ready g)
    (hk : k ≤ 3) (hlv : lv ≤ k) (hdvd : span lv ∣ g.logical)
    (hl0 : g.logical / span 0 < 16 * l0count) (hpages : bbtpages ≤ 32832)
    (ho : g.openPages bbtpages lv k = .ok g') :
    (∃ own', Inv usable start l0count bbtpages own' g' k) ∧ g'.logical = g.logical ∧
      g'.physical = g.physical ∧ g'.remapbase = g.remapbase := by
  induction k generalizing g' with
  | zero =>
    cases ho
    obtain rfl : lv = 0 := by omega
    exact ⟨⟨own, h⟩, rfl, rfl, rfl⟩
  | succ k ih =>
    rw [Gen.openPages] at ho
    split at ho
    · rename_i hle
      cases hs : g.openPages bbtpages lv k with
      | error e =>
        rw [hs] at ho
        cases ho
      | ok g1 =>
        rw [hs] at ho
        obtain ⟨⟨own1, h1⟩, hl, hp, hb⟩ := ih (by omega) hle hs
        have hdvd1 : span k ∣ g1.logical := by
          rw [hl]
          exact (span_dvd hle).trans hdvd
        obtain ⟨hinv, hl', hp', hb'⟩ := openPage_spec h1 (hr.congr hl hp hb) (by omega) hdvd1
          (by rw [hl]; exact hl0) hpages ho
        exact ⟨hinv, hl'.trans hl, hp'.trans hp, hb'.trans hb⟩
    · rename_i hle
      cases ho
      obtain rfl : lv = k + 1 := by omega
      exact ⟨⟨own, h⟩, rfl, rfl, rfl⟩

/-! ## A run of good sectors -/

theorem level_le (l : Nat) : level l ≤ 3 := by
  unfold level
  split
  · omega
  · split
    · omega
    · split <;> omega

theorem level_dvd (l : Nat) : span (level l) ∣ l := by
  unfold level
  split
  · exact Nat.dvd_of_mod_eq_zero ‹_›
  · split
    · exact Nat.dvd_of_mod_eq_zero ‹_›
    · split
      · exact Nat.dvd_of_mod_eq_zero ‹_›
      · exact one_dvd _

theorem level_le_of_dvd {l : Nat} (hk : k ≤ 3) (h : span k ∣ l) : level l ≤ k := by
  have hspan : l % span k = 0 := Nat.mod_eq_zero_of_dvd h
  unfold level
  interval_cases k
  · rw [if_pos (show l % 0x8000 = 0 from hspan)]
  · split
    · omega
    · rw [if_pos (show l % 0x400 = 0 from hspan)]
  · split
    · omega
    · split
      · omega
      · rw [if_pos (show l % 0x20 = 0 from hspan)]
  · exact level_le l

/-- A sector that does not start a range is in that of the sectors before it. -/
theorem div_span_level {l j : Nat} (hk : k ≤ 3) (hdvd : span k ∣ l)
    (hj : j < level (l + span k)) : (l + span k) / span j = l / span j := by
  have hlv := level_le_of_dvd hk ((Nat.dvd_add_right hdvd).2 (dvd_refl _))
  have hmod : l % span k = 0 := Nat.mod_eq_zero_of_dvd hdvd
  have hnd : (l + span k) % span j ≠ 0 := by
    intro h0
    have := level_le_of_dvd (by omega) (Nat.dvd_of_mod_eq_zero h0)
    omega
  have hjk : j < k := by omega
  have hj3 : j < 3 := by omega
  interval_cases k <;> interval_cases j <;> simp only [span] at * <;> omega

theorem count_run {p i n : Nat} (h : ∀ i < n, usable (p + i)) (hi : i ≤ n) :
    Nat.count usable (p + i) = Nat.count usable p + i := by
  rw [Nat.count_add, Nat.count_of_forall fun j hj => h j (by omega)]

theorem leaf_spec (h : Inv usable start l0count bbtpages own g k) (hr : Ready g) (hk : k ≤ 3)
    (hdvd : span k ∣ g.logical) (hl0 : g.logical / span 0 < 16 * l0count)
    (hrun : ∀ i < span k, usable (g.physical + i)) (ho : g.leaf bbtpages k = .ok g') :
    Inv usable start l0count bbtpages own g' (level g'.logical) ∧
      g'.physical = g.physical + span k := by
  unfold Gen.leaf at ho
  cases hs : g.storeCell bbtpages k (g.physical - g.logical - g.remapbase) with
  | error e =>
    rw [hs] at ho
    cases ho
  | ok g1 =>
    rw [hs] at ho
    cases ho
    have hst := storeCell_spec (h.cell_eq le_rfl) hs
    have hkeep := h.stored le_rfl hk hdvd hl0 hst (.refl _)
    have hnear := hr.near
    have hle := hr.le
    have hstart := h.le
    have hval : g1.cells (addr g.cells g.logical k) = g.physical - g.logical - g.remapbase := by
      rw [hst.value]
      omega
    have heq := hst.eq
    rw [heq]
    have hlv : level (g.logical + span k) ≤ k :=
      level_le_of_dvd hk ((Nat.dvd_add_right hdvd).2 (dvd_refl _))
    have hsame : ∀ j < level (g.logical + span k),
        addr g1.cells (g.logical + span k) j = addr g.cells g.logical j := by
      intro j hj
      rw [← hkeep.addr j (by omega)]
      induction j with
      | zero => rw [addr, addr, div_span_level hk hdvd hj]
      | succ j ih => rw [addr, addr, ih (by omega), div_span_level hk hdvd hj]
    -- the base of the range that `logical` is in
    have hbase : g1.cells (addr g.cells g.logical 0 + 1) * 0x1000 = g.remapbase := by
      rcases Nat.eq_zero_or_pos k with rfl | hpos
      · rw [hst.base rfl]
        obtain ⟨c, hc⟩ := hr.dvd
        have hsmall := hr.small
        omega
      · rw [hkeep.base hpos]
        exact (h.base hpos).1
    refine ⟨⟨?_, ?_, h.used, h.used_le, ?_, ?_, ?_, ?_⟩, rfl⟩
    · show Nat.count usable (g.physical + span k) = g.logical + span k
      rw [count_run hrun le_rfl, h.count]
    · show start + (g.logical + span k) ≤ g.physical + span k
      omega
    · intro j hj
      have hj : j < level (g.logical + span k) := hj
      obtain ⟨p, h1, h2, h3, h4, h5⟩ := hkeep.opened j (by omega)
      refine ⟨p, ?_, h2, h3, h4, ?_⟩
      · show g1.cells (addr g1.cells (g.logical + span k) j) = _
        rw [hsame j hj, ← h1, hkeep.addr j (by omega)]
      · show own p = (j + 1, (g.logical + span k) / span j)
        rw [div_span_level hk hdvd hj]
        exact h5
    · intro j hj
      have hj : j < level (g.logical + span k) := hj
      show g1.cells (addr g1.cells (g.logical + span k) j) = 0x8000 + (g.page (j + 1) - 64)
      rw [hsame j hj, hkeep.below j (by omega), h.page j (by omega)]
    · intro hpos
      show g1.cells (addr g1.cells (g.logical + span k) 0 + 1) * 0x1000 = g.remapbase ∧
        g.remapbase + (g.logical + span k) ≤ g.physical + span k
      rw [hsame 0 hpos]
      exact ⟨hbase, by omega⟩
    · intro s hlt
      show ∃ j, Covered g1.cells (g.pages own l0count) s j (Nat.nth usable s)
      rcases Nat.lt_or_ge s g.logical with hold | hnew
      · exact hkeep.covered s hold _ (h.covered s hold)
      · -- one of the sectors that are new
        obtain ⟨i, rfl⟩ : ∃ i, s = g.logical + i := ⟨s - g.logical, by omega⟩
        have hi : i < span k := by
          have hlt' : g.logical + i < g.logical + span k := hlt
          omega
        have hnth : Nat.nth usable (g.logical + i) = g.physical + i := by
          rw [← h.count, ← count_run hrun hi.le]
          exact Nat.nth_count (hrun i hi)
        have hdiv : ∀ j ≤ k, (g.logical + i) / span j = g.logical / span j :=
          fun j hj => div_span_eq hdvd hi hj
        have haddr : ∀ j ≤ k, addr g1.cells (g.logical + i) j = addr g.cells g.logical j := by
          intro j hj
          rw [← hkeep.addr j hj]
          induction j with
          | zero => rw [addr, addr, hdiv 0 hj]
          | succ j ih => rw [addr, addr, ih (by omega), hdiv (j + 1) hj]
        refine ⟨k, hk, fun j hj => ?_, ?_, ?_⟩
        · obtain ⟨p, h1, h2, h3, h4, h5⟩ := hkeep.opened j hj
          rw [haddr j hj.le, hdiv j hj.le, ← hkeep.addr j hj.le]
          exact ⟨p, h1, h2, h3, h4, h5⟩
        · rw [haddr k le_rfl, hval]
          omega
        · rw [haddr k le_rfl, hval, haddr 0 (Nat.zero_le _), hbase, hnth]
          omega

/-! ## The loop -/

/-- The data area and the size of the table of level 0. -/
structure Area (bitmap : Bitmap) (usable : Nat → Prop) (sectors start l0count bbtpages : Nat) :
    Prop where
  usable : ∀ p, start ≤ p → (usable p ↔ p < sectors ∧ isGood bitmap p = true)
  l0count : ∀ l, start + l < sectors → l / span 0 < 16 * l0count
  pages : bbtpages ≤ 32832

omit [DecidablePred usable] in
theorem cleanRun_usable (ha : Area bitmap usable sectors start l0count bbtpages)
    (hp : start ≤ g.physical) {n i : Nat} (hi : i < cleanRun bitmap sectors g.physical n) :
    usable (g.physical + i) :=
  (ha.usable _ (by omega)).2 (cleanRun_good hi)

/-- The pages of the level are opened, and the sectors of the run covered. -/
theorem run_spec {lv : Nat} (ha : Area bitmap usable sectors start l0count bbtpages)
    (h : Inv usable start l0count bbtpages own g lv) (hr : Ready g) (hlv : lv ≤ k) (hk : k ≤ 3)
    (hdvd : span lv ∣ g.logical) (hrun : ∀ i < span k, usable (g.physical + i))
    (ho : (g.openPages bbtpages lv k).bind (fun g => g.leaf bbtpages k) = .ok g') :
    ∃ own', Inv usable start l0count bbtpages own' g' (level g'.logical) := by
  have hle := h.le
  have hfirst := (ha.usable (g.physical + 0) (by omega)).1 (hrun 0 (span_pos k))
  have hl0 := ha.l0count g.logical (by omega)
  cases hs : g.openPages bbtpages lv k with
  | error e =>
    rw [hs] at ho
    cases ho
  | ok g1 =>
    rw [hs] at ho
    obtain ⟨⟨own1, h1⟩, hl, hp, hb⟩ := openPages_spec h hr hk hlv hdvd hl0 ha.pages hs
    have hspec := leaf_spec h1 (hr.congr hl hp hb) hk (by rw [hl]; exact (span_dvd hlv).trans hdvd)
      (by rw [hl]; exact hl0) (by rw [hp]; exact hrun) ho
    exact ⟨own1, hspec.1⟩

theorem turn_spec (ha : Area bitmap usable sectors start l0count bbtpages)
    (h : Inv usable start l0count bbtpages own g (level g.logical))
    (ho : turn bitmap sectors bbtpages g = .ok g') :
    ∃ own', Inv usable start l0count bbtpages own' g' (level g'.logical) := by
  have hlv := level_le g.logical
  have hdvd := level_dvd g.logical
  have hle := h.le
  dsimp only [turn] at ho
  generalize hg1 : (if level g.logical = 0 then
    { g with remapbase := (g.physical - g.logical) / 0x1000 * 0x1000 } else g) = g1 at ho
  have hinv : Inv usable start l0count bbtpages own g1 (level g.logical) := by
    split at hg1
    · rename_i h0
      subst hg1
      rw [h0] at h ⊢
      exact ⟨h.count, h.le, h.used, h.used_le, h.opened, h.page, fun hc => absurd hc (by omega),
        h.covered⟩
    · rw [← hg1]
      exact h
  have hbase : 0x1000 ∣ g1.remapbase ∧ g1.remapbase + g1.logical ≤ g1.physical := by
    split at hg1
    · subst hg1
      refine ⟨Nat.dvd_mul_left _ _, ?_⟩
      show (g.physical - g.logical) / 0x1000 * 0x1000 + g.logical ≤ g.physical
      omega
    · rename_i h0
      obtain ⟨h1, h2⟩ := h.base (by omega)
      rw [← hg1]
      exact ⟨⟨_, by rw [← h1, Nat.mul_comm]⟩, h2⟩
  have hlog : g1.logical = g.logical := by
    rw [← hg1]
    split <;> rfl
  have hstart := hinv.le
  split at ho
  · cases ho
  rename_i hfar
  have hr : Ready g1 := ⟨hbase.1, hbase.2, by omega, by omega⟩
  have hdvd : span (level g.logical) ∣ g1.logical := by
    rw [hlog]
    exact hdvd
  have hclean : cleanRun bitmap sectors g1.physical (span (level g.logical)) ≤
      span (level g.logical) := cleanRun_le _ _
  have hrun : ∀ k, span k ≤ cleanRun bitmap sectors g1.physical (span (level g.logical)) →
      ∀ i < span k, usable (g1.physical + i) :=
    fun k hk i hi => cleanRun_usable ha (by omega) (lt_of_lt_of_le hi hk)
  have hlevel : ∀ k, k ≤ 3 → span k ≤ span (level g.logical) → level g.logical ≤ k := by
    intro k hk hspan
    by_contra hlt
    have : span (level g.logical) < span k := by
      unfold span
      exact Nat.pow_lt_pow_right (by omega) (by omega)
    omega
  split at ho
  · rename_i hc
    have h0 := hlevel 0 (by omega) (le_trans hc hclean)
    have ho' : (g1.openPages bbtpages (level g.logical) 0).bind
        (fun g => g.leaf bbtpages 0) = .ok g' := ho
    exact run_spec ha hinv hr h0 (by omega) hdvd (hrun 0 hc) ho'
  split at ho
  · rename_i hc
    exact run_spec ha hinv hr (hlevel 1 (by omega) (le_trans hc hclean)) (by omega) hdvd
      (hrun 1 hc) ho
  split at ho
  · rename_i hc
    exact run_spec ha hinv hr (hlevel 2 (by omega) (le_trans hc hclean)) (by omega) hdvd
      (hrun 2 hc) ho
  split at ho
  · rename_i hc
    exact run_spec ha hinv hr hlv le_rfl hdvd (hrun 3 hc) ho
  · -- a bad sector, or the end of the disk
    rename_i hc
    cases ho
    have hnot : ¬ usable g1.physical := by
      rw [ha.usable _ (by omega)]
      obtain ⟨n, hn⟩ : ∃ n, span (level g.logical) = n + 1 :=
        ⟨_, (Nat.succ_pred_eq_of_pos (span_pos _)).symm⟩
      rw [hn] at hc
      exact cleanRun_zero (Nat.lt_one_iff.1 (Nat.not_le.1 hc))
    refine ⟨own, ⟨?_, ?_, hinv.used, hinv.used_le, ?_, ?_, ?_, hinv.covered⟩⟩
    · show Nat.count usable (g1.physical + 1) = g1.logical
      rw [Nat.count_succ, if_neg hnot, hinv.count, Nat.add_zero]
    · show start + g1.logical ≤ g1.physical + 1
      omega
    · show Open g1.cells (g1.pages own l0count) g1.logical (level g1.logical)
      rw [hlog]
      exact hlog ▸ hinv.opened
    · show ∀ j < level g1.logical, _
      rw [hlog]
      exact hlog ▸ hinv.page
    · show 0 < level g1.logical → _
      intro hpos
      rw [hlog] at hpos
      obtain ⟨h1, h2⟩ := hinv.base hpos
      refine ⟨h1, ?_⟩
      show g1.remapbase + g1.logical ≤ g1.physical + 1
      omega

theorem fill_spec {n : Nat} (ha : Area bitmap usable sectors start l0count bbtpages)
    (h : Inv usable start l0count bbtpages own g (level g.logical))
    (ho : fill bitmap sectors bbtpages n g = .ok g') :
    (∃ own', Inv usable start l0count bbtpages own' g' (level g'.logical)) ∧
      sectors ≤ g'.physical := by
  induction n generalizing g own with
  | zero => cases ho
  | succ n ih =>
    rw [fill] at ho
    cases ht : turn bitmap sectors bbtpages g with
    | error e =>
      rw [ht] at ho
      cases ho
    | ok g1 =>
      rw [ht] at ho
      obtain ⟨own1, h1⟩ := turn_spec ha h ht
      dsimp only [Except.bind] at ho
      split at ho
      · cases ho
        exact ⟨⟨own1, h1⟩, by assumption⟩
      · exact ih h1 ho

/-! ## The bounds on the turns -/

theorem storeCell_physical {v : Nat} (h : g.storeCell bbtpages k v = .ok g') :
    g'.physical = g.physical := by
  unfold Gen.storeCell at h
  cases hs : g.store bbtpages (g.cell k) v with
  | error e =>
    rw [hs] at h
    cases h
  | ok g1 =>
    rw [hs] at h
    have h1 : g1.physical = g.physical := by rw [store_cells hs]
    dsimp only [Except.bind] at h
    split at h
    · rw [store_cells h]
      exact h1
    · cases h
      exact h1

theorem openPages_physical {lv : Nat} (h : g.openPages bbtpages lv k = .ok g') :
    g'.physical = g.physical := by
  induction k generalizing g' with
  | zero =>
    cases h
    rfl
  | succ k ih =>
    rw [Gen.openPages] at h
    split at h
    · cases hs : g.openPages bbtpages lv k with
      | error e =>
        rw [hs] at h
        cases h
      | ok g1 =>
        rw [hs] at h
        replace h : g1.openPage bbtpages k = .ok g' := h
        unfold Gen.openPage at h
        split at h
        · cases h
        · cases hst : g1.storeCell bbtpages k (0x8000 ||| (g1.bbtused - 64)) with
          | error e =>
            rw [hst] at h
            cases h
          | ok g2 =>
            rw [hst] at h
            cases h
            exact (storeCell_physical hst).trans (ih hs)
    · cases h
      rfl

theorem leaf_physical (h : g.leaf bbtpages k = .ok g') : g.physical < g'.physical := by
  unfold Gen.leaf at h
  cases hs : g.storeCell bbtpages k (g.physical - g.logical - g.remapbase) with
  | error e =>
    rw [hs] at h
    cases h
  | ok g1 =>
    rw [hs] at h
    cases h
    have h1 := storeCell_physical hs
    have h2 := span_pos k
    show g.physical < g1.physical + span k
    omega

theorem run_physical {lv : Nat}
    (h : (g.openPages bbtpages lv k).bind (fun g => g.leaf bbtpages k) = .ok g') :
    g.physical < g'.physical := by
  cases hs : g.openPages bbtpages lv k with
  | error e =>
    rw [hs] at h
    cases h
  | ok g1 =>
    rw [hs] at h
    rw [← openPages_physical hs]
    exact leaf_physical h

theorem turn_physical (h : turn bitmap sectors bbtpages g = .ok g') :
    g.physical < g'.physical := by
  dsimp only [turn] at h
  generalize hg1 : (if level g.logical = 0 then
    { g with remapbase := (g.physical - g.logical) / 0x1000 * 0x1000 } else g) = g1 at h
  have hp : g1.physical = g.physical := by
    rw [← hg1]
    split <;> rfl
  rw [← hp]
  split at h
  · cases h
  split at h
  · exact leaf_physical h
  split at h
  · exact run_physical h
  split at h
  · exact run_physical h
  split at h
  · exact run_physical h
  · cases h
    exact Nat.lt_succ_self _

/-- With a turn for each sector that is left and one more, the loop comes to its end. -/
theorem fill_enough {n : Nat} (hn : sectors - g.physical < n) (m : Nat) :
    fill bitmap sectors bbtpages (n + m) g = fill bitmap sectors bbtpages n g := by
  induction n generalizing g with
  | zero => exact absurd hn (Nat.not_lt_zero _)
  | succ n ih =>
    rw [Nat.add_right_comm, fill, fill]
    cases ht : turn bitmap sectors bbtpages g with
    | error e => rfl
    | ok g1 =>
      have hlt := turn_physical ht
      dsimp only [Except.bind]
      split
      · rfl
      · exact ih (by omega)

/-- After 514 attempts the table is too large. -/
theorem attempts_enough {n : Nat} (hn : 32832 < bbtpages + 64 * n) (m : Nat) :
    attempts bitmap sectors (n + m) bbtpages = attempts bitmap sectors n bbtpages := by
  induction n generalizing bbtpages with
  | zero =>
    cases m with
    | zero => rfl
    | succ m =>
      rw [Nat.zero_add, attempts, attempts, if_neg (by omega)]
  | succ n ih =>
    rw [Nat.add_right_comm, attempts, attempts, ih (by omega)]

end Bbt
end Freemyipod
