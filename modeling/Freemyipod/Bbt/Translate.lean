import Freemyipod.Bbt.Generator

/-!
# Bbt.Translate

The generator and the translator agree.

* `genbbt_spec`: the table that the generator writes covers every virtual sector.
* `translate_spec`: so the translator finds each of them.
* `translate_isRun`: in any table, a run is what its sectors are one by one.
* `genbbt_translates`: the virtual sectors are the usable ones in their order.
-/

namespace Freemyipod
namespace Bbt

variable {bitmap : Bitmap} {bad : List Int} {sectors s count k phys : Nat} {t : Table} {w : Pages}

/-! ## The table -/

/-- A table that has the first `t.virtualSectors` sectors of `usable`. -/
structure Table.Has (t : Table) (usable : Nat → Prop) (w : Pages) : Prop where
  covered : ∀ s < t.virtualSectors, ∃ k, Covered t.cells w s k (Nat.nth usable s)
  l0count : ∀ s < t.virtualSectors, s / span 0 < 16 * w.l0count
  l0count_le : w.l0count ≤ w.used
  used : w.used ≤ 64 * t.physicals.length

theorem bind_ok {ε α β : Type} {x : Except ε α} {f : α → Except ε β} {b : β}
    (h : x.bind f = .ok b) : ∃ a, x = .ok a ∧ f a = .ok b := by
  cases x with
  | error e => cases h
  | ok a => exact ⟨a, rfl, h⟩

theorem map_ok {ε α β : Type} {x : Except ε α} {f : α → β} {b : β} (h : x.map f = .ok b) :
    ∃ a, x = .ok a ∧ f a = b := by
  cases x with
  | error e => cases h
  | ok a =>
    cases h
    exact ⟨a, rfl, rfl⟩

/-- What a table that the generator writes is for. -/
structure Generated (sectors : Nat) (bad : List Int) (t : Table) : Prop where
  has : ∃ w, t.Has (Usable sectors bad t.physicals) w
  count : Nat.count (Usable sectors bad t.physicals) sectors = t.virtualSectors

theorem attempt_spec {bbtpages c : Nat} (hpages : bbtpages = 64 * (c + 1))
    (hle : bbtpages ≤ 32832) (hl0 : (sectors + 0xfffff) / 0x80000 ≤ bbtpages - 64)
    (hgood : ∀ p, p ≠ 0 → (isGood bitmap p = true ↔ (p : Int) ∉ bad))
    (h : attempt bitmap sectors bbtpages = .ok t) : Generated sectors bad t := by
  unfold attempt at h
  obtain ⟨⟨start, physicals⟩, hres, h⟩ := bind_ok h
  obtain ⟨g, hfill, rfl⟩ := map_ok h
  obtain ⟨htaken, hlen⟩ := reserve_spec hres
    ⟨by omega, (fun _ hq => by cases hq), (fun q h0 hq => by omega), by simp⟩ (Nat.zero_le _)
  have hpos := htaken.pos
  have hlength := htaken.length
  dsimp only at hfill hlen htaken hpos hlength ⊢
  set usable := Usable sectors bad physicals with husable
  set l0count := (sectors + 0xfffff - (bbtpages * 64 + 0xfff) / 0x1000) / 0x80000 with hl0count
  have hstart : ∀ p, usable p → start ≤ p := by
    rintro p ⟨hp, hbad, h0, hnot⟩
    by_contra hlt
    exact hnot (htaken.good p (by omega) (by omega) ((hgood p h0).2 hbad))
  have harea : Area bitmap usable sectors start l0count bbtpages := by
    refine ⟨fun p hp => ?_, fun l hl => ?_, hle⟩
    · rw [hgood p (by omega)]
      constructor
      · exact fun hu => ⟨hu.1, hu.2.1⟩
      · rintro ⟨hlt, hbad⟩
        refine ⟨hlt, hbad, by omega, fun hp' => ?_⟩
        have := htaken.lt p hp'
        omega
    · rw [show span 0 = 0x8000 from rfl]
      omega
  have hnone : Nat.count usable start = 0 := by
    rw [Nat.count_iff_forall_not]
    intro p hp hu
    have := hstart p hu
    omega
  have hinit : Inv usable start l0count bbtpages (fun _ => (0, 0))
      ⟨fun _ => 0, 64 + l0count, 0, start, 0, fun _ => 0⟩ (level 0) := by
    have hlv : level 0 = 0 := rfl
    rw [hlv]
    exact ⟨hnone, le_rfl, le_rfl, by dsimp only; omega, (fun j hj => by omega),
      (fun j hj => by omega), (fun h0 => by omega), fun s hs => absurd hs (Nat.not_lt_zero s)⟩
  obtain ⟨⟨own, hinv⟩, hend⟩ := fill_spec harea hinit hfill
  have hused := hinv.used
  have hused_le := hinv.used_le
  have hbound : ∀ p, sectors ≤ p → Nat.count usable p = Nat.count usable sectors := by
    intro p hp
    obtain ⟨d, rfl⟩ : ∃ d, p = sectors + d := ⟨p - sectors, by omega⟩
    rw [Nat.count_add]
    have hzero : Nat.count (fun k => usable (sectors + k)) d = 0 := by
      rw [Nat.count_iff_forall_not]
      intro k _ hu
      have := hu.1
      omega
    omega
  have hcount : Nat.count usable sectors = g.logical := by
    rw [← hbound _ hend, hinv.count]
  refine ⟨⟨g.pages own l0count, hinv.covered, fun s hs => ?_, ?_, ?_⟩, hcount⟩
  · -- there is a usable sector for each virtual one
    have hs : s < g.logical := hs
    refine harea.l0count s ?_
    have hle : start + Nat.count usable sectors ≤ sectors := by
      rcases Nat.lt_or_ge sectors start with hlt | hge
      · have := Nat.count_monotone usable hlt.le
        omega
      · obtain ⟨d, rfl⟩ : ∃ d, sectors = start + d := ⟨sectors - start, by omega⟩
        rw [Nat.count_add, hnone]
        have := Nat.count_le (p := fun k => usable (start + k)) (n := d)
        omega
    omega
  · show l0count ≤ g.bbtused - 64
    omega
  · show g.bbtused - 64 ≤ 64 * physicals.length
    rw [hlen]
    omega

theorem attempts_spec {n bbtpages c : Nat} (hpages : bbtpages = 64 * (c + 1))
    (hl0 : (sectors + 0xfffff) / 0x80000 ≤ bbtpages - 64)
    (hgood : ∀ p, p ≠ 0 → (isGood bitmap p = true ↔ (p : Int) ∉ bad))
    (h : attempts bitmap sectors n bbtpages = .ok t) : Generated sectors bad t := by
  induction n generalizing bbtpages c with
  | zero => cases h
  | succ n ih =>
    rw [attempts] at h
    split at h
    · rename_i hle
      split at h
      · exact ih (c := c + 1) (by omega) (by omega) h
      · exact attempt_spec hpages hle hl0 hgood h
    · cases h

theorem filled_isGood (words p : Nat) : isGood (.filled words) p = true := by
  rw [isGood_eq_getLsbD]
  have hlt : p % 32 < 32 := Nat.mod_lt _ (by omega)
  show (BitVec.allOnes 32).getLsbD (p % 32) = true
  rw [BitVec.getLsbD_allOnes, decide_eq_true hlt]

theorem genbbt_spec (h : genbbt sectors bad = .ok t) : Generated sectors bad t := by
  unfold genbbt at h
  split at h
  · cases h
  obtain ⟨bitmap, hread, h⟩ := bind_ok h
  refine attempts_spec (c := ((sectors + 0xfffff) / 0x80000 + 0x3f) / 0x40) (by omega) (by omega)
    (fun p hp => ?_) h
  rw [readBad_isGood hread hp, filled_isGood]
  simp

/-! ## The translator -/

theorem Table.read_eq {page i : Nat} (h : 32 * page + i < 2048 * t.physicals.length) :
    t.read page i = some (t.cells (32 * page + i)) := if_pos h

theorem Table.Has.read_succ {usable : Nat → Prop} (h : t.Has usable w)
    (ho : Open t.cells w s (k + 1)) {i : Nat} (hi : i < 32) :
    t.read (t.cells (addr t.cells s k) % 0x8000) i =
      some (t.cells (32 * (t.cells (addr t.cells s k) % 0x8000) + i)) := by
  obtain ⟨p, hp, hlt, -, hused, -⟩ := ho k (by omega)
  have := h.used
  exact t.read_eq (by omega)

/-- The run of equal cells is in one page. -/
theorem Table.sameRun_spec {page l3idx l3data n : Nat} (hn : l3idx + n ≤ 32)
    (hpage : ∀ i < 32, t.read page i = some (t.cells (32 * page + i)))
    (hsame : ∀ i < n, t.cells (32 * page + (l3idx + i)) = l3data) (m : Nat) :
    ∃ n', t.sameRun page l3idx l3data m n = some n' ∧ n ≤ n' ∧ n' ≤ n + m ∧ l3idx + n' ≤ 32 ∧
      ∀ i < n', t.cells (32 * page + (l3idx + i)) = l3data := by
  induction m generalizing n with
  | zero => exact ⟨n, rfl, le_rfl, le_rfl, hn, hsame⟩
  | succ m ih =>
    rw [Table.sameRun]
    split
    · rename_i hlt
      rw [hpage _ hlt, Option.bind_some]
      split
      · exact ⟨n, rfl, le_rfl, by omega, hn, hsame⟩
      · rename_i hv
        obtain ⟨n', h1, h2, h3, h4, h5⟩ := ih (n := n + 1) (by omega) (by
          intro i hi
          rcases Nat.lt_succ_iff_lt_or_eq.1 hi with hi | rfl
          · exact hsame i hi
          · exact not_not.1 hv)
        exact ⟨n', h1, by omega, by omega, h4, h5⟩
    · exact ⟨n, rfl, le_rfl, by omega, hn, hsame⟩

/-- Two sectors that the translator treats alike are at the same distance from where they are. -/
theorem Covered.same {cells : Nat → Nat} {s' k' phys' : Nat} (h : Covered cells w s k phys)
    (h' : Covered cells w s' k' phys') (haddr : ∀ i < k, addr cells s' i = addr cells s i)
    (h0 : addr cells s' 0 = addr cells s 0)
    (hcell : cells (addr cells s' k) = cells (addr cells s k)) : phys' + s = phys + s' := by
  have hk : k' = k := by
    rcases Nat.lt_trichotomy k' k with hlt | heq | hgt
    · obtain ⟨p, hp, -⟩ := h.opened k' hlt
      have hleaf := h'.leaf
      rw [haddr k' hlt, hp] at hleaf
      omega
    · exact heq
    · obtain ⟨p, hp, -⟩ := h'.opened k hgt
      have hleaf := h.leaf
      rw [← hcell, hp] at hleaf
      omega
  subst hk
  have h1 := h.phys
  have h2 := h'.phys
  rw [hcell, h0] at h2
  omega

theorem div_span_same {j : Nat} (h : s % span k + j < span k) :
    ∀ i ≤ k, (s + j) / span i = s / span i := by
  intro i hi
  have hdvd : span k ∣ s - s % span k := Nat.dvd_sub_mod s
  have hmod := Nat.mod_le s (span k)
  have h1 := div_span_eq hdvd h hi
  have h2 := div_span_eq hdvd (show s % span k < span k by omega) hi
  rw [show s - s % span k + (s % span k + j) = s + j by omega] at h1
  rw [show s - s % span k + s % span k = s by omega] at h2
  rw [h1, h2]

theorem addr_same {cells : Nat → Nat} {s' : Nat} (h : ∀ i ≤ k, s' / span i = s / span i) :
    ∀ i ≤ k, addr cells s' i = addr cells s i := by
  intro i hi
  induction i with
  | zero => rw [addr, addr, h 0 hi]
  | succ i ih => rw [addr, addr, ih (by omega), h (i + 1) hi]

theorem addr_last (cells : Nat → Nat) (s : Nat) :
    addr cells s 3 = 32 * (cells (addr cells s 2) % 0x8000) + s % 32 := by
  show 32 * (cells (addr cells s 2) % 0x8000) + s / 1 % 32 = _
  rw [Nat.div_one]

/-- What the translator should find: the physical sector, and how many follow it. -/
structure Finds (usable : Nat → Prop) (s count phys n : Nat) : Prop where
  eq : phys = Nat.nth usable s
  pos : 0 < n
  le : n ≤ count
  run : ∀ j < n, Nat.nth usable (s + j) = phys + j

/-- On the levels before the last, the run goes to the end of the range. -/
theorem Table.Has.finds {usable : Nat → Prop} (h : t.Has usable w)
    (hs : s + count ≤ t.virtualSectors) (hcount : 0 < count)
    (hc : Covered t.cells w s k (Nat.nth usable s)) :
    Finds usable s count
      (s + (t.cells (addr t.cells s k) + t.cells (addr t.cells s 0 + 1) * 0x1000))
      (min count (span k - s % span k)) := by
  have hmod := Nat.mod_lt s (span_pos k)
  refine ⟨hc.phys.symm, by omega, by omega, fun j hj => ?_⟩
  obtain ⟨k', hc'⟩ := h.covered (s + j) (by omega)
  have haddr : ∀ i ≤ k, addr t.cells (s + j) i = addr t.cells s i :=
    addr_same (div_span_same (by omega))
  have hsame := hc.same hc' (fun i hi => haddr i hi.le) (haddr 0 (Nat.zero_le _))
    (by rw [haddr k le_rfl])
  rw [← hc.phys]
  omega

theorem translate_spec {usable : Nat → Prop} (h : t.Has usable w)
    (hs : s + count ≤ t.virtualSectors) (hcount : 0 < count) :
    ∃ phys n, ataBbtTranslate t s count = some (phys, n) ∧ Finds usable s count phys n := by
  obtain ⟨k, hc⟩ := h.covered s (by omega)
  have hl0 := h.l0count s (by omega)
  have hle := h.l0count_le
  have hused := h.used
  rw [show span 0 = 0x8000 from rfl] at hl0
  have h0 : t.read 0 (2 * (s / 0x8000)) = some (t.cells (addr t.cells s 0)) := by
    rw [t.read_eq (by omega)]
    simp only [Nat.mul_zero, Nat.zero_add]
    rfl
  have hb : t.read 0 (2 * (s / 0x8000) + 1) = some (t.cells (addr t.cells s 0 + 1)) := by
    rw [t.read_eq (by omega)]
    simp only [Nat.mul_zero, Nat.zero_add]
    rfl
  have hnext : ∀ j < k, ¬ t.cells (addr t.cells s j) < 0x8000 := by
    intro j hj
    obtain ⟨p, hp, -⟩ := hc.opened j hj
    omega
  have hread : ∀ j < k, ∀ i < 32, t.read (t.cells (addr t.cells s j) % 0x8000) i =
      some (t.cells (32 * (t.cells (addr t.cells s j) % 0x8000) + i)) :=
    fun j hj i hi => h.read_succ (hc.opened.mono hj) hi
  have h1 : 0 < k → t.read (t.cells (addr t.cells s 0) % 0x8000) (s / 0x400 % 0x20) =
      some (t.cells (addr t.cells s 1)) :=
    fun hk => hread 0 hk _ (Nat.mod_lt _ (by omega))
  have h2 : 1 < k → t.read (t.cells (addr t.cells s 1) % 0x8000) (s / 0x20 % 0x20) =
      some (t.cells (addr t.cells s 2)) :=
    fun hk => hread 1 hk _ (Nat.mod_lt _ (by omega))
  have haddr3 : 32 * (t.cells (addr t.cells s 2) % 0x8000) + s % 0x20 = addr t.cells s 3 := by
    have hlast := addr_last t.cells s
    omega
  have hfinds := h.finds hs hcount hc
  have hleaf := hc.leaf
  have hk3 := hc.le
  unfold ataBbtTranslate
  rw [if_neg (by omega), if_neg (by omega)]
  simp only [h0, hb, Option.bind_eq_bind, Option.bind_some]
  interval_cases k
  · rw [if_pos hleaf]
    exact ⟨_, _, rfl, hfinds⟩
  · rw [if_neg (hnext 0 (by omega)), h1 (by omega), Option.bind_some, if_pos hleaf]
    exact ⟨_, _, rfl, hfinds⟩
  · rw [if_neg (hnext 0 (by omega)), h1 (by omega), Option.bind_some, if_neg (hnext 1 (by omega)),
      h2 (by omega), Option.bind_some, if_pos hleaf]
    exact ⟨_, _, rfl, hfinds⟩
  · rw [if_neg (hnext 0 (by omega)), h1 (by omega), Option.bind_some, if_neg (hnext 1 (by omega)),
      h2 (by omega), Option.bind_some, if_neg (hnext 2 (by omega)),
      hread 2 (by omega) _ (Nat.mod_lt _ (by omega)), Option.bind_some, haddr3]
    have hone : ∀ i < 1, t.cells (32 * (t.cells (addr t.cells s 2) % 0x8000) + (s % 0x20 + i)) =
        t.cells (addr t.cells s 3) := by
      intro i hi
      rw [show i = 0 by omega, Nat.add_zero, haddr3]
    obtain ⟨n, hrun, hn, hncount, hn32, hsame⟩ :=
      t.sameRun_spec (by omega) (hread 2 (by omega)) hone (count - 1)
    rw [hrun, Option.bind_some]
    refine ⟨_, _, rfl, hc.phys.symm, hn, by omega, fun j hj => ?_⟩
    obtain ⟨k', hc'⟩ := h.covered (s + j) (by omega)
    have hrange : s % span 2 + j < span 2 := by
      rw [show span 2 = 0x20 from rfl]
      omega
    have haddr : ∀ i ≤ 2, addr t.cells (s + j) i = addr t.cells s i :=
      addr_same (div_span_same hrange)
    have hcell : t.cells (addr t.cells (s + j) 3) = t.cells (addr t.cells s 3) := by
      rw [← hsame j hj]
      congr 1
      rw [addr_last, haddr 2 le_rfl]
      omega
    have hd := hc.same hc' (fun i hi => haddr i (by omega)) (haddr 0 (by omega)) hcell
    rw [← hc.phys]
    omega

/-! ## Runs

They are physically consecutive in every table, not only in those that the generator writes. -/

/-- The sectors from `s` on are found one by one where `phys` and the sectors after it are. -/
structure IsRun (t : Table) (s count phys n : Nat) : Prop where
  pos : 0 < n
  le : n ≤ count
  single : ∀ i < n, ataBbtTranslate t (s + i) 1 = some (phys + i, 1)

/-- The cells that the run consists of. -/
theorem Table.sameRun_some {page l3idx l3data m n n' : Nat}
    (h : t.sameRun page l3idx l3data m n = some n') (hn : l3idx + n ≤ 32) :
    n ≤ n' ∧ n' ≤ n + m ∧ l3idx + n' ≤ 32 ∧
      ∀ i, n ≤ i → i < n' → t.read page (l3idx + i) = some l3data := by
  induction m generalizing n with
  | zero =>
    cases h
    exact ⟨le_rfl, le_rfl, hn, fun i h1 h2 => by omega⟩
  | succ m ih =>
    rw [Table.sameRun] at h
    split at h
    · rename_i hlt
      obtain ⟨v, hv, h⟩ := Option.bind_eq_some_iff.1 h
      split at h
      · cases h
        exact ⟨le_rfl, by omega, hn, fun i h1 h2 => by omega⟩
      · rename_i hne
        obtain ⟨h1, h2, h3, h4⟩ := ih h (by omega)
        refine ⟨by omega, by omega, h3, fun i hi1 hi2 => ?_⟩
        rcases Nat.lt_or_ge n i with hlt | hge
        · exact h4 i hlt hi2
        · obtain rfl : i = n := by omega
          rw [hv, not_not.1 hne]
    · cases h
      exact ⟨le_rfl, by omega, hn, fun i h1 h2 => by omega⟩

/-- The cell that the run stops at is outside of the table. -/
theorem Table.sameRun_none {page l3idx l3data m n : Nat}
    (h : t.sameRun page l3idx l3data m n = none) :
    ∃ i < n + m, l3idx + i < 32 ∧ t.read page (l3idx + i) = none := by
  induction m generalizing n with
  | zero => cases h
  | succ m ih =>
    rw [Table.sameRun] at h
    split at h
    · rename_i hlt
      rcases Option.bind_eq_none_iff.1 h with h
      cases hv : t.read page (l3idx + n) with
      | none => exact ⟨n, by omega, hlt, hv⟩
      | some v =>
        have hstep := h v hv
        split at hstep
        · cases hstep
        · obtain ⟨i, h1, h2, h3⟩ := ih hstep
          exact ⟨i, by omega, h2, h3⟩
    · cases h

theorem translate_isRun {len : Nat} (h : ataBbtTranslate t s count = some (phys, len))
    (h0 : 0 < count) : IsRun t s count phys len := by
  unfold ataBbtTranslate at h
  split at h
  · cases h
  rename_i hs
  rw [if_neg (by omega)] at h
  simp only [Option.bind_eq_bind] at h
  obtain ⟨l0data, hl0, h⟩ := Option.bind_eq_some_iff.1 h
  obtain ⟨base, hbase, h⟩ := Option.bind_eq_some_iff.1 h
  have hone : ∀ i < count, ¬ t.virtualSectors < s + i + 1 := fun i hi => by omega
  split at h
  · rename_i hlt
    cases h
    refine ⟨by omega, by omega, fun i hi => ?_⟩
    unfold ataBbtTranslate
    rw [if_neg (hone i (by omega)), if_neg (by omega)]
    simp only [show (s + i) / 0x8000 = s / 0x8000 by omega, hl0, hbase, Option.bind_eq_bind,
      Option.bind_some, if_pos hlt, Option.some.injEq, Prod.mk.injEq]
    omega
  rename_i hl0lt
  obtain ⟨l1data, hl1, h⟩ := Option.bind_eq_some_iff.1 h
  split at h
  · rename_i hlt
    cases h
    refine ⟨by omega, by omega, fun i hi => ?_⟩
    unfold ataBbtTranslate
    rw [if_neg (hone i (by omega)), if_neg (by omega)]
    simp only [show (s + i) / 0x8000 = s / 0x8000 by omega,
      show (s + i) / 0x400 % 0x20 = s / 0x400 % 0x20 by omega, hl0, hbase, hl1,
      Option.bind_eq_bind, Option.bind_some, if_neg hl0lt, if_pos hlt, Option.some.injEq,
      Prod.mk.injEq]
    omega
  rename_i hl1lt
  obtain ⟨l2data, hl2, h⟩ := Option.bind_eq_some_iff.1 h
  split at h
  · rename_i hlt
    cases h
    refine ⟨by omega, by omega, fun i hi => ?_⟩
    unfold ataBbtTranslate
    rw [if_neg (hone i (by omega)), if_neg (by omega)]
    simp only [show (s + i) / 0x8000 = s / 0x8000 by omega,
      show (s + i) / 0x400 % 0x20 = s / 0x400 % 0x20 by omega,
      show (s + i) / 0x20 % 0x20 = s / 0x20 % 0x20 by omega, hl0, hbase, hl1, hl2,
      Option.bind_eq_bind, Option.bind_some, if_neg hl0lt, if_neg hl1lt, if_pos hlt,
      Option.some.injEq, Prod.mk.injEq]
    omega
  rename_i hl2lt
  obtain ⟨l3data, hl3, h⟩ := Option.bind_eq_some_iff.1 h
  obtain ⟨n, hrun, h⟩ := Option.bind_eq_some_iff.1 h
  cases h
  obtain ⟨hn, hncount, hn32, hsame⟩ := t.sameRun_some hrun (by omega)
  refine ⟨hn, by omega, fun i hi => ?_⟩
  have hcell : t.read (l2data % 0x8000) ((s + i) % 0x20) = some l3data := by
    rcases Nat.eq_zero_or_pos i with rfl | hpos
    · exact hl3
    · rw [show (s + i) % 0x20 = s % 0x20 + i by omega]
      exact hsame i hpos hi
  unfold ataBbtTranslate
  rw [if_neg (hone i (by omega)), if_neg (by omega)]
  simp only [show (s + i) / 0x8000 = s / 0x8000 by omega,
    show (s + i) / 0x400 % 0x20 = s / 0x400 % 0x20 by omega,
    show (s + i) / 0x20 % 0x20 = s / 0x20 % 0x20 by omega, hl0, hbase, hl1, hl2, hcell,
    Option.bind_eq_bind, Option.bind_some, if_neg hl0lt, if_neg hl1lt, if_neg hl2lt,
    Table.sameRun, Nat.sub_self, Option.some.injEq, Prod.mk.injEq, and_true]
  omega

/-- A run that leaves the table has a sector that leaves it on its own. -/
theorem translate_none (h : ataBbtTranslate t s count = none) (h0 : 0 < count)
    (hs : s + count ≤ t.virtualSectors) : ∃ i < count, ataBbtTranslate t (s + i) 1 = none := by
  by_contra hall
  push Not at hall
  have hfirst := hall 0 h0
  obtain ⟨⟨phys, n⟩, hone⟩ := Option.ne_none_iff_exists'.1 hfirst
  unfold ataBbtTranslate at h hone
  rw [if_neg (by omega), if_neg (by omega)] at h hone
  simp only [Option.bind_eq_bind, Nat.add_zero] at h hone
  obtain ⟨l0data, hl0, hone⟩ := Option.bind_eq_some_iff.1 hone
  obtain ⟨base, hbase, hone⟩ := Option.bind_eq_some_iff.1 hone
  simp only [hl0, hbase, Option.bind_some] at h
  split at h
  · cases h
  rename_i hl0lt
  rw [if_neg hl0lt] at hone
  obtain ⟨l1data, hl1, hone⟩ := Option.bind_eq_some_iff.1 hone
  simp only [hl1, Option.bind_some] at h
  split at h
  · cases h
  rename_i hl1lt
  rw [if_neg hl1lt] at hone
  obtain ⟨l2data, hl2, hone⟩ := Option.bind_eq_some_iff.1 hone
  simp only [hl2, Option.bind_some] at h
  split at h
  · cases h
  rename_i hl2lt
  rw [if_neg hl2lt] at hone
  obtain ⟨l3data, hl3, hone⟩ := Option.bind_eq_some_iff.1 hone
  simp only [hl3, Option.bind_some, Option.bind_eq_none_iff] at h
  have hrun : t.sameRun (l2data % 0x8000) (s % 0x20) l3data (count - 1) 1 = none := by
    cases hr : t.sameRun (l2data % 0x8000) (s % 0x20) l3data (count - 1) 1 with
    | none => rfl
    | some m => exact absurd (h m hr) (by simp)
  obtain ⟨i, hi, hi32, hcell⟩ := t.sameRun_none hrun
  refine hall i (by omega) ?_
  unfold ataBbtTranslate
  rw [if_neg (by omega), if_neg (by omega)]
  simp only [show (s + i) / 0x8000 = s / 0x8000 by omega,
    show (s + i) / 0x400 % 0x20 = s / 0x400 % 0x20 by omega,
    show (s + i) / 0x20 % 0x20 = s / 0x20 % 0x20 by omega,
    show (s + i) % 0x20 = s % 0x20 + i by omega, hl0, hbase, hl1, hl2, hcell,
    Option.bind_eq_bind, Option.bind_some, Option.bind_none, if_neg hl0lt, if_neg hl1lt,
    if_neg hl2lt]

/-! ## Together -/

/-- The virtual sectors are the usable sectors in their order. -/
structure Translates (t : Table) (usable : Nat → Prop) : Prop where
  finds : ∀ s count, 0 < count → s + count ≤ t.virtualSectors →
    ∃ phys n, ataBbtTranslate t s count = some (phys, n) ∧ Finds usable s count phys n
  mem : ∀ s < t.virtualSectors, usable (Nat.nth usable s)
  strictMono : StrictMonoOn (Nat.nth usable) {s | s < t.virtualSectors}
  all : ∀ p, usable p → ∃ s < t.virtualSectors, Nat.nth usable s = p

theorem genbbt_translates (h : genbbt sectors bad = .ok t) :
    Translates t (Usable sectors bad t.physicals) := by
  obtain ⟨⟨w, hw⟩, hcount⟩ := genbbt_spec h
  have hcard : ∀ hf : (Set.ofPred (Usable sectors bad t.physicals)).Finite,
      t.virtualSectors ≤ hf.toFinset.card := by
    intro hf
    rw [← hcount]
    exact Nat.count_le_card hf sectors
  refine ⟨fun s count h0 hs => translate_spec hw hs h0, fun s hs => ?_, ?_, fun p hp => ?_⟩
  · exact Nat.nth_mem s fun hf => lt_of_lt_of_le hs (hcard hf)
  · intro a _ b hb hab
    exact Nat.nth_lt_nth' hab fun hf => lt_of_lt_of_le hb (hcard hf)
  · refine ⟨Nat.count (Usable sectors bad t.physicals) p, ?_, Nat.nth_count hp⟩
    rw [← hcount]
    exact Nat.count_strict_mono hp hp.1

theorem genbbt_translates_four : ∃ t, genbbt 4 [2] = .ok t ∧ t.virtualSectors = 1 ∧
    Translates t (Usable 4 [2] t.physicals) := by
  have hok : (genbbt 4 [2]).toOption.map (fun t => t.virtualSectors) = some 1 := by decide
  cases h : genbbt 4 [2] with
  | error e =>
    rw [h] at hok
    cases hok
  | ok t =>
    rw [h] at hok
    exact ⟨t, rfl, Option.some.inj hok, genbbt_translates h⟩

end Bbt
end Freemyipod
