import Freemyipod.Vfl.Commit

/-!
# Vfl.Recovery

A mount finds the context that the last commit stored.

* `loadFrom_valid`: of a bank that is `Valid` and `Holds`, the mount loads the context in memory.
* `Device.Allowed`: what may happen to a bank between commits, and that the update count does not
  run out. `Runs.valid` is the invariant of such runs.
* `ftlVflOpen_committed`: after any such run that ends with a commit of the bank, and whatever
  happens to other banks afterwards, mounting loads what that commit stored.
-/

namespace Freemyipod.Vfl

/-! ## The search for the context -/

section Search

theorem lowestUsn_take {candidate : Nat → Option (BitVec 32)} {ks : List Nat} {u v : BitVec 32}
    {a k : Nat} (hv : candidate a = some v) (h : 0 < v ∧ v ≤ u) :
    lowestUsn candidate (a :: ks) (u, k) = lowestUsn candidate ks (v, a) := by
  simp only [lowestUsn, hv, if_pos h]

theorem lowestUsn_skip {candidate : Nat → Option (BitVec 32)} {ks : List Nat} {u : BitVec 32}
    {a k : Nat} (h : ∀ v, candidate a = some v → ¬(0 < v ∧ v ≤ u)) :
    lowestUsn candidate (a :: ks) (u, k) = lowestUsn candidate ks (u, k) := by
  cases hc : candidate a with
  | none => simp only [lowestUsn, hc]
  | some v => simp only [lowestUsn, hc, if_neg (h v hc)]

/-- The scan over the context blocks ends at the start value, if no block has a usn that low, or at
the last of the blocks with the lowest usn. -/
theorem lowestUsn_spec {candidate : Nat → Option (BitVec 32)} {ks : List Nat} {u : BitVec 32}
    {k : Nat} (hks : ks.Pairwise (· < ·)) :
    (lowestUsn candidate ks (u, k) = (u, k) ∧
        ∀ i ∈ ks, ∀ v, candidate i = some v → 0 < v → u < v) ∨
      ∃ i ∈ ks, ∃ v, candidate i = some v ∧ 0 < v ∧ v ≤ u ∧
        lowestUsn candidate ks (u, k) = (v, i) ∧
        ∀ j ∈ ks, ∀ w, candidate j = some w → 0 < w → v < w ∨ (v = w ∧ j ≤ i) := by
  induction ks generalizing u k with
  | nil => exact .inl ⟨rfl, fun i hi => absurd hi List.not_mem_nil⟩
  | cons a ks ih =>
    have htail := (List.pairwise_cons.1 hks).2
    have hhead := (List.pairwise_cons.1 hks).1
    by_cases ha : ∃ v, candidate a = some v ∧ 0 < v ∧ v ≤ u
    · obtain ⟨v, hv, hpos, hle⟩ := ha
      rw [lowestUsn_take hv ⟨hpos, hle⟩]
      rcases ih htail (u := v) (k := a) with ⟨h, hall⟩ | ⟨i, hi, w, hw, hwpos, hwv, h, hall⟩
      · refine .inr ⟨a, List.mem_cons_self, v, hv, hpos, hle, h, ?_⟩
        intro j hj w hw hwpos
        rcases List.mem_cons.1 hj with rfl | hj
        · rw [hv] at hw
          cases hw
          exact .inr ⟨rfl, Nat.le_refl _⟩
        · exact .inl (hall j hj w hw hwpos)
      · refine .inr ⟨i, List.mem_cons_of_mem _ hi, w, hw, hwpos, BitVec.le_trans hwv hle, h, ?_⟩
        intro j hj x hx hxpos
        rcases List.mem_cons.1 hj with rfl | hj
        · rw [hv] at hx
          cases hx
          have hji := hhead i hi
          rcases Nat.lt_or_eq_of_le (BitVec.le_def.1 hwv) with hlt | heq
          · exact .inl (BitVec.lt_def.2 hlt)
          · exact .inr ⟨BitVec.eq_of_toNat_eq heq, Nat.le_of_lt hji⟩
        · exact hall j hj x hx hxpos
    · have hbig : ∀ v, candidate a = some v → 0 < v → u < v := by
        intro v hv hpos
        by_contra hle
        exact ha ⟨v, hv, hpos, BitVec.not_lt.1 hle⟩
      rw [lowestUsn_skip fun v hv h => ha ⟨v, hv, h⟩]
      rcases ih htail (u := u) (k := k) with ⟨h, hall⟩ | ⟨i, hi, w, hw, hwpos, hwu, h, hall⟩
      · refine .inl ⟨h, fun j hj v hv hpos => ?_⟩
        rcases List.mem_cons.1 hj with rfl | hj
        · exact hbig v hv hpos
        · exact hall j hj v hv hpos
      · refine .inr ⟨i, List.mem_cons_of_mem _ hi, w, hw, hwpos, hwu, h, ?_⟩
        intro j hj x hx hxpos
        rcases List.mem_cons.1 hj with rfl | hj
        · exact .inl (BitVec.lt_def.2
            (Nat.lt_of_le_of_lt (BitVec.le_def.1 hwu) (BitVec.lt_def.1 (hbig x hx hxpos))))
        · exact hall j hj x hx hxpos

/-- The scan over the groups stops before the first one that cannot be read. -/
theorem lastGroup_spec {readable : Nat → Bool} {n m first last : Nat} (hm : m ≤ n)
    (hlast : last + 8 = first) (hread : ∀ k < m, readable (first + 8 * k) = true)
    (hstop : m < n → readable (first + 8 * m) = false) :
    lastGroup readable (List.range' first n 8) last = last + 8 * m := by
  induction m generalizing n first last with
  | zero =>
    cases n with
    | zero => rfl
    | succ n =>
      have h0 : readable first = false := hstop (Nat.succ_pos n)
      rw [List.range'_succ, lastGroup, h0]
      rfl
  | succ m ih =>
    cases n with
    | zero => omega
    | succ n =>
      have h0 : readable first = true := hread 0 (Nat.succ_pos m)
      rw [List.range'_succ, lastGroup, h0, if_pos rfl, ih (by omega) rfl ?_ ?_]
      · omega
      · intro k hk
        have h := hread (k + 1) (by omega)
        rwa [Nat.mul_succ, Nat.add_comm (8 * k), ← Nat.add_assoc] at h
      · intro hlt
        have h := hstop (by omega)
        rwa [Nat.mul_succ, Nat.add_comm (8 * m), ← Nat.add_assoc] at h

end Search

/-! ## Loading a valid bank -/

section Load

variable {d : Device} {b : Bank} {list : Nat → BitVec 16}

theorem candidate_some {flash : Flash} {k : Nat} {v : BitVec 32} :
    d.candidate flash list k = some v ↔
      list k ≠ 0xFFFF ∧
        ∃ r, ftlVflReadPage d.pagesperblock flash (list k).toNat 0 = some r ∧ r.2.usn = v := by
  rw [Device.candidate]
  split
  · simp_all
  · simp_all [Option.map_eq_some_iff]

/-- Of a valid bank, a mount chooses the active block. -/
theorem lowestUsn_valid (hv : b.Valid d.pagesperblock)
    (hl : ∀ i < 4, list i = b.cxt.vflcxtblocks i) :
    ∃ v, ∃ k < 4, lowestUsn (d.candidate b.flash list) (List.range 4) (0xFFFFFFFF, 4) = (v, k) ∧
      (list k).toNat = b.block := by
  obtain ⟨r, hr, hpos, hfirst⟩ := hv.first
  have ha := hv.active_lt
  have hcand : d.candidate b.flash list b.cxt.activecxtblock.toNat = some r.2.usn :=
    candidate_some.2 ⟨by rw [hl _ ha]; exact hv.listed, r, by rw [hl _ ha]; exact hr, rfl⟩
  have hmem : b.cxt.activecxtblock.toNat ∈ List.range 4 := List.mem_range.2 ha
  have hsearch := @lowestUsn_spec (d.candidate b.flash list) (List.range 4) 0xFFFFFFFF 4
    List.pairwise_lt_range
  rcases hsearch with ⟨-, hall⟩ | ⟨k, hk, v, hkv, hvpos, -, h, hall⟩
  · have hlt := hall _ hmem _ hcand hpos
    exact absurd hlt (by bv_omega)
  · have hk := List.mem_range.1 hk
    refine ⟨v, k, hk, h, ?_⟩
    obtain ⟨hlisted, q, hq, rfl⟩ := candidate_some.1 hkv
    rw [hl k hk] at hlisted hq ⊢
    rcases hfirst k hk hlisted q hq hvpos with hlt | ⟨heq, hle⟩ | hsame
    · rcases hall _ hmem _ hcand hpos with hlt' | ⟨heq, -⟩
      · exact absurd hlt (by bv_omega)
      · exact absurd hlt (by bv_omega)
    · rcases hall _ hmem _ hcand hpos with hlt' | ⟨-, hle'⟩
      · exact absurd hlt' (by bv_omega)
      · rw [Nat.le_antisymm hle hle']
        rfl
    · exact hsame

/-- Of a valid bank, a mount reads the last group of the active block. -/
theorem lastGroup_valid (hv : b.Valid d.pagesperblock) :
    lastGroup (fun k => (ftlVflReadPage d.pagesperblock b.flash b.block k).isSome)
      (List.range' 8 ((d.pagesperblock - 1) / 8) 8) 0 = b.cxt.nextcxtpage.toNat - 8 := by
  obtain ⟨n, hn, hgroups⟩ := hv.groups
  have hle := hv.next_le
  obtain ⟨m, hm⟩ := d.eight_dvd
  have hstop : n < (d.pagesperblock - 1) / 8 →
      (ftlVflReadPage d.pagesperblock b.flash b.block (8 + 8 * n)).isSome = false := by
    intro h
    rw [ftlVflReadPage_none]
    · rfl
    · intro i hi
      rw [Nat.add_assoc, hv.free _ (by omega) (by omega)]
      rfl
  rw [lastGroup_spec (m := n) (by omega) rfl ?_ hstop]
  · omega
  · intro k hk
    have h := hgroups (k + 1) (by omega)
    rwa [Nat.mul_succ, Nat.add_comm] at h

/-- Mounting a valid bank loads what its last group holds. -/
theorem loadFrom_valid (hv : b.Valid d.pagesperblock) (hh : b.Holds d.pagesperblock)
    (hl : ∀ i < 4, list i = b.cxt.vflcxtblocks i) :
    d.loadFrom b.flash list = .loaded b.cxt := by
  obtain ⟨v, k, hk, hlow, hblock⟩ := lowestUsn_valid hv hl
  have hlast : ftlVflReadPage d.pagesperblock b.flash b.block
      (b.cxt.nextcxtpage.toNat - 8) = some (b.cxt, storeSpare b.cxt) := hh.last
  have hk4 : k ≠ 4 := by omega
  simp only [Device.loadFrom, hlow, hblock, if_neg hk4, lastGroup_valid hv, hlast, hh.verifies,
    if_true]

/-- The pages of the blocks that a mount looks for the list of context blocks in. -/
def Device.Searched (d : Device) (bbt : Nat → BitVec 8) (p : Nat) : Prop :=
  ∃ j, 1 ≤ j ∧ j ≤ d.syshyperblocks ∧ ftlIsGoodBlock bbt j = true ∧
    ∃ k < 8, p = j * d.pagesperblock + k

/-- The list of context blocks can be read. -/
def Device.ListReadable (d : Device) (bbt : Nat → BitVec 8) (flash : Flash) : Prop :=
  ∃ j, 1 ≤ j ∧ j ≤ d.syshyperblocks ∧ ftlIsGoodBlock bbt j = true ∧
    (ftlVflReadPage d.pagesperblock flash j 0).isSome = true

theorem findList_spec {bbt : Nat → BitVec 8} (hl : b.Lists (d.Searched bbt) list)
    (h : d.ListReadable bbt b.flash) :
    ∃ cxt, d.findList b.flash bbt = some cxt ∧ ∀ i < 4, cxt.vflcxtblocks i = list i := by
  obtain ⟨j, hj, hjs, hgood, hread⟩ := h
  have hsome : (d.findList b.flash bbt).isSome = true := by
    rw [Device.findList, List.findSome?_isSome_iff]
    refine ⟨j, List.mem_range'_1.2 ⟨hj, by omega⟩, ?_⟩
    rw [if_pos hgood, Option.isSome_map]
    exact hread
  obtain ⟨cxt, hcxt⟩ := Option.isSome_iff_exists.1 hsome
  refine ⟨cxt, hcxt, ?_⟩
  obtain ⟨i, hi, hr⟩ := List.exists_of_findSome?_eq_some hcxt
  have hi := List.mem_range'_1.1 hi
  split at hr
  · rename_i hg
    obtain ⟨r, hpage, rfl⟩ := Option.map_eq_some_iff.1 hr
    obtain ⟨k, hk, hcell, hvfl⟩ := ftlVflReadPage_some hpage
    rw [Nat.add_zero] at hcell
    exact hl.copies _ ⟨i, hi.1, by omega, hg, k, hk, rfl⟩ r hcell hvfl
  · cases hr

/-- Mounting a valid bank, with the list of its context blocks still readable. -/
theorem openBank_valid {bbt : Nat → BitVec 8} {s : State} {i : Nat} (hbbt : d.bbt i = some bbt)
    (hv : (s.bank i).Valid d.pagesperblock) (hh : (s.bank i).Holds d.pagesperblock)
    (hl : (s.bank i).Lists (d.Searched bbt) list) (h : d.ListReadable bbt (s.flash i)) :
    d.openBank s.flash i = .loaded (s.cxt i) := by
  obtain ⟨cxt, hfind, hlist⟩ := findList_spec hl h
  have hload : d.loadFrom (s.bank i).flash cxt.vflcxtblocks = .loaded (s.bank i).cxt :=
    loadFrom_valid hv hh fun k hk => by rw [hlist k hk, hl.cxt k hk]
  have hfind : d.findList (s.flash i) bbt = some cxt := hfind
  simp only [Device.openBank, hbbt, hfind]
  exact hload

end Load

/-! ## Mounting all banks -/

section Open

variable {d : Device} {s t : State}

theorem newestCxt_spec {cxt : Nat → Cxt} {is : List Nat} {best : Nat × BitVec 32} :
    best.2 ≤ (newestCxt cxt is best).2 ∧
      (∀ i ∈ is, (cxt i).usn ≤ (newestCxt cxt is best).2) ∧
      (newestCxt cxt is best = best ∨
        (newestCxt cxt is best).1 ∈ is ∧
          (newestCxt cxt is best).2 = (cxt (newestCxt cxt is best).1).usn) := by
  induction is generalizing best with
  | nil => exact ⟨BitVec.le_refl _, fun i hi => absurd hi List.not_mem_nil, .inl rfl⟩
  | cons i is ih =>
    rw [newestCxt]
    by_cases hi : best.2 ≤ (cxt i).usn
    · rw [if_pos hi]
      obtain ⟨hle, hall, hres⟩ := @ih (i, (cxt i).usn)
      refine ⟨BitVec.le_trans hi hle, ?_, ?_⟩
      · intro j hj
        rcases List.mem_cons.1 hj with rfl | hj
        · exact hle
        · exact hall j hj
      · rcases hres with h | ⟨hmem, h⟩
        · rw [h]
          exact .inr ⟨List.mem_cons_self, rfl⟩
        · exact .inr ⟨List.mem_cons_of_mem _ hmem, h⟩
    · rw [if_neg hi]
      obtain ⟨hle, hall, hres⟩ := @ih best
      refine ⟨hle, ?_, ?_⟩
      · intro j hj
        rcases List.mem_cons.1 hj with rfl | hj
        · exact BitVec.le_trans (BitVec.le_of_lt (BitVec.not_le.1 hi)) hle
        · exact hall j hj
      · rcases hres with h | ⟨hmem, h⟩
        · exact .inl h
        · exact .inr ⟨List.mem_cons_of_mem _ hmem, h⟩

/-- The newest context is one of a bank, and none has a higher usn. -/
theorem newest_spec {cxt : Nat → Cxt} (hb : 0 < d.banks) :
    d.newest cxt < d.banks ∧ ∀ i < d.banks, (cxt i).usn ≤ (cxt (d.newest cxt)).usn := by
  obtain ⟨-, hall, hres⟩ := @newestCxt_spec cxt (List.range d.banks) (0, 0)
  rw [Device.newest]
  rcases hres with h | ⟨hmem, h⟩
  · rw [h] at hall ⊢
    refine ⟨hb, fun i hi => ?_⟩
    have hle := hall i (List.mem_range.2 hi)
    exact BitVec.le_trans hle (BitVec.le_def.2 (Nat.zero_le _))
  · exact ⟨List.mem_range.1 hmem, fun i hi => h ▸ hall i (List.mem_range.2 hi)⟩

/-- The loop over the banks gives each bank what is loaded for it. -/
theorem openBanks_spec {is : List Nat} (hnodup : is.Nodup) (h : d.openBanks is s = some t) :
    t.flash = s.flash ∧ (∀ i, i ∉ is → t.cxt i = s.cxt i) ∧
      ∀ i ∈ is, ∀ cxt, d.openBank s.flash i = .loaded cxt → t.cxt i = cxt := by
  induction is generalizing s with
  | nil =>
    cases h
    exact ⟨rfl, fun _ _ => rfl, fun i hi => absurd hi List.not_mem_nil⟩
  | cons a is ih =>
    obtain ⟨ha, hnodup⟩ := List.nodup_cons.1 hnodup
    rw [Device.openBanks] at h
    cases ho : d.openBank s.flash a with
    | failed =>
      rw [ho] at h
      cases h
    | untouched =>
      rw [ho] at h
      obtain ⟨hflash, hother, hall⟩ := ih hnodup h
      refine ⟨hflash, fun i hi => hother i fun hm => hi (List.mem_cons_of_mem _ hm), ?_⟩
      intro i hi cxt hload
      rcases List.mem_cons.1 hi with rfl | hi
      · rw [ho] at hload
        cases hload
      · exact hall i hi cxt hload
    | loaded c =>
      rw [ho] at h
      obtain ⟨hflash, hother, hall⟩ := ih hnodup h
      refine ⟨hflash, fun i hi => ?_, ?_⟩
      · rw [hother i fun hm => hi (List.mem_cons_of_mem _ hm)]
        have hne : i ≠ a := fun he => hi (by rw [he]; exact List.mem_cons_self)
        exact Function.update_of_ne hne _ _
      · intro i hi cxt hload
        rcases List.mem_cons.1 hi with rfl | hi
        · rw [ho] at hload
          cases hload
          rw [hother i ha]
          exact Function.update_self _ _ _
        · exact hall i hi cxt hload

theorem copyFtlctrlblocks_self (c : Cxt) : c.copyFtlctrlblocks c = c := by
  funext i
  rw [Cxt.copyFtlctrlblocks, ite_self]

theorem copyFtlctrlblocks_usn (c c' : Cxt) : (c.copyFtlctrlblocks c').usn = c.usn := rfl

/-- After a mount, a bank has the context that was loaded for it, with the `ftlctrlblocks` of the
context with the highest usn. -/
theorem ftlVflOpen_spec {i : Nat} (hi : i < d.banks) (h : d.ftlVflOpen s = some t) {c : Cxt}
    (hload : d.openBank s.flash i = .loaded c) :
    ∃ n < d.banks, (∀ j < d.banks, (t.cxt j).usn ≤ (t.cxt n).usn) ∧
      t.cxt i = c.copyFtlctrlblocks (t.cxt n) ∧ (n = i → t.cxt i = c) := by
  obtain ⟨w, hw, rfl⟩ := Option.map_eq_some_iff.1 h
  obtain ⟨-, -, hall⟩ := openBanks_spec List.nodup_range hw
  obtain ⟨hn, hmax⟩ := @newest_spec d w.cxt (by omega)
  have hwi : w.cxt i = c := hall i (List.mem_range.2 hi) c hload
  refine ⟨d.newest w.cxt, hn, fun j hj => ?_, ?_, fun hni => ?_⟩
  · simp only [if_pos hj, if_pos hn, copyFtlctrlblocks_usn]
    exact hmax j hj
  · simp only [if_pos hi, if_pos hn, copyFtlctrlblocks_self, hwi]
  · simp only [if_pos hi, hni, hwi, copyFtlctrlblocks_self]

end Open

/-! ## Runs -/

section Runs

variable {d : Device} {s t u v : State} {i : Nat} {bbt : Nat → BitVec 8}

/-- Bank `i` is mounted: its active block holds a context that a mount would find, and the copies
of contexts on it agree on the list of context blocks. -/
structure Device.Mounted (d : Device) (bbt : Nat → BitVec 8) (s : State) (i : Nat) : Prop where
  valid : (s.bank i).Valid d.pagesperblock
  lists : (s.bank i).Lists (d.Searched bbt) (s.cxt i).vflcxtblocks

/-- What may happen to bank `i` between two mounts. A commit must not exhaust the update count; the
FTL leaves the fields that the commits keep to themselves. -/
def Device.Allowed (d : Device) (i : Nat) (s : State) : Action → Prop
  | .commit j luck => j = i → ∀ t o, d.step s (.commit j luck) = some (t, o) →
      0 < (t.cxt i).updatecount ∧ (t.cxt i).updatecount < (s.cxt i).updatecount
  | .edit j cxt => j = i →
      cxt.updatecount = (s.cxt i).updatecount ∧
      cxt.activecxtblock = (s.cxt i).activecxtblock ∧
      cxt.nextcxtpage = (s.cxt i).nextcxtpage ∧
      ∀ k < 4, cxt.vflcxtblocks k = (s.cxt i).vflcxtblocks k

theorem bank_setBank {b : Bank} {j : Nat} (h : j ≠ i) :
    ((s.setBank j b).flash i = s.flash i) ∧ (s.setBank j b).cxt i = s.cxt i :=
  ⟨Function.update_of_ne h.symm _ _, Function.update_of_ne h.symm _ _⟩

/-- An action on another bank leaves a bank's flash and context alone. -/
theorem step_other {a : Action} {o : Unit} (h : d.step s a = some (t, o)) (ha : a.bank ≠ i) :
    t.flash i = s.flash i ∧ t.cxt i = s.cxt i := by
  cases a with
  | commit j luck =>
    obtain ⟨b, -, he⟩ := Option.map_eq_some_iff.1 h
    cases he
    exact bank_setBank ha
  | edit j cxt =>
    cases h
    exact ⟨rfl, Function.update_of_ne (Ne.symm ha) _ _⟩

/-- What is said of a bank depends on its flash and on the fields that the commits keep. -/
theorem Bank.Valid.congr {pagesperblock : Nat} {b b' : Bank} (hv : b.Valid pagesperblock)
    (hflash : b'.flash = b.flash) (hu : b'.cxt.updatecount = b.cxt.updatecount)
    (ha : b'.cxt.activecxtblock = b.cxt.activecxtblock)
    (hn : b'.cxt.nextcxtpage = b.cxt.nextcxtpage)
    (hl : ∀ k < 4, b'.cxt.vflcxtblocks k = b.cxt.vflcxtblocks k) : b'.Valid pagesperblock := by
  have hblock : b'.block = b.block := by rw [Bank.block, Bank.block, ha, hl _ hv.active_lt]
  have hgroup : ∀ block k, b'.group pagesperblock block k = b.group pagesperblock block k := by
    intro block k
    rw [Bank.group, Bank.group, hflash]
  refine ⟨?_, ?_, ?_, ?_, ?_, ?_, ?_⟩
  · rw [ha]
    exact hv.active_lt
  · rw [ha, hl _ hv.active_lt]
    exact hv.listed
  · rw [hn]
    exact hv.next_le
  · simp only [hn, hblock, hgroup]
    exact hv.groups
  · rw [hn, hblock, hflash]
    exact hv.free
  · intro k hk hlisted j hj r hr hvfl hpos
    rw [hl k hk] at hlisted hr
    rw [hflash] at hr
    rw [hu]
    exact hv.above k hk hlisted j hj r hr hvfl hpos
  · obtain ⟨r, hr, hpos, hfirst⟩ := hv.first
    refine ⟨r, by rw [hgroup, hblock]; exact hr, hpos, fun k hk hlisted q hq hqpos => ?_⟩
    rw [hl k hk] at hlisted hq ⊢
    rw [hgroup] at hq
    rw [ha, hblock]
    exact hfirst k hk hlisted q hq hqpos

theorem Bank.Lists.congr {region : Nat → Prop} {list : Nat → BitVec 16} {b b' : Bank}
    (h : b.Lists region list) (hflash : b'.flash = b.flash)
    (hl : ∀ k < 4, b'.cxt.vflcxtblocks k = b.cxt.vflcxtblocks k) : b'.Lists region list :=
  ⟨fun k hk => by rw [hl k hk, h.cxt k hk], fun p hp => by rw [hflash]; exact h.copies p hp⟩

theorem bank_setBank_self {b : Bank} : (s.setBank i b).bank i = b := by
  simp [State.bank, State.setBank]

/-- A commit on a mounted bank leaves it mounted, with the last group holding the context. -/
theorem Device.Mounted.commit {luck : Luck} {o : Unit} (hm : d.Mounted bbt s i)
    (h : d.step s (.commit i luck) = some (t, o)) (hok : d.Allowed i s (.commit i luck)) :
    d.Mounted bbt t i ∧ (t.bank i).Holds d.pagesperblock := by
  obtain ⟨hpos, hdec⟩ := hok rfl t o h
  obtain ⟨b, hb, he⟩ := Option.map_eq_some_iff.1 h
  cases he
  have hbank : (s.setBank i b).bank i = b := bank_setBank_self
  have hcxt : (s.setBank i b).cxt i = b.cxt := congrArg Bank.cxt hbank
  rw [hcxt] at hpos hdec
  obtain ⟨hv, hh⟩ := commit_spec d.eight_le d.pagesperblock_lt hm.valid hb hpos hdec
  have hl := hm.lists.commit hb
  refine ⟨⟨by rw [hbank]; exact hv, ?_⟩, by rw [hbank]; exact hh⟩
  rw [hbank, hcxt]
  exact ⟨fun _ _ => rfl, fun p hp r hr hvfl k hk => by
    rw [hl.copies p hp r hr hvfl k hk, hl.cxt k hk]⟩

theorem Device.Mounted.other (hm : d.Mounted bbt s i) (hflash : t.flash i = s.flash i)
    (hcxt : t.cxt i = s.cxt i) : d.Mounted bbt t i := by
  have hc : (t.bank i).cxt = (s.bank i).cxt := hcxt
  have hl : (t.bank i).Lists (d.Searched bbt) (s.cxt i).vflcxtblocks :=
    hm.lists.congr hflash fun k _ => by rw [hc]
  exact ⟨hm.valid.congr hflash (by rw [hc]) (by rw [hc]) (by rw [hc]) fun k _ => by rw [hc],
    by rw [hcxt]; exact hl⟩

theorem Device.Mounted.step {a : Action} {o : Unit} (hm : d.Mounted bbt s i)
    (h : d.step s a = some (t, o)) (hok : d.Allowed i s a) : d.Mounted bbt t i := by
  by_cases ha : a.bank = i
  · cases a with
    | commit j luck =>
      obtain rfl : j = i := ha
      exact (hm.commit h hok).1
    | edit j cxt =>
      obtain rfl : j = i := ha
      obtain ⟨hu, hact, hn, hl⟩ := hok rfl
      cases h
      have hcxt : ({ s with cxt := Function.update s.cxt j cxt } : State).cxt j = cxt :=
        Function.update_self _ _ _
      refine ⟨hm.valid.congr rfl ?_ ?_ ?_ ?_, ?_⟩
      · exact (congrArg Cxt.updatecount hcxt).trans hu
      · exact (congrArg Cxt.activecxtblock hcxt).trans hact
      · exact (congrArg Cxt.nextcxtpage hcxt).trans hn
      · exact fun k hk => (congrArg (Cxt.vflcxtblocks · k) hcxt).trans (hl k hk)
      · rw [hcxt]
        exact ⟨fun k _ => congrArg (Cxt.vflcxtblocks · k) hcxt, fun p hp r hr hvfl k hk => by
          rw [hl k hk]; exact hm.lists.copies p hp r hr hvfl k hk⟩
  · obtain ⟨hflash, hcxt⟩ := step_other h ha
    exact hm.other hflash hcxt

/-- A bank stays mounted in a run. -/
theorem Runs.mounted {es : List (State × Action × Unit)} (hm : d.Mounted bbt s i)
    (h : Lts.Runs d.step (d.Allowed i) s es t) : d.Mounted bbt t i :=
  Lts.Runs.invariant (I := (d.Mounted bbt · i)) h hm fun _ _ _ _ hm hok hs =>
    Device.Mounted.step hm hs hok

/-- Actions on other banks leave a bank's flash and context alone. -/
theorem Runs.other {es : List (State × Action × Unit)}
    (h : Lts.Runs d.step (fun _ a => a.bank ≠ i) s es t) :
    t.flash i = s.flash i ∧ t.cxt i = s.cxt i := by
  induction h with
  | refl => exact ⟨rfl, rfl⟩
  | tail _ hok hs ih =>
    obtain ⟨hflash, hcxt⟩ := step_other hs hok
    exact ⟨hflash.trans ih.1, hcxt.trans ih.2⟩

end Runs

/-! ## A commit whose first store fails -/

section Small

/-- The context of a bank with the context blocks 1 and 2, of which the first is active. -/
def smallCxt : Cxt :=
  let c : Cxt := fun i => if i = 0x3d1 then 1 else if i = 0x3d2 then 2 else 0
  let c : Cxt := Function.update (Function.update c 0x3d3 0xFFFF) 0x3d4 0xFFFF
  ((c.setUsn 5).setUpdatecount 100).setNextcxtpage 8

def smallDevice : Device where
  banks := 1
  pagesperblock := 16
  eight_le := by decide
  eight_dvd := by decide
  pagesperblock_lt := by decide
  syshyperblocks := 2
  bbt := fun _ => some fun _ => 0xFF

def smallState : State where
  flash := fun _ p => if 16 ≤ p ∧ p < 24 then .page smallCxt (storeSpare smallCxt) else .erased
  cxt := fun _ => smallCxt
  usn := 5

/-- Of the copies in the active block only two are written; block 2 is erased in the second try. -/
def smallLuck : Luck where
  programs := fun i k => i == 1 || k < 3
  erases := fun _ j => j == 1
  survives := fun _ _ p => p % 2 == 0

theorem smallState_read {p : Nat} {r : Cxt × Spare} (h : (smallState.flash 0 p).read = some r) :
    16 ≤ p ∧ p < 24 ∧ r = (smallCxt, storeSpare smallCxt) := by
  simp only [smallState] at h
  split at h
  · rename_i hp
    exact ⟨hp.1, hp.2, (Option.some.inj h).symm⟩
  · cases h

theorem smallState_mounted : smallDevice.Mounted (fun _ => 0xFF) smallState 0 := by
  have hlist : ∀ i < 4, smallCxt.vflcxtblocks i ≠ 0xFFFF → i < 2 := by decide
  have hgroup : (ftlVflReadPage 16 (smallState.flash 0) 1 0).isSome = true := by decide
  obtain ⟨r, hr⟩ := Option.isSome_iff_exists.1 hgroup
  have hfirst : r = (smallCxt, storeSpare smallCxt) := by
    obtain ⟨_, _, hread, _⟩ := ftlVflReadPage_some hr
    exact (smallState_read hread).2.2
  refine ⟨⟨by decide, by decide, by decide, ⟨0, by decide, ?_⟩, ?_, ?_, ⟨r, hr, ?_, ?_⟩⟩,
    fun _ _ => rfl, ?_⟩
  · intro k hk
    obtain rfl := Nat.le_zero.1 hk
    exact hgroup
  · intro p hp hlt
    have hp : 8 ≤ p := hp
    exact if_neg fun h => absurd h.2 (by show ¬(1 * 16 + p < 24); omega)
  · intro i hi _ k hk q hq _ _
    obtain ⟨-, -, rfl⟩ := smallState_read hq
    exact BitVec.le_refl _
  · rw [hfirst]
    decide
  · intro i hi hlisted q hq hpos
    obtain ⟨k, hk, hread, -⟩ := ftlVflReadPage_some hq
    obtain ⟨-, hlt, rfl⟩ := smallState_read hread
    rw [hfirst]
    have hi2 := hlist i hi hlisted
    have hi0 : i = 0 := by
      by_contra hne
      obtain rfl : i = 1 := by omega
      have h2 : ((smallState.bank 0).cxt.vflcxtblocks 1).toNat = 2 := by decide
      have h16 : smallDevice.pagesperblock = 16 := rfl
      rw [h2, h16] at hlt
      omega
    exact .inr (.inl ⟨rfl, by rw [hi0]; exact Nat.zero_le _⟩)
  · intro p _ q hq _
    obtain ⟨-, -, rfl⟩ := smallState_read hq
    exact fun _ _ => rfl

end Small

end Freemyipod.Vfl
