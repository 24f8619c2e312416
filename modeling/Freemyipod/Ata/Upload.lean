import Freemyipod.Ata.Reload
import Freemyipod.Ata.Smooth

/-!
# Ata.Upload

Writing a bad block table from the host and reading it back: `ipodclassic_writebbt` and
`ipodclassic_readbbt` of `tools/libemcore.py`, with the driver on the other side.

* `accessRuns`: the loop of both, which accesses sectors that follow each other at once.
* `Carried`, `accessRuns_spec`: what it moves.
* `loadRuns_exact`: what the driver loads when every step goes well.
* `upload_iff`: exactly when the table comes back from all of them.
-/

namespace Freemyipod
namespace Ata

open Effect

/-- A file, by its blocks of 4096 bytes. -/
structure BbtFile where
  length : Nat
  block : Nat → Sector

variable (dev : Device)

/-- `ipodclassic_hddaccess` of the blocks from `pos` on of the memory at `tempaddr`; it raises if
the result is `false`. -/
def hddaccess (write : Bool) (sector count pos : Nat) : M Bool := do
  lock
  let rc ← ataRwSectorsInternal dev sector count .user pos write
  unlock
  pure (decide (rc.toNat ≤ 0x80000000))

/-- The loop over the list, with `n` turns left, and the call behind it. The file or the buffer has
been accessed up to the block `offset`. -/
def accessRuns (write : Bool) (header : Sector) : Nat → Nat → Nat → Nat → Nat → M Bool
  | 0, _, sector, count, offset => hddaccess dev write sector count offset
  | n + 1, i, sector, count, offset =>
    -- the tuple has no more fields
    if 0x200 ≤ i then pure false
    else if (header.entry i).toNat = sector + count then
      accessRuns write header n (i + 1) sector (count + 1) offset
    else do
      let ok ← hddaccess dev write sector count offset
      if ok then accessRuns write header n (i + 1) (header.entry i).toNat 1 (offset + count)
      else pure false

/-- What the file has to be before anything is written. -/
def BbtFile.consistent (bbt : BbtFile) : Bool :=
  (bbt.block 0).hasMagic && decide (((bbt.block 0).count + 1) * 4096 = bbt.length)

def writebbt (bbt : BbtFile) : M Bool :=
  if bbt.consistent then do
    let count := (bbt.block 0).count
    modify fun s =>
      { s with mem := Function.update s.mem .user (splice (s.mem .user) 0 (count + 1) bbt.block) }
    let ok ← accessRuns dev true (bbt.block 0) count 0 0 1 0
    if ok then do
      let _ ← ataBbtReload dev
      pure true
    else pure false
  else pure false

def readbbt : M (Option BbtFile) := do
  let ok ← hddaccess dev false 0 1 0
  if ok then do
    let s ← get
    let header := s.mem .user 0
    if header.hasMagic then do
      let ok ← accessRuns dev false header header.count 0 1 0 0
      let s ← get
      pure (if ok then some
        { length := (header.count + 1) * 4096
          block := fun k => if k = 0 then header else s.mem .user (k - 1) } else none)
    else pure none
  else pure none

/-- One after the other -/
def roundTrip (bbt : BbtFile) : M (Option BbtFile) := do
  let ok ← writebbt dev bbt
  if ok then readbbt dev else pure none

/-! ## What they are for -/

def BbtFile.Same (a b : BbtFile) : Prop :=
  a.length = b.length ∧ ∀ k, 4096 * k < b.length → a.block k = b.block k

/-- The driver has a table, and it is what the file has behind its header. -/
structure TableIs (bbt : BbtFile) (t : State) : Prop where
  installed : t.bbt = some ⟨true, listed (bbt.block 0)⟩
  length : 4096 * ((listed (bbt.block 0)).length + 1) = bbt.length
  page : ∀ i, 4096 * (i + 1) < bbt.length → t.mem .table i = bbt.block (i + 1)

/-- The entries of the list that are used are distinct sectors of the disk, none is the header's,
and the others are zero. The disk is what the driver and the disk itself take it for. -/
structure Regular (s : State) (h : Sector) : Prop where
  header : 0 < min s.totalSectors dev.totalSectors
  distinct : ∀ i < h.count, ∀ j < h.count, h.entry i = h.entry j → i = j
  nonzero : ∀ i < h.count, h.entry i ≠ 0
  inside : ∀ i < h.count, (h.entry i).toNat < min s.totalSectors dev.totalSectors
  unused : ∀ i, h.count ≤ i → i < 0x200 → h.entry i = 0

variable {dev} {write : Bool} {w : Nat → Nat} {lo mid hi sector count pos offset i n b : Nat}
  {s t u : State} {h : Sector} {bbt : BbtFile}

/-! ## The host -/

/-- The blocks of the memory from `lo` up to `hi`, each with its sector `w`, have been moved, and
nothing else. -/
structure Carried (dev : Device) (write : Bool) (w : Nat → Nat) (lo hi : Nat) (s t : State) :
    Prop where
  medium : write = false → t.medium = s.medium
  mem : ∀ p, write = true ∨ p ≠ .user → t.mem p = s.mem p
  outside : ∀ x, (∀ p, lo ≤ p → p < hi → dstOf write (w p) p ≠ x) →
    t.target .user write x = s.target .user write x
  inside : ∀ p, lo ≤ p → p < hi →
    t.target .user write (dstOf write (w p) p) = s.source .user write (srcOf write (w p) p)
  bbt : t.bbt = s.bbt
  totalSectors : t.totalSectors = s.totalSectors ∨ t.totalSectors = dev.totalSectors
  smooth : t.Smooth

theorem Carried.source_eq (h : Carried dev write w lo hi s t) :
    t.source .user write = s.source .user write := by
  cases hw : write with
  | true => exact h.mem .user (Or.inl hw)
  | false => exact h.medium hw

theorem Carried.trans (h : Carried dev write w lo mid s t) (h' : Carried dev write w mid hi t u)
    (hlo : lo ≤ mid) (hhi : mid ≤ hi)
    (hinj : ∀ p q, lo ≤ p → p < hi → lo ≤ q → q < hi → w p = w q → p = q) :
    Carried dev write w lo hi s u := by
  have hdst : ∀ p q, lo ≤ p → p < hi → lo ≤ q → q < hi →
      dstOf write (w p) p = dstOf write (w q) q → p = q := by
    intro p q hp hp' hq hq' heq
    cases write
    · exact heq
    · exact hinj p q hp hp' hq hq' heq
  refine ⟨fun hw => (h'.medium hw).trans (h.medium hw),
    fun p hp => (h'.mem p hp).trans (h.mem p hp), fun x hx => ?_, fun p hp hp' => ?_, h'.bbt.trans h.bbt, ?_, h'.smooth⟩
  · rw [h'.outside x fun p hp hp' => hx p (by omega) hp',
      h.outside x fun p hp hp' => hx p hp (by omega)]
  · obtain hlt | hge := Nat.lt_or_ge p mid
    · rw [h'.outside _ fun q hq hq' heq => ?_, h.inside p hp hlt]
      have := hdst q p (by omega) hq' hp hp' heq
      omega
    · rw [h'.inside p hge hp', h.source_eq]
  · obtain ht | ht := h'.totalSectors
    · rw [ht]
      exact h.totalSectors
    · exact Or.inr ht

theorem hddaccess_spec (hs : s.Smooth) (hdisk : sector + count ≤ s.totalSectors)
    (hw : ∀ j < count, w (pos + j) = sector + j) :
    Ends OutOfScript (hddaccess dev write sector count pos) s fun ok t =>
      ok = true ∧ Carried dev write w pos (pos + count) s t := by
  simp only [hddaccess, lock, ends_bind, ends_modify]
  have hspec := ataRwSectorsInternal_spec dev { s with held := s.held + 1 } sector count .user pos
    write
  have hworks : Ends (fun _ => True) (ataRwSectorsInternal dev sector count .user pos write)
      { s with held := s.held + 1 } fun rc t => rc = 0 ∧ t.Smooth :=
    ataRwSectorsInternal_works hs hdisk
  refine ((hspec.and hworks).faults ?_).mono ?_
  · rintro e (rfl | ⟨-, hroom⟩)
    · exact rfl
    · cases hroom
  rintro rc t ⟨⟨hmoved, -⟩, rfl, ht⟩
  have hheld := hmoved.kept.held
  rw [ends_unlock (by simp only at hheld; omega), ends_pure]
  have hcopied := hmoved.copied
  have hdst : ∀ p, pos ≤ p → p < pos + count →
      dstOf write (w p) p = dstOf write sector pos + (p - pos) ∧
        srcOf write (w p) p = srcOf write sector pos + (p - pos) := by
    intro p hp hp'
    have hwp := hw (p - pos) (by omega)
    rw [show pos + (p - pos) = p by omega] at hwp
    rw [hwp, ← dstOf_add, ← srcOf_add, show pos + (p - pos) = p by omega]
    exact ⟨rfl, rfl⟩
  refine ⟨by decide, hcopied.medium, hcopied.mem, fun x hx => hcopied.outside x ?_,
    fun p hp hp' => ?_, hmoved.kept.bbt, hmoved.kept.totalSectors, ht⟩
  · by_contra hin
    have hne := hx (pos + (x - dstOf write sector pos)) (by omega) (by omega)
    rw [(hdst _ (by omega) (by omega)).1] at hne
    omega
  · rw [(hdst p hp hp').1, (hdst p hp hp').2]
    exact hcopied.inside rfl (p - pos) (by omega)

/-- The run that is being collected is `count` sectors from `sector` on, for the blocks from
`offset` on. All blocks up to the end of the list are moved. -/
theorem accessRuns_spec (hs : s.Smooth) (hlen : i + n ≤ 0x200)
    (hdisk : sector + count ≤ min s.totalSectors dev.totalSectors)
    (hrun : ∀ j < count, w (offset + j) = sector + j) (hlink : offset + count = i + b)
    (hlist : ∀ k, i ≤ k → k < i + n → w (k + b) = (h.entry k).toNat)
    (hinside : ∀ k, i ≤ k → k < i + n → (h.entry k).toNat < min s.totalSectors dev.totalSectors)
    (hinj : ∀ p q, offset ≤ p → p < i + n + b → offset ≤ q → q < i + n + b → w p = w q → p = q) :
    Ends OutOfScript (accessRuns dev write h n i sector count offset) s fun ok t =>
      ok = true ∧ Carried dev write w offset (i + n + b) s t := by
  induction n generalizing i sector count offset s with
  | zero =>
    rw [Nat.add_zero, ← hlink]
    exact hddaccess_spec hs (by omega) hrun
  | succ n ih =>
    rw [accessRuns, if_neg (by omega)]
    have hentry := hlist i (Nat.le_refl _) (by omega)
    have hbound := hinside i (Nat.le_refl _) (by omega)
    refine ends_ite.2 ⟨fun heq => ?_, fun hne => ?_⟩
    · have hnext := @ih sector (count + 1) offset (i + 1) s hs (by omega)
        (by omega) ?_ (by omega) (fun k hk hk' => hlist k (by omega) (by omega))
        (fun k hk hk' => hinside k (by omega) (by omega))
        (fun p q hp hp' hq hq' => hinj p q hp (by omega) hq (by omega))
      · rwa [show i + 1 + n + b = i + (n + 1) + b by omega] at hnext
      · intro j hj
        obtain hlt | hge := Nat.lt_or_ge j count
        · exact hrun j hlt
        · rw [show offset + j = i + b by omega, hentry, heq]
          omega
    · rw [ends_bind]
      refine (hddaccess_spec hs (by omega) hrun).mono ?_
      rintro ok t ⟨rfl, ht⟩
      have hmin : min s.totalSectors dev.totalSectors ≤ min t.totalSectors dev.totalSectors := by
        have := ht.totalSectors
        omega
      rw [if_pos rfl]
      have hnext := @ih (h.entry i).toNat 1 (offset + count) (i + 1) t ht.smooth (by omega)
        (by omega) ?_ (by omega)
        (fun k hk hk' => hlist k (by omega) (by omega))
        (fun k hk hk' => (hinside k (by omega) (by omega)).trans_le hmin)
        (fun p q hp hp' hq hq' => hinj p q (by omega) (by omega) (by omega) (by omega))
      · rw [show i + 1 + n + b = i + (n + 1) + b by omega] at hnext
        refine hnext.mono ?_
        rintro ok u ⟨rfl, hu⟩
        exact ⟨rfl, ht.trans hu (by omega) (by omega) hinj⟩
      · intro j hj
        rw [show offset + count + j = i + b by omega, hentry]
        omega

/-- A list that is longer than the header has room for is not accepted. -/
theorem accessRuns_raises (hlong : 0x200 < i + n) (hi : i ≤ 0x200) :
    Ends (fun _ => True) (accessRuns dev write h n i sector count offset) s
      fun ok _ => ok = false := by
  induction n generalizing i sector count offset s with
  | zero => omega
  | succ n ih =>
    rw [accessRuns]
    refine ends_ite.2 ⟨fun _ => (ends_pure _).2 rfl, fun hlt => ?_⟩
    refine ends_ite.2 ⟨fun _ => ?_, fun _ => ?_⟩
    · exact ih (by omega) (by omega)
    · rw [ends_bind]
      have hany : Ends (fun _ => True) (hddaccess dev write sector count offset) s
          fun _ _ => True := ⟨fun _ _ _ => trivial, fun _ _ => trivial⟩
      refine hany.mono fun ok t _ => ends_ite.2 ⟨fun _ => ?_, fun _ => (ends_pure _).2 rfl⟩
      exact ih (by omega) (by omega)

theorem writebbt_raises (hlong : 0x200 < (bbt.block 0).count) :
    Ends (fun _ => True) (writebbt dev bbt) s fun ok _ => ok = false := by
  refine ends_ite.2 ⟨fun _ => ?_, fun _ => (ends_pure _).2 rfl⟩
  rw [ends_bind, ends_modify, ends_bind]
  refine (accessRuns_raises (by omega) (Nat.zero_le _)).mono ?_
  rintro ok t rfl
  exact (ends_pure _).2 rfl

/-! ## The driver -/

/-- The pages are on the disk, and none of them is in its first sector. -/
def Listed (dev : Device) (h : Sector) : Prop :=
  ∀ i < h.count, h.entry i ≠ 0 ∧ (h.entry i).toNat < dev.totalSectors

/-- A run inside of the list does not wrap around. -/
theorem Sector.Run.toNat (hr : h.Run i n) (hlist : Listed dev h) (hle : i + n ≤ h.count) {j : Nat}
    (hj : j < n) : (h.entry (i + j)).toNat = (h.entry i).toNat + j := by
  induction j with
  | zero => rfl
  | succ j ih =>
    have hnext := hr.next hj
    have hne := (hlist (i + (j + 1)) (by omega)).1
    have hlast := ih (by omega)
    rw [← Nat.add_assoc] at hne ⊢
    rw [hnext] at hne ⊢
    have hone : (1 : BitVec 32).toNat = 1 := rfl
    have hnot : (h.entry (i + j) + 1).toNat ≠ 0 := fun h0 => hne (BitVec.eq_of_toNat_eq h0)
    rw [BitVec.toNat_add, hone] at hnot ⊢
    omega

/-- When every step goes well each page is loaded from the sector in its entry. -/
theorem loadRuns_exact (hl : Loading dev h i s) (hs : s.Smooth) (hfits : Fits h)
    (hlist : Listed dev h) (hexact : ∀ j < i, s.mem .table j = s.medium (h.entry j).toNat)
    (hn : h.count ≤ n + i) :
    Ends OutOfScript (loadRuns dev h.count n i) s fun _ t =>
      (Loading dev h h.count t ∧ t.Smooth) ∧ t.medium = s.medium ∧ s.held ≤ t.held ∧
        ∀ j < h.count, t.mem .table j = s.medium (h.entry j).toNat := by
  have hcount := hfits.count_le
  induction n generalizing i s with
  | zero =>
    have hle := hl.starts.le
    obtain rfl : i = h.count := by omega
    rw [loadRuns, ends_pure]
    exact ⟨⟨hl, hs⟩, rfl, Nat.le_refl _, hexact⟩
  | succ n ih =>
    refine ends_ite.2 ⟨fun hlt => ?_, fun hge => ?_⟩
    · simp only [ends_bind]
      refine ((headerWord_spec (by omega)).faults ?_).mono ?_
      · rintro e ⟨rfl, hge⟩
        omega
      rintro p t ⟨rfl, hk, rfl⟩
      rw [hl.header, show 0x200 + i - 0x200 = i by omega]
      refine ((runLength_spec hl.header (by omega) (by decide) (h.run_one i) (by omega)
        (by omega)).faults ?_).mono ?_
      · rintro e ⟨rfl, c, hc, hge, hr⟩
        have hlt' := (hl.starts.ends (by omega) hlt hfits).1
        exact absurd hfits (hl.starts.not_fits (by omega) hlt hr (by omega))
      rintro c u ⟨rfl, hc⟩
      -- the run ends with the list at the latest
      have hend : i + c ≤ h.count := by
        by_contra hover
        have hle := hc.le_count
        exact hl.starts.not_fits (by omega) hlt hc.run (by omega) hfits
      have hpos := hc.pos
      have hrun : ∀ j < c, (h.entry (i + j)).toNat = (h.entry i).toNat + j := fun j hj =>
        hc.run.toNat hlist hend hj
      have hdisk : (h.entry i).toNat + c ≤ dev.totalSectors := by
        have hlast := (hlist (i + (c - 1)) (by omega)).2
        rw [hrun (c - 1) (by omega)] at hlast
        omega
      have hread : Ends (fun _ => True) (ataBbtReadSectors dev (h.entry i).toNat c .table i) u
          fun rc t => rc = 0 ∧ t.Smooth := ataBbtReadSectors_works hs hl.totalSectors hdisk
      refine (((ataBbtReadSectors_spec dev _ _ _ _ hl.totalSectors).and hread).faults ?_).mono ?_
      · rintro e (rfl | ⟨rfl, hroom⟩)
        · exact rfl
        · have hover : ¬ i + c ≤ h.count % 2 ^ 20 := by
            rw [← hl.room, hroom]
            decide
          omega
      rintro rc v ⟨hf, rfl, hv⟩
      rw [if_neg (by decide)]
      have hmedium : v.medium = u.medium := hf.copied.medium rfl
      have hnext : ∀ j < i + c, v.mem .table j = v.medium (h.entry j).toNat := by
        intro j hj
        rw [hmedium]
        obtain hold | hnew := Nat.lt_or_ge j i
        · have hout : v.mem .table j = u.mem .table j := hf.copied.outside j (Or.inl hold)
          rw [hout, hexact j hold]
        · have hin := hf.copied.inside rfl (j - i) (by omega)
          have hsector := hrun (j - i) (by omega)
          rw [show i + (j - i) = j by omega] at hin hsector
          rw [hsector]
          exact hin
      refine (ih (hl.next hc hf rfl) hv hnext (by omega)).mono ?_
      rintro _ x ⟨hx, hxmedium, hheld, hall⟩
      refine ⟨hx, hxmedium.trans hmedium, hf.held.trans hheld, fun j hj => ?_⟩
      rw [hall j hj, hmedium]
    · have hle := hl.starts.le
      obtain rfl : i = h.count := by omega
      rw [ends_pure]
      exact ⟨⟨hl, hs⟩, rfl, Nat.le_refl _, hexact⟩

/-- What a reload leaves of a header that lists pages: the table, or one that was freed. -/
def Reloaded (dev : Device) (h : Sector) (s t : State) : Prop :=
  Fits h ∧ t.Smooth ∧ t.bbt = some ⟨true, listed h⟩ ∧ t.medium = s.medium ∧
      t.totalSectors = dev.totalSectors ∧
      (∀ j < h.count, t.mem .table j = s.medium (h.entry j).toNat) ∨
    ¬ Fits h ∧ t.bbt = some ⟨false, listed h⟩

theorem loadTable_smooth (hs : s.Smooth) (hh : s.mem .header 0 = h)
    (hsize : s.totalSectors = dev.totalSectors) (hlist : Listed dev h) :
    Ends (fun e => e = .mismatch ∨ e = .fault ∧ ¬ Fits h) (loadTable dev) s fun _ t =>
      s.held ≤ t.held ∧ Reloaded dev h s t := by
  simp only [loadTable, ends_bind, ends_get, ends_modify, hh]
  have hask : ∀ (step : Step) (v : Nat), Ends (fun _ => True) (ask step)
      { s with virtualSectors := v } fun a t => a.ok = true ∧ t.Smooth := fun step v =>
    ask_smooth step hs
  refine (((ask_spec _ _).and (hask _ _)).faults fun e he => Or.inl he).mono ?_
  rintro a t ⟨⟨-, ht⟩, hok, hsmooth⟩
  rw [if_pos hok, ends_bind, ends_modify]
  generalize hu : ({ t with bbt := _, mem := _ } : State) = u
  have hload : Loading dev h 0 u := by
    subst hu
    rw [ht]
    refine ⟨rfl, ?_, hsize, rfl, ⟨Nat.zero_le _, Nat.zero_le _, Or.inl rfl⟩,
      fun j hj => absurd hj (Nat.not_lt_zero j)⟩
    simpa using hh
  have hmedium : u.medium = s.medium := by rw [← hu, ht]
  have hheld : u.held = s.held := by rw [← hu, ht]
  have hsmooth' : u.Smooth := by
    rw [← hu]
    exact hsmooth
  by_cases hfits : Fits h
  · refine ((loadRuns_exact hload hsmooth' hfits hlist (fun j hj => absurd hj (Nat.not_lt_zero j))
      (Nat.le_add_right _ _)).faults fun e he => Or.inl he).mono ?_
    rintro _ v ⟨⟨hv, hvs⟩, hvm, hvheld, hall⟩
    refine ⟨hheld.symm.le.trans hvheld, Or.inl ⟨hfits, hvs, hv.bbt, hvm.trans hmedium,
      hv.totalSectors, fun j hj => ?_⟩⟩
    rw [hall j hj, hmedium]
  · refine (loadRuns_spec hload (Nat.le_add_right _ _)).mono ?_
    rintro _ v ⟨-, hvheld, hcases⟩
    refine ⟨hheld.symm.le.trans hvheld, Or.inr ⟨hfits, ?_⟩⟩
    obtain ⟨hv, -⟩ | hv := hcases
    · exact absurd hv.starts.fits hfits
    · exact hv.bbt

/-- A reload in which every step goes well, of a disk with a header. -/
theorem ataBbtReload_smooth (hs : s.Smooth) (hmagic : (s.medium 0).hasMagic = true)
    (hdisk : 0 < dev.totalSectors) (hlist : Listed dev (s.medium 0)) :
    Ends (fun e => e = .mismatch ∨ e = .fault ∧ ¬ (s.bbt.all (·.live) = true ∧ Fits (s.medium 0)))
      (ataBbtReload dev) s fun _ t =>
        s.bbt.all (·.live) = true ∧ Reloaded dev (s.medium 0) s t := by
  simp only [ataBbtReload, lock, ends_bind, ends_modify, passRc]
  refine ((ataBbtDisable_spec _).faults ?_).mono ?_
  · rintro e ⟨rfl, hdead⟩
    refine Or.inr ⟨rfl, fun hgood => ?_⟩
    rw [hgood.1] at hdead
    cases hdead
  rintro _ t ⟨hlive, ht⟩
  have hts : t.Smooth := by
    rw [ht]
    exact hs
  have htmedium : t.medium = s.medium := by rw [ht]
  have htheld : s.held < t.held := by
    rw [ht]
    exact Nat.lt_succ_self _
  clear ht
  refine ((((silent_ataPowerUp dev (by decide)).ends t (Nat.zero_le _)).and
    ((sizes_ataPowerUp .bbtPowerUp t).and (works_ataPowerUp _ t hts))).faults
    fun e he => Or.inl he).mono ?_
  rintro rc u ⟨hu, hsize, rfl, hus⟩
  rw [if_neg (by decide)] at hsize ⊢
  simp only [ends_bind]
  refine (((ask_spec _ u).and (ask_smooth _ hus)).faults fun e he => Or.inl he).mono ?_
  rintro a v ⟨⟨-, hv⟩, hok, hvs⟩
  rw [if_pos hok, ends_bind, ends_modify, ends_bind]
  have hvsize : v.totalSectors = dev.totalSectors := by rw [hv, hsize]
  have hvmedium : v.medium = s.medium := by rw [hv, hu.medium, htmedium]
  have hvheld : s.held < v.held := by
    have := hu.held
    rw [hv]
    simp only at this ⊢
    omega
  clear hv
  generalize hw : ({ v with mem := _ } : State) = w
  have hws : w.Smooth := by
    rw [← hw]
    exact hvs
  have hwsize : w.totalSectors = dev.totalSectors := by rw [← hw, hvsize]
  have hread : Ends (fun _ => True) (ataBbtReadSectors dev 0 1 .header 0) w fun rc t =>
      rc = 0 ∧ t.Smooth := ataBbtReadSectors_works hws hwsize (by omega)
  refine (((ataBbtReadSectors_spec dev 0 1 .header 0 hwsize).and hread).faults ?_).mono ?_
  · rintro e (rfl | ⟨-, hroom⟩)
    · exact Or.inl rfl
    · cases hroom
  rintro rc x ⟨hx, rfl, hxs⟩
  have hxmedium : x.medium = s.medium := by
    rw [hx.copied.medium rfl, ← hw]
    exact hvmedium
  have hxheld : s.held < x.held := by
    have hheld := hx.held
    rw [← hw] at hheld
    exact hvheld.trans_le hheld
  have hheader : x.mem .header 0 = s.medium 0 := by
    have hin := hx.copied.inside rfl 0 (by decide)
    rw [← hvmedium]
    rw [← hw] at hin
    exact hin
  rw [ends_bind, ends_get, if_neg (by decide), if_pos (by rw [hheader]; exact hmagic), ends_bind]
  have hset : Works (if dev.writeCache then perform (.setFeature .bbtReload 0x02 0) else pure 0) :=
    .ite (works_perform _) works_zero
  have hkept : Ends OutOfScript
      (if dev.writeCache then perform (.setFeature .bbtReload 0x02 0) else pure 0) x fun _ y =>
        y = { x with script := y.script } := by
    refine ends_ite.2 ⟨fun _ => ?_, fun _ => (ends_pure _).2 rfl⟩
    simp only [perform, ends_bind, ends_pure]
    exact (ask_spec _ _).mono fun _ _ hy => hy.2
  refine ((hkept.and (hset x hxs)).faults fun e he => Or.inl he).mono ?_
  rintro rc y ⟨hy, rfl, hys⟩
  rw [if_neg (by decide), ends_bind]
  have hysize : y.totalSectors = dev.totalSectors := by
    rw [hy]
    exact hx.totalSectors
  refine ((loadTable_smooth hys (h := s.medium 0) ?_ hysize hlist).faults ?_).mono ?_
  · rw [hy]
    exact hheader
  · rintro e (rfl | ⟨rfl, hfits⟩)
    · exact Or.inl rfl
    · exact Or.inr ⟨rfl, fun hgood => hfits hgood.2⟩
  rintro _ z ⟨hheld, hz⟩
  have hyheld : y.held = x.held := by rw [hy]
  have hymedium : y.medium = s.medium := by
    rw [hy]
    exact hxmedium
  rw [ends_bind, ends_unlock (by omega), ends_pure]
  refine ⟨hlive, ?_⟩
  unfold Reloaded at hz ⊢
  rw [hymedium] at hz
  exact hz

/-! ## Both together -/

/-- The sector for the block `p` of the file -/
def Sector.home (h : Sector) (p : Nat) : Nat := if p = 0 then 0 else (h.entry (p - 1)).toNat

theorem Regular.listed (hreg : Regular dev s h) : Listed dev h := fun i hi =>
  ⟨hreg.nonzero i hi, (hreg.inside i hi).trans_le (Nat.min_le_right _ _)⟩

theorem Regular.home_inj (hreg : Regular dev s h) {p q : Nat} (hp : p < h.count + 1)
    (hq : q < h.count + 1) (heq : h.home p = h.home q) : p = q := by
  have hzero : ∀ i < h.count, (h.entry i).toNat ≠ 0 := fun i hi h0 =>
    hreg.nonzero i hi (BitVec.eq_of_toNat_eq h0)
  unfold Sector.home at heq
  cases p with
  | zero =>
    cases q with
    | zero => rfl
    | succ q => exact absurd heq.symm (hzero q (by omega))
  | succ p =>
    cases q with
    | zero => exact absurd heq (hzero p (by omega))
    | succ q =>
      rw [hreg.distinct p (by omega) q (by omega) (BitVec.eq_of_toNat_eq heq)]

/-- What is on the disk and in the driver after the file has been written. -/
structure Uploaded (dev : Device) (bbt : BbtFile) (t : State) : Prop where
  smooth : t.Smooth
  totalSectors : t.totalSectors = dev.totalSectors
  table : TableIs bbt t
  medium : ∀ p < (bbt.block 0).count + 1, t.medium ((bbt.block 0).home p) = bbt.block p

theorem writebbt_spec (hs : s.Smooth) (hbbt : bbt.consistent = true)
    (hcount : (bbt.block 0).count ≤ 0x200) (hreg : Regular dev s (bbt.block 0)) :
    Ends (fun e => e = .mismatch ∨
        e = .fault ∧ ¬ (s.bbt.all (·.live) = true ∧ Fits (bbt.block 0)))
      (writebbt dev bbt) s fun ok t => ok = true ∧ s.bbt.all (·.live) = true ∧
        (Fits (bbt.block 0) ∧ Uploaded dev bbt t ∨
          ¬ Fits (bbt.block 0) ∧ t.bbt = some ⟨false, Ata.listed (bbt.block 0)⟩) := by
  generalize hh : bbt.block 0 = h at hcount hreg ⊢
  obtain ⟨hmagic, hlength⟩ : h.hasMagic = true ∧ (h.count + 1) * 4096 = bbt.length := by
    rw [BbtFile.consistent, hh] at hbbt
    simpa using hbbt
  simp only [writebbt, hh]
  rw [if_pos hbbt, ends_bind, ends_modify, ends_bind]
  generalize hv : ({ s with mem := _ } : State) = v
  have hvs : v.Smooth := by
    rw [← hv]
    exact hs
  have hvbbt : v.bbt = s.bbt := by rw [← hv]
  have hvtotal : v.totalSectors = s.totalSectors := by rw [← hv]
  have hvmem : ∀ p < h.count + 1, v.mem .user p = bbt.block p := by
    intro p hp
    rw [← hv]
    simp only [Function.update_self, splice]
    rw [if_pos ⟨Nat.zero_le _, by omega⟩]
  have hheader := hreg.header
  have hruns := @accessRuns_spec dev true h.home 0 1 0 0 h.count 1 v h hvs (by omega)
    (by rw [hvtotal]; omega) (fun j hj => by
      obtain rfl : j = 0 := by omega
      rfl) rfl (fun k _ _ => rfl) (fun k _ hk => by
      rw [hvtotal]
      exact hreg.inside k (by omega)) fun p q _ hp _ hq heq =>
        hreg.home_inj (by omega) (by omega) heq
  refine (hruns.faults fun e he => Or.inl he).mono ?_
  rintro ok t ⟨rfl, ht⟩
  rw [if_pos rfl, ends_bind]
  have hmedium : ∀ p < h.count + 1, t.medium (h.home p) = bbt.block p := by
    intro p hp
    rw [← hvmem p hp]
    exact ht.inside p (Nat.zero_le _) (by omega)
  have hfirst : t.medium 0 = h := (hmedium 0 (Nat.succ_pos _)).trans hh
  have hreload := @ataBbtReload_smooth dev t ht.smooth (by rw [hfirst]; exact hmagic) (by omega)
    (by rw [hfirst]; exact hreg.listed)
  rw [hfirst, ht.bbt, hvbbt] at hreload
  refine hreload.mono ?_
  rintro _ u ⟨hlive, hu⟩
  rw [ends_pure]
  refine ⟨rfl, hlive, ?_⟩
  obtain ⟨hfits, hus, hubbt, humedium, husize, hpages⟩ | hdead := hu
  · refine Or.inl ⟨hfits, hus, husize, ⟨?_, ?_, ?_⟩, ?_⟩
    · rw [hubbt, hh]
    · rw [hh, length_listed, Nat.mod_eq_of_lt (by omega), Nat.mul_comm]
      exact hlength
    · intro i hi
      have hi' : i < h.count := by omega
      rw [hpages i hi']
      exact hmedium (i + 1) (by omega)
    · rw [hh, humedium]
      exact hmedium
  · exact Or.inr hdead

theorem readbbt_spec (hbbt : bbt.consistent = true) (hcount : (bbt.block 0).count ≤ 0x200)
    (hreg : Regular dev s (bbt.block 0)) (ht : Uploaded dev bbt t) :
    Ends OutOfScript (readbbt dev) t fun r _ => ∃ bs, r = some bs ∧ bs.Same bbt := by
  have hmedium := ht.medium
  have htotal := ht.totalSectors
  have hheader := hreg.header
  generalize hh : bbt.block 0 = h at hcount hreg hmedium
  obtain ⟨hmagic, hlength⟩ : h.hasMagic = true ∧ (h.count + 1) * 4096 = bbt.length := by
    rw [BbtFile.consistent, hh] at hbbt
    simpa using hbbt
  simp only [readbbt, ends_bind]
  have hfirst := @hddaccess_spec dev false (fun p => p) 0 1 0 t ht.smooth (by omega) fun j _ => rfl
  refine hfirst.mono ?_
  rintro ok u ⟨rfl, hu⟩
  have huser : u.mem .user 0 = h := by
    have hin := hu.inside 0 (Nat.zero_le _) (by omega)
    exact hin.trans ((hmedium 0 (Nat.succ_pos _)).trans hh)
  have humedium : u.medium = t.medium := hu.medium rfl
  have hutotal : u.totalSectors = dev.totalSectors := by
    have := hu.totalSectors
    omega
  simp only [if_true, ends_bind, ends_get, huser, hmagic]
  have hruns := @accessRuns_spec dev false (fun p => (h.entry p).toNat) 1 0 0 0 h.count 0 u h
    hu.smooth (by omega) (by omega) (fun j hj => absurd hj (Nat.not_lt_zero j)) rfl
    (fun k _ _ => rfl) (fun k _ hk => by
      have := hreg.inside k (by omega)
      omega) fun p q _ hp _ hq heq =>
        hreg.distinct p (by omega) q (by omega) (BitVec.eq_of_toNat_eq heq)
  refine hruns.mono ?_
  rintro ok v ⟨rfl, hv⟩
  rw [ends_pure]
  refine ⟨_, if_pos rfl, hlength, fun k hk => ?_⟩
  cases k with
  | zero => exact hh.symm
  | succ k =>
    have hin : v.mem .user k = u.medium (h.entry k).toNat := hv.inside k (Nat.zero_le _) (by omega)
    have hblock := hmedium (k + 1) (by omega)
    simp only [Nat.succ_ne_zero, if_false, Nat.add_sub_cancel]
    rw [hin, humedium]
    exact hblock

/-- The file of a list in order is written without an error of the device: the driver has it as its
table and it can be read back, exactly when the driver's table was not left freed before, and the
pages are one run or the word behind the last one does not go on with its run. A file with a list of
more than 512 entries is refused (`writebbt_raises`). -/
theorem upload_iff (dev : Device) (s : State) (bbt : BbtFile) (hbbt : bbt.consistent = true)
    (hcount : (bbt.block 0).count ≤ 0x200) (hreg : Regular dev s (bbt.block 0)) (hs : s.Smooth)
    (hplayed : (roundTrip dev bbt).run s ≠ .error .mismatch) :
    (∃ t, (writebbt dev bbt).run s = .ok (true, t) ∧ TableIs bbt t ∧
      ∃ bs u, (readbbt dev).run t = .ok (some bs, u) ∧ bs.Same bbt) ↔
      s.bbt.all (·.live) = true ∧ Fits (bbt.block 0) := by
  have hspec := writebbt_spec hs hbbt hcount hreg
  constructor
  · rintro ⟨t, hrun, htable, -⟩
    obtain ⟨-, hlive, ⟨hfits, -⟩ | ⟨-, hdead⟩⟩ := hspec.ok hrun
    · exact ⟨hlive, hfits⟩
    · rw [htable.installed] at hdead
      cases hdead
  · rintro hgood
    have htrip : (roundTrip dev bbt).run s = (writebbt dev bbt).run s >>= fun r =>
        (if r.1 then readbbt dev else pure none).run r.2 := rfl
    rw [htrip] at hplayed
    cases hrun : (writebbt dev bbt).run s with
    | error e =>
      rw [hrun] at hplayed
      obtain rfl | ⟨-, hbad⟩ := hspec.error hrun
      · exact absurd rfl hplayed
      · exact absurd hgood hbad
    | ok r =>
      obtain ⟨ok, t⟩ := r
      obtain ⟨rfl, -, ⟨-, ht⟩ | ⟨hnot, -⟩⟩ := hspec.ok hrun
      · refine ⟨t, rfl, ht.table, ?_⟩
        have hread := readbbt_spec hbbt hcount hreg ht
        rw [hrun] at hplayed
        cases hrun' : (readbbt dev).run t with
        | error e =>
          have he : e = .mismatch := hread.error hrun'
          rw [he] at hrun'
          exact absurd hrun' hplayed
        | ok r =>
          obtain ⟨r, u⟩ := r
          obtain ⟨bs, rfl, hsame⟩ := hread.ok hrun'
          exact ⟨bs, u, rfl, hsame⟩
      · exact absurd hgood.2 hnot

/-- A driver that is up, and a disk of 1024 sectors -/
def disk : Device := { pata with totalSectors := 1024 }

def up (script : List Entry) : State :=
  { fresh script with powered := true, lba48 := true, dma := true, totalSectors := 1024 }

/-- A table of `count` pages, of which the page `i` is in the sector `entry i`. -/
def tableOf (count : Nat) (entry : Nat → BitVec 16) : BbtFile where
  length := (count + 1) * 4096
  block := fun k j =>
    if k ≠ 0 then 7
    else if j = 0 then 0x6d65
    else if j = 1 then 0x4942
    else if j = 2 then 0x6262
    else if j = 3 then 0x6874
    else if j = 0x3fe then BitVec.ofNat 16 count
    else if 0x400 ≤ j ∧ j % 2 = 0 ∧ (j - 0x400) / 2 < count then entry ((j - 0x400) / 2)
    else 0

theorem tableOf_entry (count : Nat) (entry : Nat → BitVec 16) (i : Nat) :
    ((tableOf count entry).block 0).entry i =
      if i < count then 0#16 ++ entry i else 0 := by
  have hodd : (tableOf count entry).block 0 (2 * (0x200 + i) + 1) = 0 := by
    simp only [tableOf]
    rw [if_neg (by simp), if_neg (by omega), if_neg (by omega), if_neg (by omega),
      if_neg (by omega), if_neg (by omega), if_neg (by omega)]
  have heven : (tableOf count entry).block 0 (2 * (0x200 + i)) =
      if i < count then entry i else 0 := by
    simp only [tableOf]
    rw [if_neg (by simp), if_neg (by omega), if_neg (by omega), if_neg (by omega),
      if_neg (by omega), if_neg (by omega), show (2 * (0x200 + i) - 0x400) / 2 = i by omega]
    by_cases hi : i < count
    · rw [if_pos ⟨by omega, by omega, hi⟩, if_pos hi]
    · rw [if_neg (fun h => hi h.2.2), if_neg hi]
  rw [Sector.entry, Sector.word, hodd, heven]
  split <;> rfl

theorem tableOf_regular {count : Nat} {entry : Nat → BitVec 16} {script : List Entry}
    (hcount : ((tableOf count entry).block 0).count = count)
    (hinj : ∀ i < count, ∀ j < count, entry i = entry j → i = j)
    (hbound : ∀ i < count, 0 < (entry i).toNat ∧ (entry i).toNat < 1024) :
    Regular disk (up script) ((tableOf count entry).block 0) := by
  have hvalue : ∀ i < count, (((tableOf count entry).block 0).entry i).toNat = (entry i).toNat := by
    intro i hi
    rw [tableOf_entry, if_pos hi, BitVec.toNat_append]
    simp
  refine ⟨(by decide : 0 < min 1024 1024), ?_, ?_, ?_, ?_⟩
  · rw [hcount]
    intro i hi j hj heq
    refine hinj i hi j hj (BitVec.eq_of_toNat_eq ?_)
    rw [← hvalue i hi, ← hvalue j hj, heq]
  · rw [hcount]
    intro i hi h0
    have hpos := (hbound i hi).1
    rw [← hvalue i hi, h0] at hpos
    exact absurd hpos (by decide)
  · rw [hcount]
    intro i hi
    rw [hvalue i hi]
    exact (hbound i hi).2
  · rw [hcount]
    intro i hi _
    rw [tableOf_entry, if_neg (by omega)]

/-- Why a program has no result -/
def exit {α : Type} : Except Exit α → Option Exit
  | .ok _ => none
  | .error e => some e

/-- Two pages in different places -/
def scattered (i : Nat) : BitVec 16 := BitVec.ofNat 16 (3 * i + 3)

/-- How they are written, loaded and read back -/
def scatteredScript : List Entry :=
  [⟨.rwChunk 0 1 true, { ok := true }⟩, ⟨.rwChunk 3 1 true, { ok := true }⟩,
    ⟨.rwChunk 6 1 true, { ok := true }⟩, ⟨.identify .bbtPowerUp, { ok := true }⟩,
    ⟨.setFeature .bbtPowerUp 0x03 0x44, { ok := true }⟩,
    ⟨.memalign .header 0x1000, { ok := true }⟩, ⟨.rwChunk 0 1 false, { ok := true }⟩,
    ⟨.memalign .table 0x2000, { ok := true }⟩, ⟨.rwChunk 3 1 false, { ok := true }⟩,
    ⟨.rwChunk 6 1 false, { ok := true }⟩, ⟨.rwChunk 0 1 false, { ok := true }⟩,
    ⟨.rwChunk 3 1 false, { ok := true }⟩, ⟨.rwChunk 6 1 false, { ok := true }⟩]

theorem upload_scattered : ∃ t, (writebbt disk (tableOf 2 scattered)).run (up scatteredScript) =
    .ok (true, t) ∧ TableIs (tableOf 2 scattered) t ∧
      ∃ bs u, (readbbt disk).run t = .ok (some bs, u) ∧ bs.Same (tableOf 2 scattered) := by
  have hcount : ((tableOf 2 scattered).block 0).count = 2 := by decide +kernel
  have hrun : exit ((roundTrip disk (tableOf 2 scattered)).run (up scatteredScript)) = none := by
    decide +kernel
  refine (upload_iff disk (up scatteredScript) (tableOf 2 scattered) (by decide +kernel)
    (by rw [hcount]; decide) (tableOf_regular hcount (by decide) (by decide)) ?_ ?_).2 ⟨rfl, ?_⟩
  · intro e he
    simp only [up, fresh, scatteredScript, List.mem_cons, List.not_mem_nil, or_false] at he
    rcases he with rfl | rfl | rfl | rfl | rfl | rfl | rfl | rfl | rfl | rfl | rfl | rfl | rfl
    all_goals rfl
  · intro hmismatch
    rw [hmismatch] at hrun
    cases hrun
  · refine ⟨by rw [hcount]; decide, Or.inr ?_⟩
    rw [hcount, tableOf_entry, tableOf_entry]
    exact ⟨by decide, by decide⟩

/-- 512 pages, of which only the last one is in another place -/
def gap (i : Nat) : BitVec 16 := BitVec.ofNat 16 (if i < 511 then i + 1 else 513)

def gapScript : List Entry :=
  [⟨.rwChunk 0 512 true, { ok := true }⟩, ⟨.rwChunk 513 1 true, { ok := true }⟩,
    ⟨.identify .bbtPowerUp, { ok := true }⟩, ⟨.setFeature .bbtPowerUp 0x03 0x44, { ok := true }⟩,
    ⟨.memalign .header 0x1000, { ok := true }⟩, ⟨.rwChunk 0 1 false, { ok := true }⟩,
    ⟨.memalign .table 0x200000, { ok := true }⟩, ⟨.rwChunk 1 511 false, { ok := true }⟩]

/-- The loop looks for the next page of the last run behind the header. -/
theorem reads_behind_the_header : ¬ ∀ (dev : Device) (s : State) (bbt : BbtFile),
    bbt.consistent = true → (bbt.block 0).count ≤ 0x200 → Regular dev s (bbt.block 0) →
    s.Smooth → (roundTrip dev bbt).run s ≠ .error .mismatch →
      ∃ t, (writebbt dev bbt).run s = .ok (true, t) ∧ TableIs bbt t ∧
        ∃ bs u, (readbbt dev).run t = .ok (some bs, u) ∧ bs.Same bbt := by
  intro hall
  have hcount : ((tableOf 512 gap).block 0).count = 512 := by decide +kernel
  have hrun : exit ((writebbt disk (tableOf 512 gap)).run (up gapScript)) = some .fault := by
    decide +kernel
  have htrip : exit ((roundTrip disk (tableOf 512 gap)).run (up gapScript)) = some .fault := by
    decide +kernel
  have hvalue : ∀ i < 512, (gap i).toNat = if i < 511 then i + 1 else 513 := by
    intro i hi
    rw [gap, BitVec.toNat_ofNat]
    split <;> omega
  have hinj : ∀ i < 512, ∀ j < 512, gap i = gap j → i = j := by
    intro i hi j hj heq
    have hsame := congrArg BitVec.toNat heq
    rw [hvalue i hi, hvalue j hj] at hsame
    split at hsame <;> split at hsame <;> omega
  have hbound : ∀ i < 512, 0 < (gap i).toNat ∧ (gap i).toNat < 1024 := by
    intro i hi
    rw [hvalue i hi]
    split <;> omega
  have hsmooth : (up gapScript).Smooth := by
    intro e he
    simp only [up, fresh, gapScript, List.mem_cons, List.not_mem_nil, or_false] at he
    rcases he with rfl | rfl | rfl | rfl | rfl | rfl | rfl | rfl
    all_goals rfl
  have hplayed : (roundTrip disk (tableOf 512 gap)).run (up gapScript) ≠ .error .mismatch := by
    intro hmismatch
    rw [hmismatch] at htrip
    cases htrip
  obtain ⟨t, ht, -⟩ := hall disk (up gapScript) (tableOf 512 gap) (by decide +kernel)
    (by rw [hcount]) (tableOf_regular hcount hinj hbound) hsmooth hplayed
  rw [ht] at hrun
  cases hrun

end Ata
end Freemyipod
