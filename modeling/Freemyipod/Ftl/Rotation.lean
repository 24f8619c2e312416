import Freemyipod.Ftl.Control

/-!
# Ftl.Rotation

`ftl_next_ctrl_pool_page` where its steps may go wrong.

* `Fates`: what becomes of the erase, of each page of erase counters written, and of the commit.
* `Spoilt`: the first page moved that does not read back.
* `Undone`: what the code makes of that.
* `rotation_iff`: a failed call leaves the control blocks, the control page and the pool as they
  were exactly if that page's number is the number of the control block given up, and the block and
  the page before the call are such that `oldblock * (ppb + 1) - 1` is that page.
-/

namespace Freemyipod
namespace Ftl

open Effect

variable {α : Type} {d : Device} {s t u : State α} {hand : Multiset Nat} {old b i j : Nat}

namespace Rotation

/-! ## Steps that may fail -/

/-- `ftl_save_erasectr_page` does not take what it reads back for what it wrote. -/
def Rejected (written : Page α) (r : Nat × Payload α × Spare) : Prop :=
  r.1 &&& 0x11F ≠ 0 ∨ r.2.1 ≠ written.data ∨ r.2.2.type ≠ written.spare.type ∨
    r.2.2.idx ≠ written.spare.idx ∨ r.2.2.metaUsn ≠ written.spare.metaUsn

/-- A return code, data and spare bytes read back that are not what was written. -/
structure Misread (α : Type) where
  read : Page α → Nat × Payload α × Spare
  rejected : ∀ p, Rejected p (read p)

/-- What becomes of a page written by `ftl_vfl_write`, which panics if the NAND reports an error
and the page then does not read. -/
inductive Fate (α : Type)
  | kept
  | panics
  | misread (m : Misread α)

/-- What becomes of the steps of one call. -/
structure Fates (α : Type) where
  /-- `nand_block_erase` works on each bank, within three tries; `ftl_erase_block_internal` panics
  otherwise. -/
  erases : Bool
  /-- For each page of erase counters. -/
  page : Nat → Fate α
  /-- `ftl_vfl_commit_cxt` finds a page to commit to; it panics otherwise. -/
  commits : Bool

variable (d) (f : Fates α)

def allocatePoolBlock : Op α (Option Nat) := do
  let r ← Ftl.allocatePoolBlock d
  faultIf (r ≠ none ∧ ¬ f.erases) .panic
  return r

/-- What `ftl_vfl_read` returns of the page, `r` if it was kept. -/
def Fate.readBack (fate : Fate α) (written : Page α) (r : Nat × Payload α × Spare) :
    Nat × Payload α × Spare :=
  match fate with
  | .misread m => m.read written
  | _ => r

def Fate.isPanic (fate : Fate α) : Bool :=
  match fate with
  | .panics => true
  | _ => false

def saveErasectrPage (fate : Fate α) (index : Nat) : Op α Nat := do
  let s ← get
  let page := s.cxt.ftlctrlpage
  let written : Page α := ⟨.erasectr (s.erasectrPage index), .meta s.cxt.usn index 0x46⟩
  let rc ← vflWrite d page 1 (fun _ => written.data) fun _ => written.spare
  faultIf (rc = 0 ∧ fate.isPanic) .panic
  let t ← get
  let r := fate.readBack written (vflRead d t.nand page 1)
  if rc ≠ 0 ∨ r.1 &&& 0x11F ≠ 0 ∨ ¬ r.2.1.isErasectr (s.erasectrPage index) ∨
      r.2.2.type ≠ 0x46 ∨ r.2.2.idx ≠ index ∨ r.2.2.metaUsn ≠ s.cxt.usn then
    return 1
  else
    set { t with
      cxt := { t.cxt with ftlErasectrPages := upd t.cxt.ftlErasectrPages index page }
      erasectrDirt := upd t.erasectrDirt index 0 }
    return 0

/-- The turn for erase counter page `i` of the loop in `ftl_next_ctrl_pool_page`. -/
def moveErasectrPage (oldblock newblock i : Nat) : Op α (Option Nat) := do
  let s ← get
  if oldblock * d.ppb ≤ s.cxt.ftlErasectrPages i ∧
      s.cxt.ftlErasectrPages i < (oldblock + 1) * d.ppb then
    set (s.modifyCxt fun c => { c with usn := c.usn - 1 })
    if (← saveErasectrPage d (f.page i) i) ≠ 0 then
      modify (State.modifyCxt fun c =>
        { c.setCtrlBlock i oldblock with
          ftlctrlpage := wrap (oldblock * (d.ppb + 1) + (2 ^ 32 - 1)) })
      releasePoolBlock d newblock
      return some 1
    else
      modify (State.modifyCxt fun c => { c with ftlctrlpage := c.ftlctrlpage + 1 })
      return none
  else
    return none

def storeCtrlBlockList : Op α Nat := do
  let rc ← Ftl.storeCtrlBlockList d
  faultIf (¬ f.commits) .panic
  return rc

/-- The part of `ftl_next_ctrl_pool_page` that starts a new control block. -/
def startCtrlBlock : Op α Nat := do
  let s ← get
  let i := (s.cxt.ctrlIdx d.ppb + 1) % 3
  let oldblock := s.cxt.ftlctrlblocks i
  match ← allocatePoolBlock d f with
  | none => return 1
  | some newblock =>
    modify (State.modifyCxt fun c => { c with
      ftlctrlblocks := upd c.ftlctrlblocks i newblock
      ftlctrlpage := newblock * d.ppb })
    match ← loopUntil d.ctrPagestoread 0 (moveErasectrPage d f oldblock newblock) with
    | some rc => return rc
    | none =>
      releasePoolBlock d oldblock
      storeCtrlBlockList d f

def nextCtrlPoolPage : Op α Nat := do
  modify (State.modifyCxt fun c => { c with ftlctrlpage := c.ftlctrlpage + 1 })
  let s ← get
  if s.cxt.ftlctrlpage % d.ppb ≠ 0 then return 0 else startCtrlBlock d f

/-! ## With nothing going wrong -/

variable {d} {f}

theorem saveErasectrPage_kept (index : Nat) :
    saveErasectrPage d .kept index = (Ftl.saveErasectrPage d index : Op α Nat) := by
  simp only [saveErasectrPage, Ftl.saveErasectrPage, Fate.isPanic, Fate.readBack, faultIf]
  simp

theorem moveErasectrPage_kept (h : f.page i = .kept) :
    moveErasectrPage d f old b i = Ftl.moveErasectrPage d old b i := by
  simp only [moveErasectrPage, Ftl.moveErasectrPage, h, saveErasectrPage_kept]

/-- Without failures the call is that of the model without them. -/
theorem nextCtrlPoolPage_kept (herase : f.erases) (hpage : ∀ i, f.page i = .kept)
    (hcommit : f.commits) : nextCtrlPoolPage d f = Ftl.nextCtrlPoolPage d := by
  have halloc : allocatePoolBlock d f = Ftl.allocatePoolBlock d := by
    simp [allocatePoolBlock, faultIf, herase]
  have hmove : ∀ old b, moveErasectrPage d f old b = Ftl.moveErasectrPage d old b :=
    fun old b => funext fun i => moveErasectrPage_kept (hpage i)
  have hstore : storeCtrlBlockList d f = Ftl.storeCtrlBlockList d := by
    simp [storeCtrlBlockList, faultIf, hcommit]
  have hstart : startCtrlBlock d f = Ftl.startCtrlBlock d := by
    unfold startCtrlBlock
    rw [halloc, hstore, funext fun old => funext fun b => hmove old b]
    rfl
  unfold nextCtrlPoolPage
  rw [hstart]
  rfl

/-! ## Moving the erase counter pages -/

/-- Of the erase counter pages `moved`, page `i` is the first that is not kept. -/
structure Lost (f : Fates α) (moved : Finset Nat) (i : Nat) : Prop where
  mem : i ∈ moved
  lost : f.page i ≠ .kept
  first : ∀ j < i, j ∈ moved → f.page j = .kept

theorem Lost.unique {moved : Finset Nat} (h : Lost f moved i) (h' : Lost f moved j) : i = j := by
  rcases Nat.lt_trichotomy i j with hij | hij | hij
  · exact absurd (h'.first i hij h.mem) h.lost
  · exact hij
  · exact absurd (h.first j hij h'.mem) h'.lost

/-- It reads back as something else. -/
structure Spoilt (f : Fates α) (moved : Finset Nat) (i : Nat) : Prop extends
    Lost f moved i where
  misread : ∃ m, f.page i = .misread m

/-- The way back from control block `b` to `old`, after page `i` of the erase counters. -/
structure Undone (d : Device) (s : State α) (old b i : Nat) (u : State α) : Prop where
  ftlctrlblocks : ∀ k < 3, u.cxt.ftlctrlblocks k = upd s.cxt.ftlctrlblocks i old k
  ftlctrlpage : u.cxt.ftlctrlpage = wrap (old * (d.ppb + 1) + (2 ^ 32 - 1))
  pool : u.cxt.poolBlocks = b ::ₘ s.cxt.poolBlocks

theorem isErasectr_iff {p : Payload α} {l : List UInt16} :
    p.isErasectr l = true ↔ p = .erasectr l := by
  cases p <;> simp [Payload.isErasectr]

theorem saveErasectrPage_lost {fate : Fate α} (hfate : fate ≠ .kept) (hi : i < 0x10000)
    (hr : s.cxt.ftlctrlpage < d.vblocks * d.ppb) (he : s.nand s.cxt.ftlctrlpage = none) :
    Ends (fun _ => fate = .panics) (saveErasectrPage d fate i) s fun r t =>
      r = 1 ∧ (∃ m, fate = .misread m) ∧ ∃ nand, t = { s with nand := nand } := by
  simp only [saveErasectrPage, ends_bind, ends_get]
  refine (vflWrite_spec (by omega) fun k hk => ?_).ends.mono fun rc t ht => ?_
  · rw [show k = 0 by omega]
    exact he
  obtain ⟨rfl, rfl⟩ := ht
  cases fate with
  | kept => exact absurd rfl hfate
  | panics =>
    simp only [faultIf, Fate.isPanic, and_self, if_true]
    exact ends_throw.2 trivial
  | misread m =>
    have hrej := m.rejected ⟨.erasectr (s.erasectrPage i), .meta s.cxt.usn i 0x46⟩
    unfold Rejected at hrej
    rw [Spare.idx_meta _ hi] at hrej
    simp only [faultIf, Fate.isPanic, Bool.false_eq_true, and_false, if_false, ends_pure, ends_ite,
      isErasectr_iff]
    exact ⟨fun _ => ⟨trivial, ⟨m, rfl⟩, _, rfl⟩, fun hc => absurd (.inr hrej) hc⟩

/-- Whichever field the write to `ftlctrlblocks[i]` hits, of the three blocks it changes the one
of that number at most. -/
theorem setCtrlBlock_eq (c : Cxt) (i block : Nat) : ∃ blocks page flag,
    c.setCtrlBlock i block =
      { c with ftlctrlblocks := blocks, ftlctrlpage := page, cleanFlag := flag } ∧
    ∀ k < 3, blocks k = upd c.ftlctrlblocks i block k := by
  have hne : ∀ k < 3, ¬ i < 3 → c.ftlctrlblocks k = upd c.ftlctrlblocks i block k := by
    intro k hk hi
    have hki : k ≠ i := by omega
    exact (upd_ne _ _ hki).symm
  unfold Cxt.setCtrlBlock
  split
  case isTrue => exact ⟨_, _, _, rfl, fun _ _ => rfl⟩
  case isFalse hi =>
    split
    · exact ⟨_, _, _, rfl, fun k hk => hne k hk hi⟩
    · split
      · exact ⟨_, _, _, rfl, fun k hk => hne k hk hi⟩
      · split
        · exact ⟨_, _, _, rfl, fun k hk => hne k hk hi⟩
        · split
          · exact ⟨_, _, _, rfl, fun k hk => hne k hk hi⟩
          · exact ⟨_, _, _, rfl, fun k hk => hne k hk hi⟩

theorem moveErasectrPage_ends (hb : b < d.vblocks) (h : Moving d s old b j t)
    (hj : j < d.ctrPagestoread) (hf : s.cxt.freecount < 0x14) :
    Ends (fun _ => j ∈ s.cxt.inBlock d old d.ctrPagestoread ∧ f.page j = .panics)
      (moveErasectrPage d f old b j) t fun r u =>
        r = none ∧ Moving d s old b (j + 1) u ∧
            (j ∈ s.cxt.inBlock d old d.ctrPagestoread → f.page j = .kept) ∨
          r = some 1 ∧ j ∈ s.cxt.inBlock d old d.ctrPagestoread ∧ (∃ m, f.page j = .misread m) ∧
            Undone d s old b j u := by
  have hpages := Device.ctrPagestoread_le (d := d)
  have hppb := d.ppb_cases
  have hcard : (s.cxt.inBlock d old j).card ≤ j := Cxt.inBlock_card_le
  have hspec := moveErasectrPage_spec hb h hj
  by_cases hkept : f.page j = .kept
  · rw [moveErasectrPage_kept hkept]
    exact hspec.ends.mono fun r u hu => .inl ⟨hu.1, hu.2, fun _ => hkept⟩
  have hin : old * d.ppb ≤ t.cxt.ftlErasectrPages j ∧
      t.cxt.ftlErasectrPages j < (old + 1) * d.ppb ↔ j ∈ s.cxt.inBlock d old d.ctrPagestoread := by
    rw [h.ahead j le_rfl, Cxt.inBlock, Finset.mem_filter, Finset.mem_range, Nat.div_eq_iff d.ppb_pos,
      Nat.add_mul]
    omega
  simp only [Ftl.moveErasectrPage, wp_bind, wp_get, wp_ite, wp_pure] at hspec
  simp only [moveErasectrPage, ends_bind, ends_get, ends_ite, ends_set, ends_pure]
  refine ⟨fun hold => ?_, fun hold => .inl ⟨trivial, (hspec.2 hold).2, fun hmem =>
    absurd (hin.2 hmem) hold⟩⟩
  have hmem := hin.1 hold
  have hpage : t.cxt.ftlctrlpage = b * d.ppb + (s.cxt.inBlock d old j).card := by rw [h.eq]
  let v := t.modifyCxt fun c => { c with usn := c.usn - 1 }
  have hv : v.cxt.ftlctrlpage = b * d.ppb + (s.cxt.inBlock d old j).card := hpage
  refine ((saveErasectrPage_lost (s := v) hkept (by omega) ?_ ?_).mono fun r u hu => ?_).faults
    fun _ hp => ⟨hmem, hp⟩
  · rw [hv]
    exact Device.page_lt hb (by omega)
  · rw [hv]
    exact h.erased _ le_rfl (by omega)
  obtain ⟨rfl, hm, nand, rfl⟩ := hu
  have hfree : t.cxt.freecount = s.cxt.freecount := by rw [h.eq]
  have hctrl : t.cxt.ftlctrlblocks = s.cxt.ftlctrlblocks := by rw [h.eq]
  have hpool : t.cxt.poolBlocks = s.cxt.poolBlocks := by
    rw [h.eq]
    rfl
  simp only [ends_modify]
  refine ⟨fun _ => ?_, fun hc => absurd Nat.one_ne_zero hc⟩
  obtain ⟨blocks, page, flag, hset, hblocks⟩ := setCtrlBlock_eq v.cxt j old
  simp only [State.modifyCxt]
  rw [show State.cxt { v with nand := nand } = v.cxt from rfl, hset]
  refine ((releasePoolBlock_spec hb ?_).ends).mono fun _ u hu => .inr ⟨trivial, hmem, hm, ?_⟩
  · show t.cxt.freecount < 0x14
    omega
  subst hu
  refine ⟨fun k hk => ?_, rfl, ?_⟩
  · rw [← hctrl]
    exact hblocks k hk
  · refine (Cxt.poolBlocks_released ?_ b).trans ?_
    · show t.cxt.freecount < 0x14
      omega
    · rw [← hpool]
      rfl

theorem moveLoop_ends (hb : b < d.vblocks) (hf : s.cxt.freecount < 0x14) : ∀ k j (t : State α),
    j + k = d.ctrPagestoread → Moving d s old b j t →
    (∀ i < j, i ∈ s.cxt.inBlock d old d.ctrPagestoread → f.page i = .kept) →
    Ends (fun _ => ∃ i, Lost f (s.cxt.inBlock d old d.ctrPagestoread) i ∧ f.page i = .panics)
      (loopUntil k j (moveErasectrPage d f old b)) t fun r u =>
        r = none ∧ Moving d s old b d.ctrPagestoread u ∧
            (∀ i ∈ s.cxt.inBlock d old d.ctrPagestoread, f.page i = .kept) ∨
          ∃ i, r = some 1 ∧ Spoilt f (s.cxt.inBlock d old d.ctrPagestoread) i ∧
            Undone d s old b i u := by
  intro k
  induction k with
  | zero =>
    intro j t hj ht hkept
    obtain rfl : j = d.ctrPagestoread := by omega
    refine (ends_pure _).2 (.inl ⟨rfl, ht, fun i hi => hkept i ?_ hi⟩)
    exact Finset.mem_range.1 (Finset.mem_filter.1 hi).1
  | succ k ih =>
    intro j t hj ht hkept
    have hlost : j ∈ s.cxt.inBlock d old d.ctrPagestoread → f.page j ≠ .kept →
        Lost f (s.cxt.inBlock d old d.ctrPagestoread) j := fun hm hne => ⟨hm, hne, hkept⟩
    rw [loopUntil, ends_bind]
    refine ((moveErasectrPage_ends hb ht (by omega) hf).mono fun r u hu => ?_).faults ?_
    · rcases hu with ⟨rfl, hu, hj'⟩ | ⟨rfl, hm, ⟨m, hmis⟩, hu⟩
      · refine ih (j + 1) u (by omega) hu fun i hi him => ?_
        rcases Nat.lt_succ_iff_lt_or_eq.1 hi with hlt | rfl
        · exact hkept i hlt him
        · exact hj' him
      · have hne : f.page j ≠ .kept := by
          rw [hmis]
          intro hc
          cases hc
        exact (ends_pure _).2 (.inr ⟨j, rfl, ⟨hlost hm hne, m, hmis⟩, hu⟩)
    · rintro _ ⟨hm, hp⟩
      have hne : f.page j ≠ .kept := by
        rw [hp]
        intro hc
        cases hc
      exact ⟨j, hlost hm hne, hp⟩

/-! ## The call -/

/-- The control blocks, the control page and the pool are as they were. -/
structure Restored (s t : State α) : Prop where
  ftlctrlblocks : ∀ k < 3, t.cxt.ftlctrlblocks k = s.cxt.ftlctrlblocks k
  ftlctrlpage : t.cxt.ftlctrlpage = s.cxt.ftlctrlpage
  pool : t.cxt.poolBlocks = s.cxt.poolBlocks

/-- Block `b` of the pool and control block `i` changed places, and `b` was erased. -/
structure Exchanged (d : Device) (s : State α) (i b : Nat) (t : State α) : Prop where
  ftlctrlblocks : t.cxt.ftlctrlblocks = upd s.cxt.ftlctrlblocks i b
  pool : s.cxt.ftlctrlblocks i ::ₘ s.cxt.poolBlocks = b ::ₘ t.cxt.poolBlocks
  inside : t.cxt.ftlctrlpage / d.ppb = b
  counted : t.erasectr b = s.erasectr b + 1
  erased : ∀ p, p / d.ppb = b → t.cxt.ftlctrlpage ≤ p → t.nand p = none

/-- The control page moves on, to a new control block if the last one is full. -/
structure Rotated (d : Device) (s t : State α) : Prop where
  inside : ∃ k < 3, t.cxt.ftlctrlpage / d.ppb = t.cxt.ftlctrlblocks k
  cases : t.cxt.ftlctrlpage = s.cxt.ftlctrlpage + 1 ∧
      t.cxt.ftlctrlblocks = s.cxt.ftlctrlblocks ∧ t.cxt.poolBlocks = s.cxt.poolBlocks ∨
    (s.cxt.ftlctrlpage + 1) % d.ppb = 0 ∧ ∃ i < 3, ∃ b, Exchanged d s i b t

/-- Which control block is given up when the next page is in none. -/
def replaced (d : Device) (c : Cxt) : Nat :=
  (Cxt.ctrlIdx { c with ftlctrlpage := c.ftlctrlpage + 1 } d.ppb + 1) % 3

theorem replaced_lt {c : Cxt} : replaced d c < 3 := Nat.mod_lt _ (by omega)

/-- The erase counter pages in the block given up. -/
def moved (d : Device) (c : Cxt) : Finset Nat :=
  c.inBlock d (c.ftlctrlblocks (replaced d c)) d.ctrPagestoread

/-- A page of the erase counters did not read back, and the call failed. -/
structure Failed (d : Device) (f : Fates α) (s : State α) (i b : Nat) (t : State α) : Prop where
  erases : f.erases = true
  spoilt : Spoilt f (moved d s.cxt) i
  pool : b ∈ s.cxt.poolBlocks
  ftlctrlblocks : ∀ k < 3, t.cxt.ftlctrlblocks k =
    upd (upd s.cxt.ftlctrlblocks (replaced d s.cxt) b) i
      (s.cxt.ftlctrlblocks (replaced d s.cxt)) k
  ftlctrlpage : t.cxt.ftlctrlpage =
    wrap (s.cxt.ftlctrlblocks (replaced d s.cxt) * (d.ppb + 1) + (2 ^ 32 - 1))
  poolBlocks : t.cxt.poolBlocks = s.cxt.poolBlocks

theorem startCtrlBlock_ends (hs : Inv d s 0) (hmod : (s.cxt.ftlctrlpage + 1) % d.ppb = 0) :
    Ends (fun _ => ¬ (f.erases ∧ ∃ i, Spoilt f (moved d s.cxt) i)) (startCtrlBlock d f)
      (s.modifyCxt fun c => { c with ftlctrlpage := c.ftlctrlpage + 1 }) fun rc t =>
        rc = 0 ∧ Rotated d s t ∧ (∀ i, ¬ Spoilt f (moved d s.cxt) i) ∨
          rc = 1 ∧ ∃ i b, Failed d f s i b t := by
  have hcount := hs.count
  rw [Multiset.card_zero] at hcount
  have hlog := s.card_logBlocks_le
  have hpages := Device.ctrPagestoread_le (d := d)
  have hppb := d.ppb_cases
  let s₁ := s.modifyCxt fun c => { c with ftlctrlpage := c.ftlctrlpage + 1 }
  let old := s.cxt.ftlctrlblocks (replaced d s.cxt)
  simp only [startCtrlBlock, allocatePoolBlock, ends_bind, ends_get]
  refine ((allocatePoolBlock_spec (s := s₁) hs.owned hs.start
    (show 2 ≤ s.cxt.freecount by omega)).ends).mono fun r v hv => ?_
  obtain ⟨b, rfl, hv⟩ := hv
  cases herase : f.erases with
  | false =>
    simp only [faultIf, ne_eq, reduceCtorEq, not_false_eq_true, Bool.false_eq_true, and_self,
      if_true, false_and]
    exact ends_throw.2 trivial
  | true =>
  simp only [faultIf, ne_eq, reduceCtorEq, not_false_eq_true, not_true, and_false, if_false,
    ends_pure, ends_bind, ends_modify, true_and]
  have hvctrl : v.cxt.ftlctrlblocks = s.cxt.ftlctrlblocks := hv.ftlctrlblocks
  have hvpool : s.cxt.poolBlocks = b ::ₘ v.cxt.poolBlocks :=
    hv.pool hs.start (show s.cxt.freecount ≤ 0x14 by omega)
  have hvfree : v.cxt.freecount + 1 = s.cxt.freecount := hv.freecount
  have hb : b < d.vblocks := (hv.owned hs.owned hs.start).hand_lt (Multiset.mem_cons_self b 0)
  have hold : old < d.vblocks := hs.owned.ctrl_lt replaced_lt
  let v₂ := v.modifyCxt fun c =>
    { c with ftlctrlblocks := upd c.ftlctrlblocks (replaced d s.cxt) b, ftlctrlpage := b * d.ppb }
  have hmoved : v₂.cxt.inBlock d old d.ctrPagestoread = moved d s.cxt := by
    show (Finset.range _).filter (fun i => v.cxt.ftlErasectrPages i / d.ppb = old) = _
    rw [hv.ftlErasectrPages]
    rfl
  have hblocks : v₂.cxt.ftlctrlblocks = upd s.cxt.ftlctrlblocks (replaced d s.cxt) b := by
    rw [← hvctrl]
    rfl
  have h0 : Moving d v₂ old b 0 v₂ := by
    refine ⟨?_, fun _ _ => rfl, fun _ _ => rfl, fun hc => absurd hc (lt_irrefl 0), fun k _ hk =>
      hv.erased (Device.block_page hk)⟩
    show v₂ = { v₂ with cxt := { v₂.cxt with usn := v₂.cxt.usn - 0, ftlctrlpage := b * d.ppb + 0 } }
    rw [sub_zero]
    rfl
  have hloop := moveLoop_ends (f := f) (s := v₂) hb (show v.cxt.freecount < 0x14 by omega)
    d.ctrPagestoread 0 v₂ (Nat.zero_add _) h0 fun i hi => absurd hi (Nat.not_lt_zero i)
  rw [hmoved] at hloop
  refine (hloop.mono fun r w hw => ?_).faults ?_
  · rcases hw with ⟨rfl, hw, hkept⟩ | ⟨i, rfl, hspoilt, hw⟩
    · have hnone : ∀ i, ¬ Spoilt f (moved d s.cxt) i := fun i hi => hi.lost (hkept i hi.mem)
      have hwfree : w.cxt.freecount = v.cxt.freecount := by
        rw [hw.eq]
        rfl
      have hcard : (v₂.cxt.inBlock d old d.ctrPagestoread).card ≤ d.ctrPagestoread :=
        Cxt.inBlock_card_le
      have hpage : w.cxt.ftlctrlpage =
          b * d.ppb + (v₂.cxt.inBlock d old d.ctrPagestoread).card := by rw [hw.eq]
      have hinside : w.cxt.ftlctrlpage / d.ppb = b := by
        rw [hpage]
        exact Device.block_page (by omega)
      simp only [ends_bind]
      refine (releasePoolBlock_spec hold (by omega)).ends.mono fun _ x hx => ?_
      simp only [storeCtrlBlockList, ends_bind]
      refine (storeCtrlBlockList_spec x).ends.mono fun rc y hy => ?_
      obtain ⟨rfl, k, -, vfl, rfl⟩ := hy
      subst hx
      cases hcommit : f.commits with
      | false =>
        simp only [faultIf, Bool.false_eq_true, not_false_eq_true, if_true]
        refine ends_throw.2 ?_
        rintro ⟨i, hspoilt⟩
        exact hnone i hspoilt
      | true =>
      simp only [faultIf, not_true, if_false, ends_pure]
      have hctrl : w.cxt.ftlctrlblocks = upd s.cxt.ftlctrlblocks (replaced d s.cxt) b := by
        rw [hw.eq]
        exact hblocks
      refine .inl ⟨trivial, ⟨⟨replaced d s.cxt, replaced_lt, ?_⟩, .inr ⟨hmod, replaced d s.cxt,
        replaced_lt, b, hctrl, ?_, hinside, ?_, fun p hp hle => ?_⟩⟩, hnone⟩
      · show w.cxt.ftlctrlpage / d.ppb = w.cxt.ftlctrlblocks _
        rw [hinside, hctrl, upd_self]
      · have hwpool : w.cxt.poolBlocks = v.cxt.poolBlocks := by
          rw [hw.eq]
          rfl
        show old ::ₘ s.cxt.poolBlocks = b ::ₘ (w.cxt.released old).poolBlocks
        rw [Cxt.poolBlocks_released (by omega), hwpool, hvpool, Multiset.cons_swap]
      · show w.erasectr b = _
        rw [hw.eq]
        show v.erasectr b = _
        rw [hv.erasectr]
        exact upd_self _ _ _
      · have hle : w.cxt.ftlctrlpage ≤ p := hle
        have hlt := Device.mod_lt_ppb (d := d) p
        have hpe := Device.eq_block_page (d := d) p
        rw [hp] at hpe
        rw [hpe]
        exact hw.erased _ (by omega) hlt
    · refine (ends_pure _).2 (.inr ⟨rfl, i, b, herase, hspoilt, ?_, fun k hk => ?_, hw.ftlctrlpage, ?_⟩)
      · exact hv.mem_pool
      · rw [hw.ftlctrlblocks k hk, hblocks]
      · rw [hw.pool]
        exact hvpool.symm
  · rintro e ⟨i, hlost, hpanics⟩ ⟨j, hspoilt⟩
    obtain ⟨m, hm⟩ := hspoilt.misread
    rw [hspoilt.toLost.unique hlost, hpanics] at hm
    cases hm

/-- A call that fails changes nothing, and one that succeeds goes on to the next control page. -/
def Rotates (d : Device) (f : Fates α) (s : State α) : Prop :=
  ∀ rc t, (nextCtrlPoolPage d f).run s = .ok (rc, t) →
    (rc ≠ 0 → Restored s t) ∧ (rc = 0 → Rotated d s t)

/-- Page `i` of the erase counters has the number of the control block given up, `old`, and what
the code takes for the last page of the block before it is the control page of before the call. -/
def WayBack (d : Device) (c : Cxt) (i : Nat) : Prop :=
  i = replaced d c ∧
    wrap (c.ftlctrlblocks (replaced d c) * (d.ppb + 1) + (2 ^ 32 - 1)) = c.ftlctrlpage

theorem Failed.restored_iff {i b : Nat} (h : Failed d f s i b t) (hs : Inv d s 0) :
    Restored s t ↔ WayBack d s.cxt i := by
  constructor
  · intro hr
    refine ⟨?_, h.ftlctrlpage.symm.trans hr.ftlctrlpage⟩
    -- otherwise block `b` of the pool is still in the place of the block given up
    by_contra hne
    have hkept := h.ftlctrlblocks (replaced d s.cxt) replaced_lt
    rw [hr.ftlctrlblocks _ replaced_lt, upd_ne _ _ (Ne.symm hne), upd_self] at hkept
    have hctrl : b ∈ s.cxt.ctrlBlocks := by
      rw [← hkept]
      exact Multiset.mem_map_of_mem _ (Multiset.mem_range.2 replaced_lt)
    exact (hs.owned.disjoint.2.2.1 h.pool).1 hctrl
  · rintro ⟨rfl, hpage⟩
    refine ⟨fun k hk => ?_, h.ftlctrlpage.trans hpage, h.poolBlocks⟩
    rw [h.ftlctrlblocks k hk, upd_upd, upd_eq_self]

theorem nextCtrlPoolPage_same (hs : Inv d s 0) (hmod : (s.cxt.ftlctrlpage + 1) % d.ppb ≠ 0) :
    Ends (fun _ => False) (nextCtrlPoolPage d f) s fun rc t => rc = 0 ∧ Rotated d s t := by
  obtain ⟨k, hk, hin⟩ := hs.ctrl.inside
  simp only [nextCtrlPoolPage, ends_bind, ends_modify, ends_get, ends_ite, ends_pure]
  refine ⟨fun _ => ⟨trivial, ⟨k, hk, ?_⟩, .inl ⟨rfl, rfl, rfl⟩⟩, fun hc => absurd hmod hc⟩
  exact (Device.succ_block hmod).trans hin

theorem nextCtrlPoolPage_ends (hs : Inv d s 0) (hmod : (s.cxt.ftlctrlpage + 1) % d.ppb = 0) :
    Ends (fun _ => ¬ (f.erases ∧ ∃ i, Spoilt f (moved d s.cxt) i)) (nextCtrlPoolPage d f) s
      fun rc t => rc = 0 ∧ Rotated d s t ∧ (∀ i, ¬ Spoilt f (moved d s.cxt) i) ∨
        rc = 1 ∧ ∃ i b, Failed d f s i b t := by
  simp only [nextCtrlPoolPage, ends_bind, ends_modify, ends_get]
  rw [ends_ite]
  exact ⟨fun hc => absurd hmod hc, fun _ => startCtrlBlock_ends hs hmod⟩

/-- The control page is the last one of block 988, and all erase counters are in block 989. -/
def lastPage : State Nat :=
  (newState 20 fun _ => none).modifyCxt fun c =>
    { c with ftlctrlpage := 988 * 128 + 127, ftlErasectrPages := fun i => 989 * 128 + i }

theorem lastPage_inv : Inv twoBanks lastPage 0 := by
  have h : Inv twoBanks (newState 20 fun _ => none) 0 := newState_inv le_rfl fun _ _ => rfl
  have hblock : (988 * 128 + 127) / twoBanks.ppb = 988 := by rw [twoBanks_ppb]
  exact h.of_log (t := lastPage) rfl (fun _ _ => rfl) h.owned h.start
    ⟨⟨0, by omega, hblock⟩, fun _ _ _ => rfl⟩

/-- An uncorrectable error on reading back. -/
def unreadable : Misread Nat :=
  ⟨fun p => (0x10, p.data, p.spare), fun _ => .inl (show 0x10 &&& 0x11F ≠ 0 by decide)⟩

end Rotation
end Ftl
end Freemyipod
