import Mathlib.Data.Set.Insert
import Mathlib.Logic.Function.Basic

/-!
# Vfl.Remap

The remap table of a bank's VFL context, as the note boot loader's `ftl.c` keeps it.

The table has two ends. From the start, entry `i` is the virtual block that spare block `i`
stands in for. From the end down to `scheduledstart` are the virtual blocks that are scheduled for
remapping. A bitmap with a bit for every eight blocks says where no entry needs to be looked for.

* `schedule_isSet_iff`: the schedule answers like a set of blocks exactly as long as nothing is
  scheduled: the last block that was is not found.
* `remap_translates`: of a context that is kept as its structure says, a remap changes the
  translation of one block only.
-/

namespace Freemyipod.Vfl

/-- The fields of `struct ftl_vfl_cxt_type` that remapping uses. -/
structure RemapCxt where
  spareused : BitVec 16
  firstspare : BitVec 16
  sparecount : BitVec 16
  /-- 0x334 entries; 0 is unused, 0xFFFF is a bad spare block. -/
  remaptable : Nat → BitVec 16
  bbt : Nat → BitVec 8
  scheduledstart : BitVec 16

namespace RemapCxt

variable (c : RemapCxt)

/-! ## Translation -/

/-- The bit of a group of eight blocks in its byte of the bitmap. -/
def bbtBit (block : Nat) : BitVec 8 := 1 <<< ((7 + 8 - (block >>> 3) % 8) &&& 7)

/-- `ftl_vfl_is_good_block`. -/
def isGoodBlock (block : Nat) : Bool := (c.bbt (block >>> 6) &&& bbtBit block) != 0

/-- `ftl_vfl_set_good_block(bank, block, 0)`. -/
def setBadBlock (block : Nat) : RemapCxt :=
  { c with
    bbt := Function.update c.bbt (block >>> 6) (c.bbt (block >>> 6) &&& ~~~(bbtBit block)) }

/-- `ftl_vfl_get_physical_block`. -/
@[grind =] def getPhysicalBlock (block : Nat) : Nat :=
  if c.isGoodBlock block then block
  else
    match (List.range c.spareused.toNat).find? fun i => (c.remaptable i).toNat = block with
    | some spareindex => c.firstspare.toNat + spareindex
    | none => block

/-! ## The schedule -/

/-- `for (i = n; i > 0 && i > scheduledstart; i--) if (remaptable[i] == block) ..`. -/
@[grind =] def findScheduled (block : BitVec 32) : Nat → Option Nat
  | 0 => none
  | i + 1 =>
    if i + 1 ≤ c.scheduledstart.toNat then none
    else if (c.remaptable (i + 1)).setWidth 32 = block then some (i + 1)
    else findScheduled block i

/-- `ftl_vfl_check_remap_scheduled`. -/
def checkRemapScheduled (block : BitVec 32) : Bool := (c.findScheduled block 0x333).isSome

/-- `ftl_vfl_schedule_block_for_remap`. The commit at its end stores the context as it is. -/
def scheduleBlockForRemap (block : BitVec 32) : RemapCxt :=
  if c.checkRemapScheduled block then c
  else if c.scheduledstart = c.spareused then c
  else
    { c with
      scheduledstart := c.scheduledstart - 1
      remaptable := Function.update c.remaptable (c.scheduledstart - 1).toNat
        (block.setWidth 16) }

/-- `ftl_vfl_mark_remap_done`. -/
def markRemapDone (block : BitVec 32) : RemapCxt :=
  match c.findScheduled block 0x333 with
  | none => c
  | some i =>
    { c with
      scheduledstart := c.scheduledstart + 1
      remaptable :=
        if i ≠ c.scheduledstart.toNat ∧ i ≠ 0x333 then
          Function.update c.remaptable i (c.remaptable c.scheduledstart.toNat)
        else c.remaptable }

/-! ## Remapping -/

/-- `for (i = 0; i < n; i++) if (remaptable[i] == block) remaptable[i] = 0xFFFF;`. -/
def retireEntries (block n : Nat) (i : Nat) : BitVec 16 :=
  if i < n ∧ (c.remaptable i).toNat = block then 0xFFFF else c.remaptable i

/-- `ftl_vfl_remap_block`, for a bank that exists on a device with `blocks` blocks; 0 if no spare
block is left. Whether the spare block could be erased is not looked at. -/
def remapBlock (blocks block : Nat) : RemapCxt × Nat :=
  if blocks ≤ block then (c, 0)
  else
    match (List.range c.sparecount.toNat).find? fun i => c.remaptable i = 0 with
    | none => (c, 0)
    | some newidx =>
      let newblock := c.firstspare.toNat + newidx
      if newblock = 0 then (c, 0)
      else
        ({ c with
            remaptable :=
              Function.update (c.retireEntries block newidx) newidx (BitVec.ofNat 16 block)
            spareused := c.spareused + 1 }.setBadBlock block, newblock)

end RemapCxt

/-! ## The schedule as a set -/

/-- The calls that change the schedule. -/
inductive RemapOp where
  | schedule (block : BitVec 32)
  | done (block : BitVec 32)

namespace RemapOp

/-- What a call does to the context. -/
def apply (c : RemapCxt) : RemapOp → RemapCxt
  | schedule block => c.scheduleBlockForRemap block
  | done block => c.markRemapDone block

/-- What a call should do to the set of scheduled blocks. -/
def applySet (s : Set (BitVec 32)) : RemapOp → Set (BitVec 32)
  | schedule block => insert block s
  | done block => s \ {block}

/-- The schedule has room for each block that is added to it. -/
def Room : RemapCxt → List RemapOp → Prop
  | _, [] => True
  | c, op :: ops =>
    (∀ block, op = schedule block →
      c.checkRemapScheduled block = true ∨ c.scheduledstart ≠ c.spareused) ∧
    Room (op.apply c) ops

end RemapOp

namespace RemapCxt

variable {c : RemapCxt} {block : BitVec 32}

/-- The context after some calls. -/
def run (c : RemapCxt) (ops : List RemapOp) : RemapCxt := ops.foldl RemapOp.apply c

/-- The blocks in the table from `scheduledstart` on. -/
def scheduled (c : RemapCxt) : Set (BitVec 32) :=
  {b | ∃ i, c.scheduledstart.toNat ≤ i ∧ i ≤ 0x333 ∧ (c.remaptable i).setWidth 32 = b}

/-- The blocks that were scheduled, at first or by one of the calls, and not marked done since. -/
def pending (c : RemapCxt) (ops : List RemapOp) : Set (BitVec 32) :=
  ops.foldl RemapOp.applySet c.scheduled

/-- The list of scheduled blocks ends in the table, and no block is in it twice. -/
structure ScheduleOk (c : RemapCxt) : Prop where
  start_le : c.scheduledstart.toNat ≤ 0x334
  distinct : ∀ i j, c.scheduledstart.toNat ≤ i → i ≤ 0x333 → c.scheduledstart.toNat ≤ j →
    j ≤ 0x333 → c.remaptable i = c.remaptable j → i = j

/-- What the search finds lies behind `scheduledstart`. -/
theorem findScheduled_some {n i : Nat} (h : c.findScheduled block n = some i) :
    c.scheduledstart.toNat < i ∧ i ≤ n ∧ (c.remaptable i).setWidth 32 = block := by
  induction n with
  | zero => cases h
  | succ n ih =>
    rw [findScheduled] at h
    by_cases hn : n + 1 ≤ c.scheduledstart.toNat
    · rw [if_pos hn] at h
      cases h
    · rw [if_neg hn] at h
      by_cases hb : (c.remaptable (n + 1)).setWidth 32 = block
      · rw [if_pos hb] at h
        cases h
        exact ⟨by omega, Nat.le_refl _, hb⟩
      · rw [if_neg hb] at h
        obtain ⟨h1, h2, h3⟩ := ih h
        exact ⟨h1, by omega, h3⟩

/-- Nothing is found in an empty schedule, nor in one with a single entry. -/
theorem check_of_start (h : 0x333 ≤ c.scheduledstart.toNat) :
    c.checkRemapScheduled block = false := by
  rw [checkRemapScheduled, Option.isSome_eq_false_iff, Option.isNone_iff_eq_none, findScheduled,
    if_pos h]

theorem scheduled_empty (h : c.scheduledstart.toNat = 0x334) : c.scheduled = ∅ := by
  refine Set.eq_empty_iff_forall_notMem.2 fun b hb => ?_
  obtain ⟨i, hi, hi', -⟩ := hb
  omega

/-- The first entry of the schedule is never found. -/
theorem start_not_found (h : c.ScheduleOk) (hlt : c.scheduledstart.toNat ≤ 0x333) :
    c.checkRemapScheduled ((c.remaptable c.scheduledstart.toNat).setWidth 32) = false := by
  rw [checkRemapScheduled, Option.isSome_eq_false_iff, Option.isNone_iff_eq_none]
  by_contra hne
  obtain ⟨i, hi⟩ := Option.ne_none_iff_exists'.1 hne
  obtain ⟨hsi, hile, heq⟩ := findScheduled_some hi
  have heq : c.remaptable i = c.remaptable c.scheduledstart.toNat := by
    have h16 := congrArg (BitVec.setWidth 16) heq
    simpa using h16
  have := h.distinct i _ (by omega) hile (Nat.le_refl _) hlt heq
  omega

/-- Marking blocks done changes nothing in an empty schedule. -/
theorem done_of_start (h : c.scheduledstart.toNat = 0x334) : c.markRemapDone block = c := by
  have hnone : c.findScheduled block 0x333 = none := by
    rw [findScheduled, if_pos (by omega)]
  rw [markRemapDone, hnone]

/-- Without a call that schedules a block, an empty schedule stays as it is. -/
theorem run_of_empty (h : c.scheduledstart.toNat = 0x334) {ops : List RemapOp}
    (hops : ∀ op ∈ ops, ∀ b, op ≠ .schedule b) : c.run ops = c ∧ c.pending ops = ∅ := by
  have hboth : ops.foldl RemapOp.apply c = c ∧ ops.foldl RemapOp.applySet ∅ = ∅ := by
    induction ops with
    | nil => exact ⟨rfl, rfl⟩
    | cons op ops ih =>
      cases op with
      | schedule b => exact absurd rfl (hops _ List.mem_cons_self b)
      | done b =>
        have hempty : RemapOp.applySet ∅ (.done b) = ∅ :=
          Set.eq_empty_iff_forall_notMem.2 fun x hx => hx.1
        rw [List.foldl_cons, List.foldl_cons, hempty, RemapOp.apply, done_of_start h]
        exact ih fun op hop => hops op (List.mem_cons_of_mem _ hop)
  exact ⟨hboth.1, by rw [pending, scheduled_empty h, hboth.2]⟩

/-- A list of calls either schedules nothing, or there is a first call that schedules a block. -/
theorem split_schedule (ops : List RemapOp) :
    (∀ op ∈ ops, ∀ b, op ≠ .schedule b) ∨
      ∃ pre b post, ops = pre ++ .schedule b :: post ∧ ∀ op ∈ pre, ∀ b, op ≠ .schedule b := by
  induction ops with
  | nil => exact .inl fun op hop => absurd hop List.not_mem_nil
  | cons op ops ih =>
    cases op with
    | schedule b => exact .inr ⟨[], b, ops, rfl, fun op hop => absurd hop List.not_mem_nil⟩
    | done d =>
      rcases ih with hall | ⟨pre, b, post, rfl, hpre⟩
      · refine .inl fun op hop b hb => ?_
        rcases List.mem_cons.1 hop with rfl | hop
        · cases hb
        · exact hall op hop b hb
      · refine .inr ⟨.done d :: pre, b, post, rfl, fun op hop b' hb => ?_⟩
        rcases List.mem_cons.1 hop with rfl | hop
        · cases hb
        · exact hpre op hop b' hb

theorem run_snoc {pre : List RemapOp} {op : RemapOp} :
    c.run (pre ++ [op]) = op.apply (c.run pre) := by
  rw [run, List.foldl_append]
  rfl

theorem room_append {c : RemapCxt} {pre post : List RemapOp} (h : RemapOp.Room c (pre ++ post)) :
    RemapOp.Room (c.run pre) post := by
  induction pre generalizing c with
  | nil => exact h
  | cons op pre ih => exact ih h.2

/-- The schedule answers like the set of blocks that were scheduled and not marked done since,
after every call, exactly if it is empty at first and none of the calls schedules a block. -/
theorem schedule_isSet_iff (h : c.ScheduleOk) {ops : List RemapOp} (hroom : RemapOp.Room c ops) :
    (∀ pre, pre <+: ops → ∀ b, (c.run pre).checkRemapScheduled b = true ↔ b ∈ c.pending pre) ↔
      c.scheduledstart.toNat = 0x334 ∧ ∀ op ∈ ops, ∀ b, op ≠ .schedule b := by
  constructor
  · intro hset
    have hstart : c.scheduledstart.toNat = 0x334 := by
      by_contra hne
      have hlt : c.scheduledstart.toNat ≤ 0x333 := by
        have := h.start_le
        omega
      have hmem := (hset [] List.nil_prefix _).2 ⟨_, Nat.le_refl _, hlt, rfl⟩
      exact absurd hmem (by rw [show c.run [] = c from rfl, start_not_found h hlt]; decide)
    refine ⟨hstart, ?_⟩
    rcases split_schedule ops with hall | ⟨pre, b, post, rfl, hpre⟩
    · exact hall
    · -- After the first schedule the list has one entry, which the search does not look at.
      obtain ⟨hrun, hpending⟩ := run_of_empty hstart hpre
      have hroom := (room_append hroom).1 b rfl
      rw [hrun, check_of_start (by omega)] at hroom
      have hne : c.scheduledstart ≠ c.spareused := by
        rcases hroom with hroom | hroom
        · cases hroom
        · exact hroom
      have hstep : (c.run (pre ++ [.schedule b])).scheduledstart = c.scheduledstart - 1 := by
        rw [run_snoc, hrun, RemapOp.apply, scheduleBlockForRemap, check_of_start (by omega),
          if_neg hne]
        rfl
      have hlast : 0x333 ≤ (c.run (pre ++ [.schedule b])).scheduledstart.toNat := by
        rw [hstep]
        bv_omega
      have hmem : b ∈ c.pending (pre ++ [.schedule b]) := by
        rw [pending, List.foldl_append]
        exact Set.mem_insert _ _
      have hfound := (hset (pre ++ [.schedule b]) ⟨post, by simp⟩ b).2 hmem
      rw [check_of_start hlast] at hfound
      cases hfound
  · rintro ⟨hstart, hops⟩ pre ⟨post, rfl⟩ b
    obtain ⟨hrun, hpending⟩ := run_of_empty hstart fun op hop =>
      hops op (List.mem_append_left _ hop)
    rw [hrun, hpending, check_of_start (by omega)]
    simp

/-- A context in which nothing is remapped or scheduled, with two spare blocks. -/
def fresh : RemapCxt where
  spareused := 0
  firstspare := 1
  sparecount := 2
  remaptable := fun _ => 0
  bbt := fun _ => 0xFF
  scheduledstart := 0x334

theorem fresh_scheduleOk : fresh.ScheduleOk where
  start_le := by decide
  distinct := fun i _ hi hi' _ _ _ => by
    have : fresh.scheduledstart.toNat = 0x334 := rfl
    omega

/-- Marking blocks done in an empty schedule. -/
theorem fresh_done : fresh.scheduledstart.toNat = 0x334 ∧
    ∀ pre, pre <+: [.done 3, .done 3] → ∀ b,
      (fresh.run pre).checkRemapScheduled b = true ↔ b ∈ fresh.pending pre := by
  have hroom : RemapOp.Room fresh [.done 3, .done 3] :=
    ⟨fun _ h => (by cases h), fun _ h => (by cases h), trivial⟩
  exact ⟨rfl, (schedule_isSet_iff fresh_scheduleOk hroom).2 ⟨rfl, by simp⟩⟩

/-- The block that was just scheduled is not found. -/
theorem fresh_schedule_lost :
    RemapOp.Room fresh [.schedule 5] ∧ 5 ∈ fresh.pending [.schedule 5] ∧
      (fresh.run [.schedule 5]).checkRemapScheduled 5 = false :=
  ⟨⟨fun _ _ => .inr (by decide), trivial⟩, Set.mem_insert _ _, by decide⟩

/-! ## Remapping a block -/

section Remap

variable {first blocks b newblock : Nat} {c' : RemapCxt}

/-- A context as its structure describes it, on a device whose virtual blocks are those from
`first` on, below `blocks`: the used entries of the table come first, then the unused ones, then the
schedule; a block with an entry has its bit cleared; spare blocks are no virtual blocks. -/
structure Kept (c : RemapCxt) (first blocks : Nat) : Prop where
  blocks_lt : blocks ≤ 0xFFFF
  firstspare_pos : 0 < c.firstspare.toNat
  spares_le : c.firstspare.toNat + c.sparecount.toNat ≤ first
  sparecount_le : c.sparecount.toNat ≤ 0x334
  used_le : c.spareused.toNat ≤ c.scheduledstart.toNat
  start_le : c.scheduledstart.toNat ≤ 0x334
  used : ∀ i < c.spareused.toNat, c.remaptable i ≠ 0
  unused : ∀ i, c.spareused.toNat ≤ i → i < c.scheduledstart.toNat → c.remaptable i = 0
  scheduled : ∀ i, c.scheduledstart.toNat ≤ i → i < 0x334 → c.remaptable i ≠ 0
  cleared : ∀ i < c.spareused.toNat, ∀ v, first ≤ v → v < blocks →
    (c.remaptable i).toNat = v → c.isGoodBlock v = false

theorem setBadBlock_bbt : (c.setBadBlock b).bbt =
    Function.update c.bbt (b >>> 6) (c.bbt (b >>> 6) &&& ~~~(bbtBit b)) := rfl

theorem setBadBlock_self : (c.setBadBlock b).isGoodBlock b = false := by
  rw [isGoodBlock, setBadBlock_bbt, Function.update_self, BitVec.and_assoc]
  simp

/-- Clearing a bit makes no block good. -/
theorem setBadBlock_isGood {v : Nat} (h : (c.setBadBlock b).isGoodBlock v = true) :
    c.isGoodBlock v = true := by
  rw [isGoodBlock, setBadBlock_bbt] at h
  by_cases hv : v >>> 6 = b >>> 6
  · rw [isGoodBlock, hv]
    rw [hv, Function.update_self] at h
    simp only [bne_iff_ne, ne_eq] at h ⊢
    intro hzero
    apply h
    rw [BitVec.and_assoc, BitVec.and_comm (~~~_), ← BitVec.and_assoc, hzero]
    exact BitVec.zero_and
  · rwa [Function.update_of_ne hv] at h

/-- The spare block that a remap takes is the one after those in use. -/
theorem newidx_eq (h : c.Kept first blocks) {newidx : Nat}
    (hfind : (List.range c.sparecount.toNat).find? (fun i => c.remaptable i = 0) = some newidx) :
    newidx = c.spareused.toNat ∧ newidx < c.sparecount.toNat ∧
      newidx < c.scheduledstart.toNat := by
  obtain ⟨hzero, hmem, hbefore⟩ := List.find?_range_eq_some.1 hfind
  have hzero : c.remaptable newidx = 0 := by simpa using hzero
  have hmem := List.mem_range.1 hmem
  have hcount := h.sparecount_le
  have hused : c.spareused.toNat ≤ newidx := by
    by_contra hlt
    exact h.used newidx (by omega) hzero
  have hsched : newidx < c.scheduledstart.toNat := by
    by_contra hge
    exact h.scheduled newidx (by omega) (by omega) hzero
  refine ⟨?_, hmem, hsched⟩
  by_contra hne
  have hfree := h.unused c.spareused.toNat (Nat.le_refl _) (by omega)
  have hnot := hbefore c.spareused.toNat (by omega)
  simp [hfree] at hnot

theorem find?_congr {l : List Nat} {p q : Nat → Bool} (h : ∀ i ∈ l, p i = q i) :
    l.find? p = l.find? q := by
  induction l with
  | nil => rfl
  | cons i l ih =>
    rw [List.find?_cons, List.find?_cons, h i List.mem_cons_self,
      ih fun j hj => h j (List.mem_cons_of_mem _ hj)]

/-- What a remap that returns a block does to the context. -/
structure Remapped (c : RemapCxt) (blocks b newblock : Nat) (c' : RemapCxt) : Prop where
  block_lt : b < blocks
  spare_lt : c.spareused.toNat < c.sparecount.toNat
  room : c.spareused.toNat < c.scheduledstart.toNat
  newblock_eq : newblock = c.firstspare.toNat + c.spareused.toNat
  cxt_eq : c' = { c with
    remaptable := Function.update (c.retireEntries b c.spareused.toNat) c.spareused.toNat
      (BitVec.ofNat 16 b)
    spareused := c.spareused + 1 }.setBadBlock b

theorem remapBlock_spec (h : c.Kept first blocks) (hr : c.remapBlock blocks b = (c', newblock))
    (hne : newblock ≠ 0) : c.Remapped blocks b newblock c' := by
  rw [remapBlock] at hr
  split at hr
  · cases hr
    exact absurd rfl hne
  · rename_i hlt
    split at hr
    · cases hr
      exact absurd rfl hne
    · rename_i newidx hfind
      obtain ⟨rfl, hcount, hroom⟩ := newidx_eq h hfind
      have hpos := h.firstspare_pos
      simp only at hr
      rw [if_neg (by omega)] at hr
      cases hr
      exact ⟨by omega, hcount, hroom, rfl, rfl⟩

namespace Remapped

variable (h : c.Kept first blocks) (hr : c.Remapped blocks b newblock c')
include h hr

theorem spareused : c'.spareused.toNat = c.spareused.toNat + 1 := by
  have hroom := hr.room
  have hstart := h.start_le
  rw [hr.cxt_eq]
  show (c.spareused + 1).toNat = _
  rw [BitVec.toNat_add]
  exact Nat.mod_eq_of_lt (by
    show c.spareused.toNat + 1 < 2 ^ 16
    omega)

theorem entry_new : (c'.remaptable c.spareused.toNat).toNat = b := by
  have hlt := hr.block_lt
  have hle := h.blocks_lt
  have hentry : c'.remaptable c.spareused.toNat = BitVec.ofNat 16 b := by
    rw [hr.cxt_eq]
    exact Function.update_self _ _ _
  rw [hentry, BitVec.toNat_ofNat]
  omega

/-- An entry in use names the block that it named, or it named the remapped one. -/
theorem entry_used {i v : Nat} (hi : i < c.spareused.toNat) (hv : v < blocks) :
    (c'.remaptable i).toNat = v ↔ (c.remaptable i).toNat = v ∧ v ≠ b := by
  have hle := h.blocks_lt
  have hne : i ≠ c.spareused.toNat := by omega
  have hentry : c'.remaptable i = c.retireEntries b c.spareused.toNat i := by
    rw [hr.cxt_eq]
    exact Function.update_of_ne hne _ _
  rw [hentry, retireEntries]
  by_cases hb : (c.remaptable i).toNat = b
  · rw [if_pos ⟨hi, hb⟩]
    constructor
    · intro hv'
      have : (0xFFFF : BitVec 16).toNat = 0xFFFF := rfl
      omega
    · rintro ⟨hv', hvb⟩
      exact absurd (hv'.symm.trans hb) hvb
  · rw [if_neg fun hc => hb hc.2]
    constructor
    · intro hv'
      exact ⟨hv', fun hvb => hb (hv'.trans hvb)⟩
    · exact fun hv' => hv'.1

omit h in
theorem entry_other {i : Nat} (hi : c.spareused.toNat < i) :
    c'.remaptable i = c.remaptable i := by
  have hne : i ≠ c.spareused.toNat := by omega
  have hentry : c'.remaptable i = c.retireEntries b c.spareused.toNat i := by
    rw [hr.cxt_eq]
    exact Function.update_of_ne hne _ _
  rw [hentry, retireEntries, if_neg (by omega)]

omit h in
theorem bad_self : c'.isGoodBlock b = false := by
  rw [hr.cxt_eq]
  exact setBadBlock_self

omit h in
theorem good {v : Nat} (hv : c'.isGoodBlock v = true) : c.isGoodBlock v = true := by
  rw [hr.cxt_eq] at hv
  exact setBadBlock_isGood hv

/-- The remapped block is translated to the new spare block. -/
theorem physical_self : c'.getPhysicalBlock b = newblock := by
  have hnone : (List.range c.spareused.toNat).find?
      (fun i => (c'.remaptable i).toNat = b) = none := by
    rw [List.find?_range_eq_none]
    intro i hi
    have := (entry_used h hr hi hr.block_lt (v := b)).not
    simp at this
    simpa using this
  rw [getPhysicalBlock, bad_self hr, spareused h hr, List.range_succ, List.find?_append, hnone]
  have hlast : List.find? (fun i => decide ((c'.remaptable i).toNat = b)) [c.spareused.toNat] =
      some c.spareused.toNat := by
    simp [entry_new h hr]
  have hfirst : c'.firstspare = c.firstspare := by
    rw [hr.cxt_eq]
    rfl
  simp only [Bool.false_eq_true, if_false, Option.none_or, hlast, hfirst, hr.newblock_eq]

/-- Every other virtual block is translated as before. -/
theorem physical_other {v : Nat} (hv : first ≤ v) (hvlt : v < blocks) (hne : v ≠ b) :
    c'.getPhysicalBlock v = c.getPhysicalBlock v := by
  have hfirst : c'.firstspare = c.firstspare := by
    rw [hr.cxt_eq]
    rfl
  by_cases hgood : c'.isGoodBlock v = true
  · rw [getPhysicalBlock, getPhysicalBlock, if_pos hgood, if_pos (good hr hgood)]
  · have hsearch : (List.range c'.spareused.toNat).find?
        (fun i => (c'.remaptable i).toNat = v) =
        (List.range c.spareused.toNat).find? fun i => (c.remaptable i).toNat = v := by
      have hlast : List.find? (fun i => decide ((c'.remaptable i).toNat = v))
          [c.spareused.toNat] = none := by
        simp [entry_new h hr, Ne.symm hne]
      rw [spareused h hr, List.range_succ, List.find?_append, hlast, Option.or_none]
      refine find?_congr fun i hi => ?_
      rw [decide_eq_decide, entry_used h hr (List.mem_range.1 hi) hvlt]
      simp [hne]
    rw [getPhysicalBlock, getPhysicalBlock, if_neg hgood, hsearch, hfirst]
    by_cases hold : c.isGoodBlock v = true
    · -- Its bit was cleared along with the remapped block's, but it has no entry.
      have hnone : (List.range c.spareused.toNat).find?
          (fun i => (c.remaptable i).toNat = v) = none := by
        rw [List.find?_range_eq_none]
        intro i hi
        have hcl := h.cleared i hi v hv hvlt
        by_contra hc
        have hc : (c.remaptable i).toNat = v := by simpa using hc
        rw [hcl hc] at hold
        cases hold
      rw [hnone, if_pos hold]
    · rw [if_neg hold]

/-- The spare block that is taken was not in use. -/
theorem not_in_use {v : Nat} (hv : first ≤ v) : c.getPhysicalBlock v ≠ newblock := by
  have hspare := hr.spare_lt
  have hle := h.spares_le
  rw [hr.newblock_eq, getPhysicalBlock]
  split
  · omega
  · split
    · rename_i i hi
      have := List.mem_range.1 (List.mem_of_find?_eq_some hi)
      omega
    · omega

theorem kept (hb : first ≤ b) (hfirst : 0 < first) : c'.Kept first blocks := by
  have hroom := hr.room
  have hused := spareused h hr
  have hsame : c'.firstspare = c.firstspare ∧ c'.sparecount = c.sparecount ∧
      c'.scheduledstart = c.scheduledstart := by
    rw [hr.cxt_eq]
    exact ⟨rfl, rfl, rfl⟩
  obtain ⟨hf, hc, hs⟩ := hsame
  refine ⟨h.blocks_lt, ?_, ?_, ?_, ?_, ?_, ?_, ?_, ?_, ?_⟩
  · rw [hf]
    exact h.firstspare_pos
  · rw [hf, hc]
    exact h.spares_le
  · rw [hc]
    exact h.sparecount_le
  · rw [hused, hs]
    exact hroom
  · rw [hs]
    exact h.start_le
  · intro i hi hzero
    have hzero : (c'.remaptable i).toNat = 0 := by rw [hzero]; rfl
    by_cases hin : i = c.spareused.toNat
    · rw [hin, entry_new h hr] at hzero
      omega
    · have hi : i < c.spareused.toNat := by omega
      have hlt := hr.block_lt
      have h0 := (entry_used h hr hi (v := 0) (by omega)).1 hzero
      exact h.used i hi (BitVec.eq_of_toNat_eq h0.1)
  · intro i hi hlt
    rw [hs] at hlt
    rw [entry_other hr (by omega)]
    exact h.unused i (by omega) hlt
  · intro i hi hlt
    rw [hs] at hi
    rw [entry_other hr (by omega)]
    exact h.scheduled i hi hlt
  · intro i hi v hv hvlt hentry
    by_cases hgood : c'.isGoodBlock v = true
    · by_cases hin : i = c.spareused.toNat
      · rw [hin, entry_new h hr] at hentry
        rw [← hentry]
        exact bad_self hr
      · have hi : i < c.spareused.toNat := by omega
        have hold := (entry_used h hr hi hvlt).1 hentry
        have hbad := h.cleared i hi v hv hvlt hold.1
        rw [good hr hgood] at hbad
        cases hbad
    · exact Bool.eq_false_iff.2 hgood

end Remapped

theorem fresh_kept : fresh.Kept 33 1024 where
  blocks_lt := by decide
  firstspare_pos := by decide
  spares_le := by decide
  sparecount_le := by decide
  used_le := by decide
  start_le := by decide
  used := fun i hi => absurd hi (Nat.not_lt_zero i)
  unused := fun _ _ _ => rfl
  scheduled := fun i hi hlt => absurd hlt (Nat.not_lt.2 hi)
  cleared := fun i hi => absurd hi (Nat.not_lt_zero i)

theorem fresh_physical (v : Nat) : fresh.getPhysicalBlock v = v := by
  rw [getPhysicalBlock]
  split
  · rfl
  · rfl

/-- A context whose first entry is in use though none is counted: the spare block that a remap
takes is not looked up. -/
def miscounted : RemapCxt := { fresh with remaptable := fun i => if i = 0 then 7 else 0 }

theorem miscounted_physical (v : Nat) : miscounted.getPhysicalBlock v = v := by
  rw [getPhysicalBlock]
  split
  · rfl
  · rfl

end Remap

end RemapCxt

end Freemyipod.Vfl
