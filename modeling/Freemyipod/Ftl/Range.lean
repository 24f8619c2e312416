import Freemyipod.Ftl.Read

/-!
# Ftl.Range

The range check of `ftl_read` and `ftl_write`, whose sum wraps, and the logical blocks that the
calls then look up in `ftl_map`.

* `LogFree`: an operation leaves the log alone and looks up no block past the end of the map.
* `InMap`: the log entries in use, and the one at hand, are for logical blocks that there are. The
  other operations keep this.
* `range_iff`: both calls keep to the map exactly if the sum does not wrap, or does so to one that
  is refused.
-/

namespace Freemyipod
namespace Ftl

open Effect

variable {α β : Type} {d : Device} {s t : State α}

/-- Stopped for another reason than a look-up past the end of the map. -/
def Confined (f : Fault) : Prop := f ≠ .outside

instance (f : Fault) : Decidable (Confined f) := inferInstanceAs (Decidable (f ≠ .outside))

/-- `p` leaves the log alone, and looks up no block past the end of the map. -/
def LogFree (p : Op α β) : Prop := ∀ l, Keeps Confined (fun s : State α => s.log = l) p

/-- What is true of the log stays true. -/
theorem LogFree.keeps {p : Op α β} (h : LogFree p) (P : (Nat → LogEntry) → Prop) :
    Keeps Confined (fun s : State α => P s.log) p :=
  fun s hs => (h s.log s rfl).mono fun _ t ht => by
    show P t.log
    rw [show t.log = s.log from ht]
    exact hs

theorem faultIf_free {c : Prop} [Decidable c] {f : Fault} (hf : Confined f) :
    LogFree (faultIf c f : Op α Unit) :=
  fun _ => Keeps.ite (fun _ => Keeps.throw hf) fun _ => Keeps.pure ()

/-! ## Operations that leave the log alone -/

section Free

theorem programPage_free (vpage : Nat) (data : Payload α) (spare : Spare) :
    LogFree (programPage vpage data spare) := by
  intro l
  refine Keeps.get fun s hs => ?_
  cases s.nand vpage with
  | some p => exact Keeps.throw (by decide)
  | none => exact Keeps.set hs

theorem vflWrite_free (vpage count : Nat) (buffer : Nat → Payload α) (spare : Nat → Spare) :
    LogFree (vflWrite d vpage count buffer spare) := fun l =>
  Keeps.ite (fun _ => Keeps.pure 4) fun _ =>
    (Keeps.loop fun _ _ => programPage_free _ _ _ l).bind fun _ => Keeps.pure 0

theorem eraseBlock_free (block : Nat) : LogFree (eraseBlock d block : Op α Nat) := by
  intro l
  have hinternal : Keeps Confined (fun s : State α => s.log = l) (eraseBlockInternal d block) :=
    Keeps.ite (fun _ => Keeps.pure 1) fun _ => Keeps.bind (Keeps.modify fun _ hs => hs) fun _ =>
      Keeps.pure 0
  refine Keeps.bind (Keeps.modify fun _ hs => hs) fun _ => Keeps.get fun s hs => ?_
  exact Keeps.ite (fun _ => Keeps.bind (Keeps.set hs) fun _ => hinternal) fun _ =>
    Keeps.bind (Keeps.set hs) fun _ => hinternal

theorem allocatePoolBlock_free : LogFree (allocatePoolBlock d : Op α (Option Nat)) := by
  intro l
  have htail : ∀ block, Keeps Confined (fun s : State α => s.log = l) (do
      faultIf (d.vblocks < block) .panic
      if (← eraseBlock d block) ≠ 0 then
        return none
      else
        modify (State.modifyCxt fun c => { c with
          nextfreeidx := if c.nextfreeidx + 1 = 0x14 then 0 else c.nextfreeidx + 1
          freecount := c.freecount - 1 })
        return some block) := fun block =>
    (faultIf_free (by decide) l).bind fun _ => (eraseBlock_free block l).bind fun r =>
      Keeps.ite (fun _ => Keeps.pure none) fun _ =>
        Keeps.bind (Keeps.modify fun _ hs => hs) fun _ => Keeps.pure (some block)
  refine Keeps.get fun s _ => (faultIf_free (by decide) l).bind fun _ => ?_
  exact Keeps.ite (fun _ => Keeps.bind (Keeps.modify fun _ hs => hs) fun _ => htail _) fun _ => htail _

theorem releasePoolBlock_free (block : Nat) :
    LogFree (releasePoolBlock d block : Op α Unit) := by
  intro l
  refine (faultIf_free (by decide) l).bind fun _ => Keeps.get fun s hs => ?_
  exact (faultIf_free (by decide) l).bind fun _ => Keeps.set hs

theorem storeCtrlBlockList_free : LogFree (storeCtrlBlockList d : Op α Nat) := fun _ =>
  Keeps.bind (Keeps.modify fun _ hs => hs) fun _ => Keeps.get fun _ _ =>
    Keeps.bind (Keeps.modify fun _ hs => hs) fun _ => Keeps.pure 0

theorem saveErasectrPage_free (index : Nat) : LogFree (saveErasectrPage d index : Op α Nat) := by
  intro l
  refine Keeps.get fun s _ => (vflWrite_free _ _ _ _ l).bind fun rc => Keeps.get fun t ht => ?_
  exact Keeps.ite (fun _ => Keeps.pure 1) fun _ => Keeps.bind (Keeps.set ht) fun _ => Keeps.pure 0

theorem moveErasectrPage_free (oldblock newblock i : Nat) :
    LogFree (moveErasectrPage d oldblock newblock i : Op α (Option Nat)) := by
  intro l
  refine Keeps.get fun s hs => Keeps.ite (fun _ => ?_) fun _ => Keeps.pure none
  refine Keeps.bind (Keeps.set hs) fun _ => (saveErasectrPage_free i l).bind fun r => ?_
  exact Keeps.ite (fun _ => Keeps.bind (Keeps.modify fun _ hs => hs) fun _ =>
      (releasePoolBlock_free newblock l).bind fun _ => Keeps.pure (some 1)) fun _ =>
    Keeps.bind (Keeps.modify fun _ hs => hs) fun _ => Keeps.pure none

theorem nextCtrlPoolPage_free : LogFree (nextCtrlPoolPage d : Op α Nat) := by
  intro l
  have hstart : Keeps Confined (fun s : State α => s.log = l) (startCtrlBlock d) := by
    refine Keeps.get fun s _ => (allocatePoolBlock_free l).bind fun r => ?_
    cases r with
    | none => exact Keeps.pure 1
    | some newblock =>
      refine Keeps.bind (Keeps.modify fun _ hs => hs) fun _ =>
        (Keeps.loopUntil fun i _ _ => moveErasectrPage_free _ _ i l).bind fun r => ?_
      cases r with
      | some rc => exact Keeps.pure rc
      | none => exact (releasePoolBlock_free _ l).bind fun _ => storeCtrlBlockList_free l
  refine Keeps.bind (Keeps.modify fun _ hs => hs) fun _ => Keeps.get fun s _ => ?_
  exact Keeps.ite (fun _ => Keeps.pure 0) fun _ => hstart

theorem readSectors_free {sector count : Nat} (hrange : sector + count ≤ d.sectors)
    (buffer : Nat → Payload α) : LogFree (readSectors d sector count buffer) := by
  intro l
  refine Keeps.get fun s _ => Keeps.bind (Keeps.ite (fun hc => ?_) fun _ => Keeps.pure ()) fun _ =>
    Keeps.pure _
  obtain ⟨-, block, hmem, hle⟩ := hc
  have hlt := readBlocks_lt hrange count 0 block hmem
  omega

theorem mapAt_free {block : Nat} (hb : block < d.type.userblocks) :
    LogFree (mapAt d block : Op α Nat) := fun _ =>
  (Keeps.ite (fun hc => absurd hb (Nat.not_lt.2 hc)) fun _ => Keeps.pure ()).bind fun _ =>
    Keeps.get fun _ _ => Keeps.pure _

theorem setMap_free {block : Nat} (hb : block < d.type.userblocks) (vblock : Nat) :
    LogFree (setMap d block vblock : Op α Unit) := fun _ =>
  (Keeps.ite (fun hc => absurd hb (Nat.not_lt.2 hc)) fun _ => Keeps.pure ()).bind fun _ =>
    Keeps.modify fun _ hs => hs

theorem copyPage_free (source destination lpn type : Nat) :
    LogFree (copyPage d source destination lpn type : Op α Nat) := fun l =>
  Keeps.get fun _ hs => Keeps.bind (Keeps.set hs) fun _ => vflWrite_free _ _ _ _ l

theorem copyBlock_free {source : Nat} (hl : source < d.type.userblocks) (destination : Nat) :
    LogFree (copyBlock d source destination : Op α Nat) := by
  intro l
  have hppb := d.ppb_cases
  have hsize : copybufSize = 4 := rfl
  have hgroup : ∀ i, i + copybufSize ≤ d.ppb → Keeps Confined (fun s : State α => s.log = l)
      (copyGroup d source destination i) := by
    intro i hi
    have hlast := Device.page_lt (d := d) (k := i + 3) hl (by omega)
    have hrange : source * d.ppb + i + copybufSize ≤ d.sectors := by
      show _ ≤ d.type.userblocks * d.ppb
      omega
    exact Keeps.get fun s _ => (readSectors_free hrange _ l).bind fun r =>
      (vflWrite_free _ _ _ _ l).bind fun rc => Keeps.pure _
  refine Keeps.bind (Keeps.modify fun _ hs => hs) fun _ =>
    (Keeps.loopUntil fun j _ hj => hgroup _ (by rw [hsize] at hj ⊢; omega)).bind fun r => ?_
  cases r with
  | some _ => exact (eraseBlock_free destination l).bind fun _ => Keeps.pure 1
  | none => exact Keeps.pure 0

theorem commitTries_free {logical : Nat} (hl : logical < d.type.userblocks) (n : Nat) :
    LogFree (commitTries d logical n : Op α (Option Nat)) := by
  intro l
  induction n with
  | zero => exact Keeps.pure none
  | succ n ih =>
    refine (allocatePoolBlock_free l).bind fun r => ?_
    cases r with
    | none => exact Keeps.pure none
    | some block =>
      refine (copyBlock_free hl block l).bind fun rc => ?_
      exact Keeps.ite (fun _ => Keeps.pure (some block)) fun _ =>
        (releasePoolBlock_free block l).bind fun _ => ih

/-- The search of `ftl_swap_blocks` stays below the end of the map. -/
theorem wearMap_lt (s : State α) (w : Wear) (hw : w.minidx < d.type.userblocks) :
    ∀ n ≤ d.type.userblocks, (s.wearMap w n).minidx < d.type.userblocks := by
  intro n
  induction n with
  | zero => exact fun _ => hw
  | succ n ih =>
    intro hn
    have hprev := ih (by omega)
    have hraise : ∀ c : Nat, (if (s.wearMap w n).max < c then { s.wearMap w n with max := c }
        else s.wearMap w n).minidx = (s.wearMap w n).minidx := fun c => by split <;> rfl
    have hstep : ∃ v : Wear, v.minidx = (s.wearMap w n).minidx ∧ s.wearMap w (n + 1) =
        if s.getLogEntry n ≠ none then v
        else if (s.erasectr (s.map n)).toNat < v.min then
          { v with minidx := n, minvb := s.map n, min := (s.erasectr n).toNat }
        else v := ⟨_, hraise _, rfl⟩
    obtain ⟨v, hv, hstep⟩ := hstep
    rw [← hv] at hprev
    rw [hstep]
    split
    · exact hprev
    · split
      · show n < _
        omega
      · exact hprev

theorem wearPool_minidx (s : State α) (n : Nat) : (s.wearPool n).minidx = 0 := by
  induction n with
  | zero => rfl
  | succ n ih =>
    rw [State.wearPool]
    split
    · exact ih
    · exact ih

theorem swapBlocks_free : LogFree (swapBlocks d : Op α Nat) := by
  intro l
  refine Keeps.get fun s _ => Keeps.ite (fun _ => Keeps.pure 0) fun _ => ?_
  have hpos : 0 < d.type.userblocks := by
    have := d.userblocks_cases
    omega
  have hmin := wearMap_lt (d := d) s (s.wearPool s.cxt.freecount)
    (by rw [wearPool_minidx]; exact hpos) d.type.userblocks le_rfl
  refine Keeps.ite (fun _ => Keeps.pure 0) fun _ => Keeps.ite (fun _ => Keeps.pure 0) fun _ => ?_
  refine (eraseBlock_free _ l).bind fun r => Keeps.ite (fun _ => Keeps.pure 1) fun _ => ?_
  refine (copyBlock_free hmin _ l).bind fun r => Keeps.ite (fun _ => Keeps.pure 1) fun _ => ?_
  exact Keeps.bind (Keeps.modify fun _ hs => hs) fun _ => (setMap_free hmin _ l).bind fun _ =>
    Keeps.pure 0

theorem markDirty_free : LogFree (markDirty d : Op α Int) := by
  intro l
  have htries : ∀ n, Keeps Confined (fun s : State α => s.log = l) (markDirtyTries d n) := by
    intro n
    induction n with
    | zero => exact Keeps.pure (-4)
    | succ n ih =>
      refine (nextCtrlPoolPage_free l).bind fun r => Keeps.ite (fun _ => Keeps.pure (-3)) fun _ => ?_
      refine Keeps.get fun s _ => (vflWrite_free _ _ _ _ l).bind fun rc => ?_
      exact Keeps.ite (fun _ => Keeps.bind (Keeps.modify fun _ hs => hs) fun _ => Keeps.pure 0) fun _ => ih
  exact Keeps.get fun _ _ => Keeps.ite (fun _ => htries 3) fun _ => Keeps.pure 0

theorem swapTries_free (n : Nat) : LogFree (swapTries d n : Op α Bool) := by
  intro l
  induction n with
  | zero => exact Keeps.pure false
  | succ n ih =>
    exact (swapBlocks_free l).bind fun r => Keeps.ite (fun _ => Keeps.pure true) fun _ => ih

theorem writeEpilogue_free : LogFree (writeEpilogue d : Op α Unit) := by
  intro l
  have hsave : Keeps Confined (fun s : State α => s.log = l) (loop 8 fun i => do
      let s ← get
      if 100 ≤ s.erasectrDirt i then
        let _ ← nextCtrlPoolPage d
        let _ ← saveErasectrPage d i) :=
    Keeps.loop fun i _ => Keeps.get fun s _ => Keeps.ite (fun _ => (nextCtrlPoolPage_free l).bind
      fun _ => (saveErasectrPage_free i l).bind fun _ => Keeps.pure ()) fun _ => Keeps.pure ()
  have htail : Keeps Confined (fun s : State α => s.log = l) (do
      let s ← get
      if s.cxt.erasedirty = 1 then
        set (s.modifyCxt fun c => { c with erasedirty := 0 })
        loop 8 fun i => do
          let s ← get
          if 100 ≤ s.erasectrDirt i then
            let _ ← nextCtrlPoolPage d
            let _ ← saveErasectrPage d i) :=
    Keeps.get fun s hs => Keeps.ite (fun _ => Keeps.bind (Keeps.set hs) fun _ => hsave) fun _ =>
      Keeps.pure ()
  refine Keeps.get fun s hs => Keeps.ite (fun _ => ?_) fun _ => htail
  exact Keeps.bind (Keeps.set hs) fun _ => (swapTries_free 4 l).bind fun _ => htail

end Free

/-! ## Operations on the log -/

/-- The entries in use are for logical blocks that there are. -/
def LogOk (d : Device) (l : Nat → LogEntry) : Prop :=
  ∀ i < 0x11, (l i).Used → (l i).logicalvblock < d.type.userblocks

/-- So is the entry at hand, in use or not. -/
structure InMap (d : Device) (e : Nat) (l : Nat → LogEntry) : Prop where
  log : LogOk d l
  hand : (l e).logicalvblock < d.type.userblocks

theorem InMap.upd {e : Nat} {l : Nat → LogEntry} (h : InMap d e l) {x : LogEntry}
    (hx : x.logicalvblock < d.type.userblocks) : InMap d e (upd l e x) := by
  refine ⟨fun i hi hu => ?_, by rw [upd_self]; exact hx⟩
  by_cases hie : i = e
  · rw [hie, upd_self]
    exact hx
  · rw [upd_ne _ _ hie] at hu ⊢
    exact h.log i hi hu

section Log

variable {e : Nat}

theorem InMap.modify {f : LogEntry → LogEntry}
    (hf : ∀ x, (f x).logicalvblock = x.logicalvblock) :
    Keeps Confined (fun s : State α => InMap d e s.log)
      (modify (State.modifyLog e f) : Op α PUnit) :=
  Keeps.modify fun s hs => hs.upd (by rw [hf]; exact hs.hand)

/-- An operation that leaves the log alone, with the entry at hand. -/
theorem LogFree.inMap {p : Op α β} (h : LogFree p) :
    Keeps Confined (fun s : State α => InMap d e s.log) p := h.keeps _

theorem compactScattered_keeps : Keeps Confined (fun s : State α => InMap d e s.log)
    (compactScattered d e) := by
  have hpage : ∀ old block j, Keeps Confined (fun s : State α => InMap d e s.log)
      (compactPage d e old block j) := by
    intro old block j
    refine Keeps.get fun s _ => Keeps.ite (fun _ => Keeps.pure none) fun _ => ?_
    refine (copyPage_free _ _ _ _).inMap.bind fun r => Keeps.ite (fun _ => Keeps.pure (some 1))
      fun _ => Keeps.bind (InMap.modify fun x => ?_) fun _ => Keeps.pure none
    unfold LogEntry.checkStillSequential
    split <;> rfl
  have htries : ∀ (backup : LogEntry), backup.logicalvblock < d.type.userblocks → ∀ n,
      Keeps Confined (fun s : State α => InMap d e s.log) (compactTries d e backup n) := by
    intro backup hb n
    induction n with
    | zero => exact Keeps.pure 1
    | succ n ih =>
      refine allocatePoolBlock_free.inMap.bind fun r => ?_
      cases r with
      | none => exact Keeps.pure 1
      | some block =>
        refine Keeps.bind (InMap.modify fun _ => rfl) fun _ =>
          Keeps.bind (Keeps.loopUntil fun j _ _ => hpage _ _ j) fun error => Keeps.get fun s _ => ?_
        exact Keeps.ite (fun _ => (releasePoolBlock_free _).inMap.bind fun _ => Keeps.pure 0)
          fun _ => Keeps.bind (Keeps.modify fun _ hs => hs.upd hb) fun _ => ih
  refine Keeps.get fun s hs => Keeps.ite (fun _ => ?_) fun _ => htries _ hs.hand 4
  exact (releasePoolBlock_free _).inMap.bind fun _ =>
    Keeps.bind (InMap.modify fun _ => rfl) fun _ => Keeps.pure 0

theorem commitScattered_keeps : Keeps Confined (fun s : State α => InMap d e s.log)
    (commitScattered d e) := by
  refine Keeps.get fun s hs => (commitTries_free hs.hand 4).inMap.bind fun r => ?_
  cases r with
  | none => exact Keeps.pure 1
  | some block =>
    refine (releasePoolBlock_free _).inMap.bind fun _ =>
      Keeps.bind (InMap.modify fun _ => rfl) fun _ => (mapAt_free hs.hand).inMap.bind fun old => ?_
    exact (releasePoolBlock_free old).inMap.bind fun _ =>
      (setMap_free hs.hand block).inMap.bind fun _ => Keeps.pure 0

theorem commitSequential_keeps : Keeps Confined (fun s : State α => InMap d e s.log)
    (commitSequential d e) := by
  have hloop : ∀ n, Keeps Confined (fun s : State α => InMap d e s.log)
      (commitSequentialLoop d e n) := by
    intro n
    induction n with
    | zero => exact Keeps.throw (by decide)
    | succ n ih =>
      refine Keeps.get fun s hs => Keeps.ite (fun hn => ?_) fun _ => ?_
      · refine Keeps.ite (fun _ => commitScattered_keeps) fun _ => ?_
        have hsize : copybufSize = 4 := rfl
        have hlast := Device.page_lt (d := d)
          (k := (s.log e).pagesused + min copybufSize (d.ppb - (s.log e).pagesused) - 1) hs.hand
          (by omega)
        have hrange : (s.log e).logicalvblock * d.ppb + (s.log e).pagesused +
            min copybufSize (d.ppb - (s.log e).pagesused) ≤ d.sectors := by
          show _ ≤ d.type.userblocks * d.ppb
          omega
        refine (readSectors_free hrange _).inMap.bind fun r => Keeps.bind (Keeps.set hs) fun _ =>
          (vflWrite_free _ _ _ _).inMap.bind fun rc => ?_
        exact Keeps.ite (fun _ => commitScattered_keeps) fun _ =>
          Keeps.bind (InMap.modify fun _ => rfl) fun _ => ih
      · refine (mapAt_free hs.hand).inMap.bind fun old => (releasePoolBlock_free old).inMap.bind
          fun _ => (setMap_free hs.hand _).inMap.bind fun _ => ?_
        exact Keeps.bind (InMap.modify fun _ => rfl) fun _ => Keeps.pure 0
  exact Keeps.get fun s _ => Keeps.ite (fun _ => Keeps.pure 1) fun _ => hloop _

theorem commitEntry_keeps : Keeps Confined (fun s : State α => InMap d e s.log)
    (commitEntry d e) :=
  Keeps.bind (Keeps.modify fun _ hs => hs) fun _ => Keeps.get fun _ _ =>
    Keeps.ite (fun _ => commitSequential_keeps) fun _ => commitScattered_keeps

theorem removeEntry_keeps : Keeps Confined (fun s : State α => InMap d e s.log)
    (removeScatteredBlock d (some e)) :=
  Keeps.get fun _ _ => Keeps.ite (fun _ => Keeps.bind (Keeps.modify fun _ hs => hs) fun _ =>
    compactScattered_keeps) fun _ => commitEntry_keeps

/-- The entry that the search of `ftl_remove_scattered_block` finds is in use. -/
theorem oldest_used (s : State α) : ∀ n o, s.oldest n = some o → ∀ e, o.entry = some e →
    e < n ∧ (s.log e).Used := by
  intro n
  induction n with
  | zero =>
    intro o ho e he
    cases ho
    cases he
  | succ n ih =>
    intro o ho e he
    rw [State.oldest] at ho
    cases hprev : s.oldest n with
    | none =>
      rw [hprev] at ho
      cases ho
    | some q =>
      have hq := ih q hprev
      rw [hprev] at ho
      dsimp only at ho
      split at ho
      · obtain rfl : q = o := Option.some.inj ho
        exact ⟨by have := (hq e he).1; omega, (hq e he).2⟩
      · split at ho
        · cases ho
        · split at ho
          · rw [← Option.some.inj ho] at he
            obtain rfl : n = e := Option.some.inj he
            exact ⟨Nat.lt_succ_self n, by tauto⟩
          · obtain rfl : q = o := Option.some.inj ho
            exact ⟨by have := (hq e he).1; omega, (hq e he).2⟩

theorem removeOldest_keeps : Keeps Confined (fun s : State α => LogOk d s.log)
    (removeScatteredBlock d none) := by
  intro s hs
  simp only [removeScatteredBlock, ends_bind, ends_get]
  cases ho : s.oldest 0x11 with
  | none => exact (ends_pure _).2 hs
  | some o =>
    cases he : o.entry with
    | none =>
      simp only [he]
      exact (ends_pure _).2 hs
    | some e =>
      obtain ⟨hlt, hu⟩ := oldest_used s 0x11 o ho e he
      simp only [he]
      exact (commitEntry_keeps s ⟨hs, hs e hlt hu⟩).mono fun _ _ ht => ht.log

/-- What `ftl_allocate_log_entry` returns, if anything, is an entry for a logical block that there
is. -/
def Handed (d : Device) (r : Option Nat) (l : Nat → LogEntry) : Prop :=
  LogOk d l ∧ ∀ e, r = some e → InMap d e l

variable {block : Nat}

theorem openLogEntry_ends (hb : block < d.type.userblocks)
    (hs : ∀ i < 0x11, i ≠ e → (s.log i).Used → (s.log i).logicalvblock < d.type.userblocks) :
    Ends Confined (openLogEntry e block) s fun r t => Handed d r t.log := by
  simp only [openLogEntry, ends_bind, ends_modify, ends_pure]
  have hin : InMap d e (State.modifyLog e (fun x =>
      { x with logicalvblock := block, usn := s.cxt.nextblockusn - 1 })
        (State.modifyLog e LogEntry.init s)).log := by
    refine ⟨fun i hi hu => ?_, ?_⟩
    · by_cases hie : i = e
      · rw [hie, show (State.modifyLog e _ _).log e = _ from upd_self _ _ _]
        exact hb
      · rw [show (State.modifyLog e _ _).log i = _ from upd_ne _ _ hie,
          show (State.modifyLog e _ _).log i = _ from upd_ne _ _ hie] at hu ⊢
        exact hs i hi hie hu
    · rw [show (State.modifyLog e _ _).log e = _ from upd_self _ _ _]
      exact hb
  refine ⟨hin.log, fun e' he' => ?_⟩
  rw [← Option.some.inj he']
  exact hin

theorem openSlot_ends (hb : block < d.type.userblocks) (hs : LogOk d s.log) :
    Ends Confined (openSlot d block) s fun r t => Handed d r t.log := by
  simp only [openSlot, ends_bind, ends_get]
  cases hfind : (List.range 0x11).find? fun i => ¬ (s.log i).Used with
  | none => exact ends_throw.2 (by decide)
  | some e =>
    simp only [ends_bind, ends_modify]
    refine (allocatePoolBlock_free s.log s rfl).mono fun r t ht => ?_
    have hother : ∀ f : LogEntry → LogEntry, ∀ i < 0x11, i ≠ e →
        ((State.modifyLog e f t).log i).Used →
        ((State.modifyLog e f t).log i).logicalvblock < d.type.userblocks := by
      intro f i hi hie hu
      rw [show (State.modifyLog e f t).log i = t.log i from upd_ne _ _ hie,
        show t.log = s.log from ht] at hu ⊢
      exact hs i hi hu
    cases r with
    | none =>
      rw [ends_pure]
      refine ⟨fun i hi hu => ?_, fun e' he' => by cases he'⟩
      by_cases hie : i = e
      · rw [hie] at hu
        exact absurd (congrArg LogEntry.scatteredvblock (upd_self t.log e _)) hu
      · exact hother _ i hi hie hu
    | some b => exact openLogEntry_ends hb (hother _)

theorem allocateLogEntry_ends (hb : block < d.type.userblocks) (hs : LogOk d s.log) :
    Ends Confined (allocateLogEntry d block) s fun r t => Handed d r t.log := by
  simp only [allocateLogEntry, ends_bind, ends_get]
  cases hg : s.getLogEntry block with
  | some e =>
    obtain ⟨-, -, hl⟩ := State.getLogEntry_some hg
    have hin : InMap d e s.log := ⟨hs, by rw [hl]; exact hb⟩
    simp only [ends_bind, ends_modify, ends_pure]
    have hnew : InMap d e (State.modifyLog e (fun x =>
        { x with usn := s.cxt.nextblockusn - 1 }) s).log := hin.upd hin.hand
    refine ⟨hnew.log, fun e' he' => ?_⟩
    rw [← Option.some.inj he']
    exact hnew
  | none =>
    cases hfind : (List.range 0x11).find? fun i => (s.log i).Used ∧ (s.log i).pagesused = 0 with
    | some e => exact openLogEntry_ends hb fun i hi _ hu => hs i hi hu
    | none =>
      have htail : ∀ rc : Nat, ∀ t : State α, LogOk d t.log →
          Ends Confined (if rc ≠ 0 then pure none else openSlot d block) t fun r u =>
            Handed d r u.log := by
        intro rc t ht
        rw [ends_ite]
        exact ⟨fun _ => (ends_pure _).2 ⟨ht, fun e he => by cases he⟩, fun _ => openSlot_ends hb ht⟩
      simp only [ends_bind]
      refine (faultIf_free (by decide) s.log s rfl).mono fun _ t ht => ?_
      rw [← show t.log = s.log from ht] at hs
      rw [ends_ite, ends_bind, ends_bind, ends_pure]
      exact ⟨fun _ => (removeOldest_keeps t hs).mono fun rc u hu => htail rc u hu,
        fun _ => htail 0 t hs⟩

end Log

/-! ## Writing -/

section Write

variable {w : Request α} {i : Nat}

/-- What a turn of the loop in `ftl_write` leaves. -/
def Turned (d : Device) (r : Turn) (l : Nat → LogEntry) : Prop :=
  LogOk d l ∧ ∀ e cnt, r = .next e cnt → InMap d e l

theorem Turned.stop {code : Int} {l : Nat → LogEntry} (h : LogOk d l) :
    Turned d (.stop code) l := ⟨h, fun e cnt he => by cases he⟩

theorem Turned.next {e cnt : Nat} {l : Nat → LogEntry} (h : InMap d e l) :
    Turned d (.next e cnt) l := by
  refine ⟨h.log, fun e' cnt' he => ?_⟩
  cases he
  exact h

theorem writeGroup_free (vblock i j : Nat) : LogFree (writeGroup d w vblock i j) := fun l =>
  Keeps.get fun _ _ => (vflWrite_free _ _ _ _ l).bind fun _ => Keeps.loop fun _ _ =>
    Keeps.ite (fun _ => (vflWrite_free _ _ _ _ l).bind fun _ => faultIf_free (by decide) l) fun _ =>
      Keeps.pure ()

theorem writeWhole_ends {e : Nat} (hb : wrap (w.sector + i) / d.ppb < d.type.userblocks)
    (hs : InMap d e s.log) :
    Ends Confined (writeWhole d w e i) s fun r t => Turned d r t.log := by
  have hwritten : ∀ vblock, Keeps Confined (fun s : State α => InMap d e s.log) (do
      modify (State.modifyCxt fun c => { c with nextblockusn := c.nextblockusn + 1 })
      loop ((d.ppb + writespareSize - 1) / writespareSize) fun t =>
        writeGroup d w vblock i (t * writespareSize)
      releasePoolBlock d (← mapAt d (wrap (w.sector + i) / d.ppb))
      setMap d (wrap (w.sector + i) / d.ppb) vblock) := fun vblock =>
    Keeps.bind (Keeps.modify fun _ hs => hs) fun _ =>
      Keeps.bind (Keeps.loop fun t _ => (writeGroup_free vblock i _).inMap) fun _ =>
        (mapAt_free hb).inMap.bind fun old => (releasePoolBlock_free old).inMap.bind fun _ =>
          (setMap_free hb vblock).inMap
  have htail : ∀ (vblock : Nat) (t : State α), InMap d e t.log → Ends Confined (do
      modify (State.modifyCxt fun c => { c with nextblockusn := c.nextblockusn + 1 })
      loop ((d.ppb + writespareSize - 1) / writespareSize) fun t =>
        writeGroup d w vblock i (t * writespareSize)
      releasePoolBlock d (← mapAt d (wrap (w.sector + i) / d.ppb))
      setMap d (wrap (w.sector + i) / d.ppb) vblock
      return Turn.next e d.ppb) t fun r u => Turned d r u.log := by
    intro vblock t ht
    have h := hwritten vblock t ht
    simp only [ends_bind, ends_pure] at h ⊢
    refine h.mono fun _ u hu => hu.mono fun _ u hu => hu.mono fun _ u hu => hu.mono fun _ u hu =>
      hu.mono fun _ u hu => .next hu
  simp only [writeWhole, ends_bind, ends_get, ends_modify]
  have hin : InMap d e (State.modifyLog e (fun x => { x with scatteredvblock := 0xFFFF }) s).log :=
    hs.upd hs.hand
  rw [ends_ite, ends_bind, ends_bind, ends_pure]
  refine ⟨fun _ => ((releasePoolBlock_free _).inMap _ hin).mono fun _ t ht => ?_,
    fun _ => htail _ _ hin⟩
  rw [ends_bind]
  refine (allocatePoolBlock_free.inMap t ht).mono fun r u hu => ?_
  cases r with
  | none => exact (ends_pure _).2 (.stop hu.log)
  | some vblock => exact htail vblock u hu

theorem writePages_ends {e : Nat} (hs : InMap d e s.log) :
    Ends Confined (writePages d w e i) s fun r t => Turned d r t.log := by
  have hnote : ∀ page cnt j x, (LogEntry.noteWritten page cnt j x).logicalvblock =
      x.logicalvblock := by
    intro page cnt j x
    unfold LogEntry.noteWritten
    dsimp only
    split <;> split <;> rfl
  simp only [writePages, ends_bind, ends_get, ends_modify]
  refine ((vflWrite_free _ _ _ _).inMap (d := d) (e := e) _ ?_).mono fun rc t ht => ?_
  · exact hs.upd hs.hand
  refine ((faultIf_free (by decide)).inMap t ht).mono fun _ u hu => ?_
  refine (Keeps.loop (fun j _ => InMap.modify (hnote _ _ j)) u hu).mono fun _ v hv => ?_
  exact (ends_pure _).2 (.next hv)

theorem writePart_ends {e : Nat} (hb : wrap (w.sector + i) / d.ppb < d.type.userblocks)
    (hs : InMap d e s.log) :
    Ends Confined (writePart d w e i) s fun r t => Turned d r t.log := by
  simp only [writePart, ends_bind, ends_get]
  rw [ends_ite]
  refine ⟨fun _ => ?_, fun _ => writePages_ends hs⟩
  rw [ends_bind]
  refine (removeEntry_keeps s hs).mono fun _ t ht => ?_
  rw [ends_bind]
  refine (allocateLogEntry_ends hb ht.log).mono fun r u hu => ?_
  cases r with
  | none => exact (ends_pure _).2 (.stop hu.1)
  | some e' => exact writePages_ends (hu.2 e' rfl)

theorem writeTurn_ends (hb : wrap (w.sector + i) / d.ppb < d.type.userblocks)
    (hs : LogOk d s.log) :
    Ends Confined (writeTurn d w i) s fun _ t => LogOk d t.log := by
  simp only [writeTurn, ends_bind]
  refine (allocateLogEntry_ends hb hs).mono fun r t ht => ?_
  cases r with
  | none => exact (ends_pure _).2 ht.1
  | some e =>
    have htail : ∀ (e cnt : Nat) (u : State α), InMap d e u.log → Ends Confined (do
        let s ← get
        if (s.log e).pagesused = d.ppb then
          let _ ← removeScatteredBlock d (some e)
        return Turn.next e cnt) u fun _ v => LogOk d v.log := by
      intro e cnt u hu
      simp only [ends_bind, ends_get]
      rw [ends_ite]
      refine ⟨fun _ => ?_, fun _ => (ends_pure _).2 hu.log⟩
      rw [ends_bind]
      exact (removeEntry_keeps u hu).mono fun _ v hv => (ends_pure _).2 hv.log
    have hin := ht.2 e rfl
    rw [ends_ite]
    refine ⟨fun _ => ?_, fun _ => ?_⟩
    · rw [ends_bind]
      refine (writeWhole_ends hb hin).mono fun r u hu => ?_
      cases r with
      | stop code => exact (ends_pure _).2 hu.1
      | next e cnt => exact htail e cnt u (hu.2 e cnt rfl)
    · rw [ends_bind]
      refine (writePart_ends hb hin).mono fun r u hu => ?_
      cases r with
      | stop code => exact (ends_pure _).2 hu.1
      | next e cnt => exact htail e cnt u (hu.2 e cnt rfl)

theorem writeLoop_ends (hrange : w.sector + w.count ≤ d.sectors) :
    ∀ n i (s : State α), LogOk d s.log →
      Ends Confined (writeLoop d w n i) s fun _ t => LogOk d t.log := by
  intro n
  induction n with
  | zero => exact fun i s _ => ends_throw.2 (by decide)
  | succ n ih =>
    intro i s hs
    have hlt := d.sectors_lt
    rw [writeLoop, ends_ite]
    refine ⟨fun _ => (ends_pure _).2 hs, fun hi => ?_⟩
    have hb : wrap (w.sector + i) / d.ppb < d.type.userblocks := by
      rw [wrap, Nat.mod_eq_of_lt (by omega)]
      exact Device.sector_block (by omega)
    rw [ends_bind]
    refine (writeTurn_ends hb hs).mono fun r t ht => ?_
    cases r with
    | stop code => exact (ends_pure _).2 ht
    | next e cnt => exact ih (i + cnt) t ht

theorem ftlWrite_ends (hrange : w.sector + w.count ≤ d.sectors) (hs : LogOk d s.log) :
    Ends Confined (ftlWrite d w) s fun _ t => LogOk d t.log := by
  have hlt := d.sectors_lt
  have hin : ¬ d.sectors < wrap (w.sector + w.count) := by
    rw [wrap, Nat.mod_eq_of_lt (by omega)]
    omega
  rw [ftlWrite, if_neg hin, ends_ite]
  refine ⟨fun _ => (ends_pure _).2 hs, fun _ => ?_⟩
  rw [ends_bind]
  refine (markDirty_free.keeps _ s hs).mono fun code t ht => ?_
  rw [ends_ite]
  refine ⟨fun _ => (ends_pure _).2 ht, fun _ => ?_⟩
  rw [ends_bind]
  refine (writeLoop_ends hrange (w.count + 1) 0 t ht).mono fun code u hu => ?_
  rw [ends_ite]
  refine ⟨fun _ => (ends_pure _).2 hu, fun _ => ?_⟩
  rw [ends_bind]
  exact (writeEpilogue_free.keeps _ u hu).mono fun _ v hv => (ends_pure _).2 hv

/-- A refused write changes nothing. -/
theorem ftlWrite_refused (h : d.sectors < wrap (w.sector + w.count)) :
    (ftlWrite d w).run s = .ok (-2, s) := by
  rw [ftlWrite, if_pos h]
  rfl

end Write

/-! ## The range -/

section Bounds

variable {sector count : Nat}

/-- A read that goes on past the last sector of the device looks up the block behind it: the groups
of one page from every bank end where the device does. -/
theorem readBlocks_reaches (hpast : d.sectors < sector + count) :
    ∀ n i, sector + i ≤ d.sectors → count ≤ i + n →
      ∃ block ∈ s.readBlocks d sector count n i, d.type.userblocks ≤ block := by
  intro n
  induction n with
  | zero =>
    intro i hi hn
    omega
  | succ n ih =>
    intro i hi hn
    have hlt := d.sectors_lt
    have hwrap : wrap (sector + i) = sector + i := Nat.mod_eq_of_lt (by omega)
    rw [State.readBlocks, if_neg (by omega)]
    dsimp only
    rw [hwrap]
    rcases Nat.lt_or_eq_of_le hi with hbelow | hend
    · have hnext : ∀ k, 0 < k → sector + (i + k) ≤ d.sectors →
          ∃ block ∈ (sector + i) / d.ppb :: s.readBlocks d sector count n (i + k),
            d.type.userblocks ≤ block := by
        intro k hk hle
        obtain ⟨block, hmem, hge⟩ := ih (i + k) hle (by omega)
        exact ⟨block, List.mem_cons_of_mem _ hmem, hge⟩
      split
      case isFalse => exact hnext 1 Nat.one_pos (by omega)
      case isTrue hgroup =>
        refine hnext d.banks (Nat.two_pow_pos _) ?_
        -- both ends of the device and of the groups are multiples of the number of banks
        have hdvd : d.banks ∣ sector + i := by
          refine Nat.dvd_of_mod_eq_zero ?_
          rw [← Nat.mod_mod_of_dvd (sector + i) d.banks_dvd]
          exact hgroup.2.1
        have hend : d.banks ∣ d.sectors := d.banks_dvd.trans (Dvd.intro_left _ rfl)
        obtain ⟨a, ha⟩ := hdvd
        obtain ⟨b, hb⟩ := hend
        rw [← Nat.add_assoc, ha, hb, ← Nat.mul_succ]
        rw [ha, hb] at hbelow
        exact Nat.mul_le_mul_left _ (Nat.lt_of_mul_lt_mul_left hbelow)
    · refine ⟨_, List.mem_cons_self, ?_⟩
      rw [hend]
      exact (Nat.mul_div_cancel _ d.ppb_pos).ge

/-- So does one that starts past it. -/
theorem readBlocks_starts (hstart : d.sectors ≤ sector) (hsector : sector < 2 ^ 32)
    (hcount : 0 < count) :
    ∃ block ∈ s.readBlocks d sector count count 0, d.type.userblocks ≤ block := by
  obtain ⟨n, rfl⟩ := Nat.exists_eq_succ_of_ne_zero hcount.ne'
  rw [State.readBlocks, if_neg (Nat.not_le.2 hcount)]
  refine ⟨_, List.mem_cons_self, ?_⟩
  rw [Nat.add_zero, wrap, Nat.mod_eq_of_lt hsector]
  exact (Nat.le_div_iff_mul_le d.ppb_pos).2 hstart

/-- `ftl_read` and `ftl_write` look up no block past the end of `ftl_map`; a call that is refused
looks up none at all. -/
def InRange (d : Device) (s : State α) (sector count : Nat) (buffer : Nat → Payload α)
    (data : Nat → α) : Prop :=
  (readSectors d sector count buffer).run s ≠ .error .outside ∧
  (ftlWrite d ⟨sector, count, data⟩).run s ≠ .error .outside

/-- `ftl_read` looks up a block past the end of the map, which no check of its own prevents. -/
def Overruns (d : Device) (s : State α) (sector count : Nat) : Prop :=
  ¬ d.sectors < wrap (sector + count) ∧
    ∃ block ∈ s.readBlocks d sector count count 0, d.type.userblocks ≤ block

theorem readSectors_overruns {buffer : Nat → Payload α} :
    (readSectors d sector count buffer).run s = .error .outside ↔ Overruns d s sector count := by
  have hget : (readSectors d sector count buffer).run s =
      (do
        faultIf (¬ d.sectors < wrap (sector + count) ∧
          ∃ block ∈ s.readBlocks d sector count count 0, d.type.userblocks ≤ block) .outside
        return ftlRead d s sector count buffer : Op α (Reading α)).run s := rfl
  rw [hget, faultIf]
  unfold Overruns
  split
  case isTrue h => exact ⟨fun _ => h, fun _ => rfl⟩
  case isFalse h => exact ⟨fun hr => (nomatch hr), fun ho => absurd ho h⟩

theorem range_iff (hlog : LogOk d s.log) (hsector : sector < 2 ^ 32) (hcount : count < 2 ^ 32)
    (buffer : Nat → Payload α) (data : Nat → α) :
    InRange d s sector count buffer data ↔
      sector + count < 2 ^ 32 ∨ d.sectors < wrap (sector + count) := by
  have hconfined : ∀ {β : Type} {p : Op α β} {Q : β → State α → Prop},
      Ends Confined p s Q → p.run s ≠ .error .outside := fun h he => h.error he rfl
  constructor
  · rintro ⟨hread, -⟩
    by_contra hc
    obtain ⟨hsum, hin⟩ := not_or.1 hc
    refine hread ?_
    have hlt := d.sectors_lt
    have hreach : ∃ block ∈ s.readBlocks d sector count count 0, d.type.userblocks ≤ block := by
      rcases Nat.lt_or_ge sector d.sectors with hs | hs
      · exact readBlocks_reaches (by omega) count 0 (by omega) (by omega)
      · exact readBlocks_starts hs hsector (by omega)
    exact readSectors_overruns.2 ⟨hin, hreach⟩
  · intro h
    by_cases hin : d.sectors < wrap (sector + count)
    · refine ⟨fun hr => (readSectors_overruns.1 hr).1 hin, fun hw => ?_⟩
      rw [ftlWrite_refused hin] at hw
      cases hw
    · have hsum := h.resolve_right hin
      rw [wrap, Nat.mod_eq_of_lt hsum] at hin
      have hrange := Nat.not_lt.1 hin
      exact ⟨hconfined (readSectors_free hrange buffer s.log s rfl),
        hconfined (ftlWrite_ends (w := ⟨sector, count, data⟩) hrange hlog)⟩

/-- The two sectors around the end of the first block. -/
theorem newState_range : InRange twoBanks (newState 20 fun _ => none) 127 2
    (fun _ => .ones) (fun _ => 0) :=
  (range_iff (fun _ _ hu => absurd rfl hu) (by decide) (by decide) _ _).2
    (.inl (by decide))

/-- The last 32-bit sector and the one behind it: the sum is 1, and block 0x1FFFFFF is looked
up. -/
theorem newState_overruns : ¬ InRange twoBanks (newState 20 fun _ => none) 0xFFFFFFFF 2
    (fun _ => .ones) (fun _ => 0) := by
  intro h
  refine h.1 (readSectors_overruns.2 ⟨by decide, 0x1FFFFFF, List.mem_cons_self, by decide⟩)

end Bounds

end Ftl
end Freemyipod
