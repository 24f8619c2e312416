import Freemyipod.Ums.Ranges

/-!
# Ums.RangeRuns

The range checks over whole runs, for any command blocks.

`range_checked_iff`: every state is in bounds, and what is out of range is refused, exactly while no
step is one of
* a READ(10) or WRITE(10) whose end is past `2^32`, and with that back in the range (`Wraps`),
* a pass-through command of `2^31` bytes or more that is small or negative as an `int` (`Wraps`),
* a READ(10) of more sectors than a buffer has, out of a buffer that a failed read of sector 0 has
  marked (`Overlong`): `readbuf_count` is -1, and `readbuf_sector + readbuf_count` is `2^32 - 1`.
-/

namespace Freemyipod
namespace Ums

variable {D : Type} {dev : StorageInfo} {s t : State D} {cbw : CommandBlockWrapper}

/-! ## What is refused -/

theorem sendCommandFailedResult_tx (s : State D) (key asc ascq : UInt8) :
    (sendCommandFailedResult s key asc ascq).tx = some (.csw s.curCmd.tag s.curCmd.bytesPending 1) :=
  rfl

/-- Without a wrap, a command that is out of range gets a status that says so. -/
theorem execute_refuses (hsig : cbw.signature = 0x43425355)
    (hcmd : s.curCmd.tag = cbw.tag ∧ s.curCmd.bytesPending = cbw.length)
    (hout : cbw.OutOfRange dev) (hw : cbw.Admitted dev s → ¬ cbw.Wraps dev) :
    (execute dev s cbw).tx = some (.csw cbw.tag cbw.length 1) := by
  have hblocks : (cbw.opcode = .read10 ∨ cbw.opcode = .write10) → ∀ start : State D → State D,
      (transferBlocks dev s cbw start).tx = some (.csw cbw.tag cbw.length 1) := by
    intro hop start
    rw [transferBlocks]
    split
    · rw [mediumNotPresent, sendCommandFailedResult_tx, hcmd.1, hcmd.2]
    · rename_i hej
      have hej : s.ejected = false := by simpa using hej
      have hlarge : dev.numSectors < u32 (cbw.lba + cbw.blocks) := by
        by_contra hin
        have hadm : cbw.Admitted dev s := by
          rcases hop with hop | hop <;> rw [CommandBlockWrapper.Admitted, hop] <;> exact ⟨hsig, hej⟩
        have hle := CommandBlockWrapper.in_range hop (hw hadm) (Nat.not_lt.1 hin)
        have hgt : dev.numSectors < cbw.lba + cbw.blocks := by
          rcases hop with hop | hop <;> rwa [CommandBlockWrapper.OutOfRange, hop] at hout
        omega
      simp only [if_pos hlarge]
      rw [sendCommandFailedResult_tx, hcmd.1, hcmd.2]
  have hsat : (cbw.opcode = .ataPassthrough12 ∨ cbw.opcode = .ataPassthrough16) →
      (ataPassthrough dev s cbw).tx = some (.csw cbw.tag cbw.length 1) := by
    intro hop
    have hasks : cbw.satCommands = true ∧ umsBufsize < cbw.satBytes dev := by
      rcases hop with hop | hop <;> rwa [CommandBlockWrapper.OutOfRange, hop] at hout
    rw [ataPassthrough]
    split
    · rw [done, sendCommandFailedResult_tx, hcmd.1, hcmd.2]
    · rename_i hdrv
      simp only [Bool.not_eq_true', ne_eq, not_or, Bool.not_eq_false, not_not] at hdrv
      have hinv : cbw.satInvalid dev = true := by
        by_contra hv
        have hv : cbw.satInvalid dev = false := by simpa using hv
        have hm : cbw.satMismatch = false := by
          rw [CommandBlockWrapper.satInvalid_eq, Bool.or_eq_false_iff] at hv
          exact hv.2
        have hadm : cbw.Admitted dev s := by
          rcases hop with hop | hop <;> rw [CommandBlockWrapper.Admitted, hop] <;>
            exact ⟨hsig, hdrv.1, hdrv.2, hasks.1, hm⟩
        have hle := CommandBlockWrapper.satBytes_le hop (hw hadm) hv
        omega
      cases hp : cbw.satProtocol <;> simp only [hinv, if_true]
      case hardReset => simp [CommandBlockWrapper.satCommands, hp] at hasks
      case softReset => simp [CommandBlockWrapper.satCommands, hp] at hasks
      case returnResponse => simp [CommandBlockWrapper.satCommands, hp] at hasks
      all_goals rw [sendCommandFailedResult_tx, hcmd.1, hcmd.2]
  rw [execute]
  rw [CommandBlockWrapper.OutOfRange] at hout
  cases hop : cbw.opcode <;> simp only [hop] at hout ⊢
  case read10 => exact hblocks (Or.inl hop) _
  case write10 => exact hblocks (Or.inr hop) _
  case ataPassthrough12 => exact hsat (Or.inl hop)
  case ataPassthrough16 => exact hsat (Or.inr hop)

/-- What a wrap lets through is out of range. -/
theorem Wraps.outOfRange (hw : cbw.Wraps dev) (hadm : cbw.Admitted dev s) :
    cbw.OutOfRange dev := by
  have hn := dev.num_lt
  rw [CommandBlockWrapper.Wraps] at hw
  rw [CommandBlockWrapper.Admitted] at hadm
  rw [CommandBlockWrapper.OutOfRange]
  cases hop : cbw.opcode <;> simp only [hop] at hw hadm ⊢
  case read10 => omega
  case write10 => omega
  case ataPassthrough16 => exact ⟨hadm.2.2.2.1, by rw [umsBufsize]; omega⟩
  case ataPassthrough12 => exact ⟨hadm.2.2.2.1, by rw [umsBufsize]; omega⟩

theorem sendAndReadNext_tx (h : s.tx = none) (tag : UInt32) (residue status : Nat) :
    (sendAndReadNext dev s).tx ≠ some (.csw tag residue status) := by
  have hfrom : ∀ i, (sendFrom dev s i).tx ≠ some (.csw tag residue status) := by
    intro i
    have hpre : ∀ n, (prefetch dev s i n).tx = none := by
      intro n
      rw [prefetch]
      split <;> exact h
    rw [sendFrom]
    split
    · rw [enqueueAsync, h]
      exact (Option.some_ne_none _).symm
    · simp only [advance, sendBlockData]
      split
      · rw [fail, hpre]
        exact (Option.some_ne_none _).symm
      · split
        · rw [fail, hpre]
          exact (Option.some_ne_none _).symm
        · simp
  rw [sendAndReadNext]
  split
  · exact hfrom _
  · split
    · exact hfrom _
    · rw [enqueueAsync, h]
      exact (Option.some_ne_none _).symm

theorem receiveNext_tx (s : State D) : (receiveNext dev s).tx = s.tx := by
  rw [receiveNext, receiveBlockData]
  split
  · rfl
  · split <;> rfl

theorem satIssue_tx (s : State D) : (satIssue dev s cbw).tx = s.tx := by
  simp only [satIssue, receiveSatWrite]
  split
  · split
    · rfl
    · split <;> rfl
  · rfl

/-- A command that wraps is not refused. -/
theorem execute_wraps (h : s.tx = none) (hw : cbw.Wraps dev) (hadm : cbw.Admitted dev s)
    (tag : UInt32) (residue status : Nat) :
    (execute dev s cbw).tx ≠ some (.csw tag residue status) := by
  have hn := dev.num_lt
  have hlba := cbw.lba_lt
  have hcnt := cbw.blocks_lt
  rw [CommandBlockWrapper.Wraps] at hw
  rw [CommandBlockWrapper.Admitted] at hadm
  have hblocks : 4294967296 ≤ cbw.lba + cbw.blocks →
      cbw.lba + cbw.blocks - 4294967296 ≤ dev.numSectors → s.ejected = false →
      ∀ start : State D → State D, transferBlocks dev s cbw start =
        start { s with curCmd := { s.curCmd with sector := cbw.lba, count := cbw.blocks } } := by
    intro h1 h2 hej start
    have hin : ¬ dev.numSectors < u32 (cbw.lba + cbw.blocks) := by
      simp only [u32]
      omega
    have hpos : cbw.blocks ≠ 0 := by omega
    rw [transferBlocks, hej]
    simp only [Bool.false_eq_true, if_false, if_neg hin, if_neg hpos]
  have hsat : 2147483648 ≤ cbw.satBytes dev → s32 (cbw.satBytes dev) ≤ umsBufsize →
      dev.driverinfo = true → dev.platformId = 0x4c435049 → cbw.satCommands = true →
      cbw.satMismatch = false → (ataPassthrough dev s cbw).tx = s.tx := by
    intro _ h2 h3 h4 h5 h6
    have hv : cbw.satInvalid dev = false := by
      rw [CommandBlockWrapper.satInvalid_eq, h6, Bool.or_false, decide_eq_false_iff_not]
      exact not_lt.2 h2
    rw [ataPassthrough, h3, if_neg (by simp [h4])]
    cases hp : cbw.satProtocol <;> simp only [hv, Bool.false_eq_true, if_false]
    case hardReset => simp [CommandBlockWrapper.satCommands, hp] at h5
    case softReset => simp [CommandBlockWrapper.satCommands, hp] at h5
    case returnResponse => simp [CommandBlockWrapper.satCommands, hp] at h5
    all_goals exact satIssue_tx _
  rw [execute]
  cases hop : cbw.opcode <;> simp only [hop] at hw hadm ⊢
  case read10 =>
    rw [read10, hblocks hw.1 hw.2 hadm.2]
    refine sendAndReadNext_tx ?_ tag residue status
    exact h
  case write10 =>
    rw [done, write10, hblocks hw.1 hw.2 hadm.2, receiveNext_tx, h]
    exact (Option.some_ne_none _).symm
  case ataPassthrough16 =>
    rw [hsat hw.1 hw.2 hadm.2.1 hadm.2.2.1 hadm.2.2.2.1 hadm.2.2.2.2, h]
    exact (Option.some_ne_none _).symm
  case ataPassthrough12 =>
    rw [hsat hw.1 hw.2 hadm.2.1 hadm.2.2.1 hadm.2.2.2.1 hadm.2.2.2.2, h]
    exact (Option.some_ne_none _).symm

/-! ## The worker -/

/-- The worker goes to a place where it is not in a call of the ATA driver. -/
theorem Stage.move {f : Flight} (h : Stage dev f) {w : Worker}
    (hw : ∀ p, w ≠ .ata p) : Stage dev { f with worker := w } := by
  have hidle : f.Idle → AtRest f.readBlocked f.writeOverrun f.satPending w := fun hi =>
    ⟨hi.readBlocked, hi.writeOverrun, hi.satPending, hw⟩
  cases h with
  | waiting h1 h2 h3 h4 => exact .waiting h1 h2 h3 h4 fun p hp => absurd hp (hw p)
  | listening hi h1 h2 h3 => exact .listening (hidle hi) h1 h2 h3
  | answering hi h1 h2 h3 h4 => exact .answering (hidle hi) h1 h2 h3 h4
  | sending hi h1 h2 h3 h4 h5 => exact .sending (hidle hi) h1 h2 h3 h4 h5
  | receiving hi h1 h2 h3 h4 h5 => exact .receiving (hidle hi) h1 h2 h3 h4 h5
  | satReceiving hi h1 h2 h3 h4 => exact .satReceiving (hidle hi) h1 h2 h3 h4
  | blocked h1 h2 h3 h4 h5 _ h7 h8 => exact .blocked h1 h2 h3 h4 h5 hw h7 h8
  | overrun h1 h2 h3 h4 h5 _ h7 h8 h9 => exact .overrun h1 h2 h3 h4 h5 hw h7 h8 h9

/-- `read_blocked` is set. -/
theorem Sound.unblock (h : Sound dev s) (hb : s.readBlocked = true) :
    Fresh dev { s with readBlocked := false } ∧ s.curCmd.InRange dev ∧ 0 < s.curCmd.count := by
  cases h.stage with
  | waiting _ _ h0 => exact absurd (hb.symm.trans h0) (by decide)
  | listening hi => exact absurd (hb.symm.trans hi.readBlocked) (by decide)
  | answering hi => exact absurd (hb.symm.trans hi.readBlocked) (by decide)
  | sending hi => exact absurd (hb.symm.trans hi.readBlocked) (by decide)
  | receiving hi => exact absurd (hb.symm.trans hi.readBlocked) (by decide)
  | satReceiving hi => exact absurd (hb.symm.trans hi.readBlocked) (by decide)
  | blocked h1 h2 _ h4 h5 h6 h7 h8 =>
    exact ⟨⟨⟨h.cache, h.reading, h.write_le, h.write_count, h.sat⟩, ⟨rfl, h4, h5, h6⟩, h1, h2⟩,
      h7, h8⟩
  | overrun _ _ h0 => exact absurd (hb.symm.trans h0) (by decide)

/-- `writebuf_overrun` is set. -/
theorem Sound.overrun (h : Sound dev s) (ho : s.writeOverrun = true) :
    Fresh dev { s with writeOverrun := false } ∧ s.curCmd.InRange dev ∧
      s.length / dev.sectorSize ≤ s.curCmd.count ∧ s.length / dev.sectorSize ≤ dev.bufsize := by
  cases h.stage with
  | waiting _ _ _ h0 => exact absurd (ho.symm.trans h0) (by decide)
  | listening hi => exact absurd (ho.symm.trans hi.writeOverrun) (by decide)
  | answering hi => exact absurd (ho.symm.trans hi.writeOverrun) (by decide)
  | sending hi => exact absurd (ho.symm.trans hi.writeOverrun) (by decide)
  | receiving hi => exact absurd (ho.symm.trans hi.writeOverrun) (by decide)
  | satReceiving hi => exact absurd (ho.symm.trans hi.writeOverrun) (by decide)
  | blocked _ _ _ h0 => exact absurd (ho.symm.trans h0) (by decide)
  | overrun h1 h2 h3 _ h5 h6 h7 h8 h9 =>
    exact ⟨⟨⟨h.cache, h.reading, h.write_le, h.write_count, h.sat⟩, ⟨h3, rfl, h5, h6⟩, h1, h2⟩,
      h7, h8, h9⟩

/-- While the worker has something to do with a pass-through command, no transfer is under way. -/
theorem Sound.passing (h : Sound dev s) (hp : s.satPending ≠ .none ∨ ∃ p, s.worker = .ata p) :
    s.tx = none ∧ s.rx = none ∧ s.readBlocked = false ∧ s.writeOverrun = false ∧
      (∀ p, s.worker = .ata p → p = .srst ∨ p = .hrst → s.satPending = .none) := by
  have hidle : ¬ s.flight.Idle := by
    intro hi
    rcases hp with hp | ⟨p, hp⟩
    · exact hp hi.satPending
    · exact hi.worker p hp
  have hrest : s.satPending = .none → ¬ ∀ p, s.worker ≠ .ata p := by
    intro h0 hw
    rcases hp with hp | ⟨p, hp⟩
    · exact hp h0
    · exact hw p hp
  cases h.stage with
  | waiting h1 h2 h3 h4 h5 => exact ⟨h1, h2, h3, h4, h5⟩
  | listening hi => exact absurd hi hidle
  | answering hi => exact absurd hi hidle
  | sending hi => exact absurd hi hidle
  | receiving hi => exact absurd hi hidle
  | satReceiving hi => exact absurd hi hidle
  | blocked _ _ _ _ h5 h6 => exact absurd h6 (hrest h5)
  | overrun _ _ _ _ h5 h6 => exact absurd h6 (hrest h5)

/-- The worker goes on without a call of a driver coming back or being made. -/
theorem Sound.move (h : Sound dev s) {w : Worker} {b : Bool} (hr : ∀ c k n, w ≠ .reading c k n)
    (hw : ∀ p, w ≠ .ata p) : Sound dev { s with worker := w, wakeup := b } where
  cache := h.cache.of_worker hr
  reading := fun c k n he => absurd he (hr c k n)
  write_le := h.write_le
  write_count := h.write_count
  sat := h.sat
  stage := h.stage.move hw

theorem Fresh.finishReset (h : Fresh dev s) (o : Outcome D) : Sound dev (finishReset s o) := by
  rw [Ums.finishReset]
  split
  · exact h.sendCommandFailedResult _ _ _
  · exact h.sendCsw 0

theorem Fresh.finishReadCdb (hf : ∀ cmd : AtaRawCmd, cmd.size = s.satCommand.size →
      cmd.blksize = s.satCommand.blksize →
      Fresh dev { s with satCommand := cmd, satResponse := cmd, satPending := .none })
    (o : Outcome D) : Sound dev (finishReadCdb s o) := by
  have hf := hf { s.satCommand with taskfile := o.taskfile } rfl rfl
  simp only [Ums.finishReadCdb]
  split
  · exact hf.sendCommandFailedResult _ _ _
  · exact hf.sendCommandResult (by simp [Tx.size, umsBufsize])

theorem Fresh.finishCmd (hf : ∀ cmd : AtaRawCmd, cmd.size = s.satCommand.size →
      cmd.blksize = s.satCommand.blksize → Fresh dev { s with
        satCommand := cmd, satResponse := cmd, haveSatResponse := true, satPending := .none })
    (hle : s.satCommand.size * s.satCommand.blksize ≤ umsBufsize) (o : Outcome D) :
    Sound dev (finishCmd s o) := by
  have hf := hf { s.satCommand with taskfile := o.taskfile } rfl rfl
  have hsize : datasize s ≤ umsBufsize := by
    have hn : umsBufsize < 4294967296 := by decide
    have hu := u32_of_lt (hle.trans_lt hn)
    rw [datasize]
    push_cast at hu
    rw [hu]
    exact hle
  simp only [Ums.finishCmd]
  split
  · exact hf.sendCommandFailedResult _ _ _
  · split
    · exact hf.sendCommandFailedResult _ _ _
    · split
      · exact hf.sendCommandResult hsize
      · exact hf.sendCsw 0

/-- A call of the ATA driver comes back. -/
theorem Sound.finishAta (h : Sound dev s) {p : SatPending} (hw : s.worker = .ata p)
    (o : Outcome D) : Sound dev (finishAta { s with worker := .waiting } p o) := by
  obtain ⟨h1, h2, h3, h4, h5⟩ := h.passing (Or.inr ⟨p, hw⟩)
  have hk : Kept dev { s with worker := .waiting } :=
    h.toKept.relocate (w := .waiting) fun _ _ _ he => by cases he
  have hata : ∀ p, Worker.waiting ≠ .ata p := fun _ he => by cases he
  cases p with
  | none => exact ⟨hk, .waiting h1 h2 h3 h4 fun q he => absurd he (hata q)⟩
  | srst => exact Fresh.finishReset ⟨hk, ⟨h3, h4, h5 _ hw (Or.inl rfl), hata⟩, h1, h2⟩ o
  | hrst => exact Fresh.finishReset ⟨hk, ⟨h3, h4, h5 _ hw (Or.inr rfl), hata⟩, h1, h2⟩ o
  | cmd =>
    rw [Ums.finishAta]
    refine Fresh.finishCmd (fun cmd hs hb => ?_) ?_ o
    · exact ⟨⟨hk.cache, hk.reading, h.write_le, h.write_count, hs ▸ hb ▸ h.sat⟩,
        ⟨h3, h4, rfl, hata⟩, h1, h2⟩
    · exact h.sat
  | readCdb =>
    rw [Ums.finishAta]
    refine Fresh.finishReadCdb (fun cmd hs hb => ?_) o
    exact ⟨⟨hk.cache, hk.reading, h.write_le, h.write_count, hs ▸ hb ▸ h.sat⟩,
      ⟨h3, h4, rfl, hata⟩, h1, h2⟩

/-- The worker takes up a pass-through command. -/
theorem Sound.issue (h : Sound dev s) (hp : s.satPending ≠ .none) {p q : SatPending}
    (hq : p = .srst ∨ p = .hrst → q = .none) :
    Sound dev { s with satPending := q, worker := .ata p } := by
  obtain ⟨h1, h2, h3, h4, _⟩ := h.passing (Or.inl hp)
  have hk := h.toKept.relocate (w := .ata p) fun _ _ _ he => by cases he
  refine ⟨⟨hk.cache, hk.reading, h.write_le, h.write_count, h.sat⟩, .waiting h1 h2 h3 h4 ?_⟩
  intro r he hr
  cases he
  exact hq hr

theorem work_sound {o : Outcome D} (h : Sound dev s)
    (hlong : s.worker = .blocked → s.readBlocked = true → 0 ≤ s.readCount s.readCurrent →
      ¬ Overlong dev s.readSector s.readCount s.curCmd)
    (hs : work dev s o = some t) : Sound dev t := by
  rw [work] at hs
  cases hw : s.worker <;> simp only [hw] at hs
  case waiting =>
    split at hs
    · cases hs
      have hm := h.move (w := .write) (b := false) (fun _ _ _ he => by cases he)
        (fun _ he => by cases he)
      rw [pushOverrun]
      split
      · rename_i ho
        obtain ⟨hf, hc, hle, hbuf⟩ := hm.overrun ho
        exact hf.writebufPush hc hle hbuf
      · exact hm
    · cases hs
  case write =>
    cases hs
    refine h.move (fun _ _ _ he => ?_) (fun _ he => ?_)
    · split at he <;> cases he
    · split at he <;> cases he
  case writing =>
    cases hs
    have hm := h.move (w := .cache) (b := s.wakeup) (fun _ _ _ he => by cases he)
      (fun _ he => by cases he)
    exact ⟨⟨hm.cache, hm.reading, hm.write_le, hm.write_count, hm.sat⟩, hm.stage⟩
  case cache =>
    cases hs
    have hfill := h.cache.fill_eq s.readCurrent
    split
    · refine ⟨⟨⟨h.cache.sector_lt, h.cache.count_eq, ?_⟩, ?_, h.write_le, h.write_count, h.sat⟩,
        h.stage.move fun _ he => by cases he⟩
      · intro c b n he
        cases he
        exact hfill
      · intro c b n he
        cases he
        exact h.cache.sector_lt _
    · exact h.move (fun _ _ _ he => by cases he) (fun _ he => by cases he)
  case reading c b n =>
    cases hs
    have hc := h.cache
    rw [hw] at hc
    have hk := h.toKept.relocate (w := .blocked) fun _ _ _ he => by cases he
    have hgone : ∀ c b n, Worker.blocked ≠ .reading c b n := fun _ _ _ he => by cases he
    exact ⟨⟨hc.done hgone, hk.reading, h.write_le, h.write_count, h.sat⟩,
      h.stage.move fun _ he => by cases he⟩
  case blocked =>
    cases hs
    have hm := h.move (w := .sat) (b := s.wakeup) (fun _ _ _ he => by cases he)
      (fun _ he => by cases he)
    rw [unblock]
    split
    · rename_i hb
      obtain ⟨hf, hc, hpos⟩ := hm.unblock hb
      simp only
      split
      · exact hf.sendCommandFailedResult _ _ _
      · rename_i hneg
        exact hf.sendAndReadNext hc hpos (hlong hw hb (Int.not_lt.1 hneg))
    · exact hm
  case sat =>
    cases hp : s.satPending <;> simp only [hp] at hs <;> cases hs
    case none =>
      have hm := h.move (w := .waiting) (b := s.wakeup) (fun _ _ _ he => by cases he)
        (fun _ he => by cases he)
      rwa [hp] at hm
    case srst => exact h.issue (by simp [hp]) fun _ => rfl
    case hrst => exact h.issue (by simp [hp]) fun _ => rfl
    case cmd => exact h.issue (by simp [hp]) (by simp)
    case readCdb => exact h.issue (by simp [hp]) (by simp)
  case ata p =>
    cases hs
    exact h.finishAta hw o

/-! ## Steps -/

theorem Sound.idle (h : Sound dev s) (hx : s.tx ≠ none ∨ s.rx ≠ none) :
    AtRest s.readBlocked s.writeOverrun s.satPending s.worker := by
  have hno : s.tx = none → s.rx = none →
      AtRest s.readBlocked s.writeOverrun s.satPending s.worker := by
    intro h1 h2
    rcases hx with hx | hx
    · exact absurd h1 hx
    · exact absurd h2 hx
  cases h.stage with
  | waiting h1 h2 => exact hno h1 h2
  | listening hi => exact hi
  | answering hi => exact hi
  | sending hi => exact hi
  | receiving hi => exact hi
  | satReceiving hi => exact hi
  | blocked h1 h2 => exact hno h1 h2
  | overrun h1 h2 => exact hno h1 h2

/-- A transmission is under way: of blocks, or of something that ends the command. -/
theorem Sound.sending (h : Sound dev s) {tx : Tx} (htx : s.tx = some tx) :
    s.rx = none ∧ (s.state = .waitingForCswCompletion ∨ s.state = .sendingResult ∨
      s.state = .sendingBlocks ∧ s.curCmd.InRange dev) := by
  have hne : s.tx ≠ none := by
    rw [htx]
    exact Option.some_ne_none tx
  cases h.stage with
  | waiting h0 => exact absurd h0 hne
  | listening _ h0 => exact absurd h0 hne
  | answering _ _ _ h3 h4 => exact ⟨h3, h4.imp_right Or.inl⟩
  | sending _ _ _ h3 h4 h5 => exact ⟨h3, Or.inr (Or.inr ⟨h4, h5⟩)⟩
  | receiving _ h0 => exact absurd h0 hne
  | satReceiving _ h0 => exact absurd h0 hne
  | blocked h0 => exact absurd h0 hne
  | overrun h0 => exact absurd h0 hne

theorem Sound.transmitted (h : Sound dev s) {tx : Tx} (htx : s.tx = some tx) (left : Nat) :
    Fresh dev { shorten s left with tx := none } := by
  have hne : s.tx ≠ none := by
    rw [htx]
    exact Option.some_ne_none tx
  exact ⟨⟨h.cache, h.reading, h.write_le, h.write_count, h.sat⟩, h.idle (Or.inl hne), rfl,
    (h.sending htx).1⟩

theorem inComplete_sound (h : Sound dev s) {tx : Tx} (htx : s.tx = some tx) (left : Nat)
    (hlong : s.state = .sendingBlocks → s.curCmd.count ≠ 0 →
      ¬ Overlong dev s.readSector s.readCount s.curCmd) :
    Sound dev (inComplete dev { shorten s left with tx := none }) := by
  have hf := h.transmitted htx left
  have hst : ({ shorten s left with tx := none } : State D).state = s.state := rfl
  obtain ⟨_, hstate | hstate | ⟨hstate, hc⟩⟩ := h.sending htx
  · rw [inComplete, hst, hstate]
    exact ⟨⟨h.cache, h.reading, h.write_le, h.write_count, h.sat⟩,
      .listening hf.idle rfl rfl rfl⟩
  · rw [inComplete, hst, hstate]
    exact hf.sendCsw 0
  · rw [inComplete, hst, hstate]
    simp only
    split
    · exact hf.sendCsw 0
    · rename_i hcount
      exact hf.sendAndReadNext hc (Nat.pos_of_ne_zero hcount) (hlong hstate hcount)

/-- What a reception is for. -/
theorem Sound.receiving (h : Sound dev s) {r : Rx} (hr : s.rx = some r) :
    s.tx = none ∧
      (r = .cbw ∧ s.state = .waitingForCommand ∨
        (∃ i, r = .blocks i s.length) ∧ s.state = .receivingBlocks ∧ s.curCmd.InRange dev ∧
          s.length = min umsBufsize (s.curCmd.count * dev.sectorSize) ∨
        (∃ i n, r = .sat i n) ∧ s.state = .receivingSatWrite) := by
  have hne : s.rx ≠ none := by
    rw [hr]
    exact Option.some_ne_none r
  cases h.stage with
  | waiting _ h0 => exact absurd h0 hne
  | listening _ h1 h2 h3 =>
    cases hr.symm.trans h2
    exact ⟨h1, Or.inl ⟨rfl, h3⟩⟩
  | answering _ _ _ h0 => exact absurd h0 hne
  | sending _ _ _ h0 => exact absurd h0 hne
  | receiving _ h1 h2 h3 h4 h5 =>
    exact ⟨h1, Or.inr (Or.inl ⟨⟨_, Option.some.inj (hr.symm.trans h2)⟩, h3, h4, h5⟩)⟩
  | satReceiving _ h1 h2 _ h3 =>
    exact ⟨h1, Or.inr (Or.inr ⟨⟨_, _, Option.some.inj (hr.symm.trans h2)⟩, h3⟩)⟩
  | blocked _ h0 => exact absurd h0 hne
  | overrun _ h0 => exact absurd h0 hne

/-- A block is only taken if it is a full buffer or all that is left of the command. -/
theorem blockReceived_sound {n : Nat} (hf : Fresh dev s) (hc : s.curCmd.InRange dev)
    (hn : n = min umsBufsize (s.curCmd.count * dev.sectorSize)) {left : Nat}
    (hleft : left < 2147483648) (hlen : s.length = u32 (n - left)) :
    Sound dev (blockReceived dev s) := by
  have hpos := dev.sectorSize_pos
  have hbytes := dev.bytes_lt hc.count_lt
  have hmul := dev.bufsize_mul
  rw [blockReceived]
  split
  · exact hf.stuck
  · rename_i hfull
    have hle : s.length ≤ n := by
      rw [Nat.mul_comm, umsBufsize] at hfull
      simp only [u32] at hlen
      omega
    have hcount : s.length / dev.sectorSize ≤ s.curCmd.count := by
      refine Nat.div_le_of_le_mul ?_
      rw [Nat.mul_comm]
      omega
    have hbuf : s.length / dev.sectorSize ≤ dev.bufsize := by
      refine Nat.div_le_of_le_mul ?_
      rw [Nat.mul_comm, hmul]
      rw [umsBufsize] at hn
      omega
    obtain ⟨buf, c, hframe⟩ := updateReadcache_frame dev s
    have hu : Fresh dev { s with readBuf := buf, crashed := c } :=
      ⟨⟨hf.cache, hf.reading, hf.write_le, hf.write_count, hf.sat⟩, hf.idle, hf.tx, hf.rx⟩
    simp only [hframe]
    split
    · exact hu.stuck
    · split
      · exact ⟨⟨hf.cache, hf.reading, hf.write_le, hf.write_count, hf.sat⟩,
          .overrun hf.tx hf.rx hf.idle.readBlocked rfl hf.idle.satPending hf.idle.worker
            ⟨hc.range, hc.count_lt⟩ hcount hbuf⟩
      · have hs := hu.writebufPush ⟨hc.range, hc.count_lt⟩ hcount hbuf
        exact ⟨⟨hs.cache, hs.reading, hs.write_le, hs.write_count, hs.sat⟩, hs.stage⟩

theorem receive_sound {d : Nat → D} {left : Nat} {o : Signal D} (h : Sound dev s)
    (hleft : left < 2147483648) (hs : receive dev s d left = some (t, o)) : Sound dev t := by
  rw [receive] at hs
  cases hr : s.rx with
  | none =>
    rw [hr] at hs
    cases hs
  | some r =>
    obtain ⟨htx, hcase⟩ := h.receiving hr
    have hidle := h.idle (Or.inr (by simp [hr]))
    have hk : Kept dev s := h.toKept
    rw [hr] at hs
    rcases hcase with ⟨rfl, _⟩ | ⟨⟨i, rfl⟩, hst, hc, hlen⟩ | ⟨⟨i, n, rfl⟩, hst⟩
    · cases hs
    · simp only [outComplete, shorten, hst] at hs
      cases hs
      refine blockReceived_sound ?_ ⟨hc.range, hc.count_lt⟩ hlen hleft rfl
      exact ⟨⟨hk.cache, hk.reading, hk.write_le, hk.write_count, hk.sat⟩, hidle, htx, rfl⟩
    · simp only [outComplete, shorten, hst] at hs
      cases hs
      refine Fresh.satPend ?_ .cmd
      exact ⟨⟨hk.cache, hk.reading, hk.write_le, hk.write_count, hk.sat⟩, hidle, htx, rfl⟩

/-- A wrapper has arrived, and `handle_scsi` is about to execute its command. -/
def received (s : State D) (cbw : CommandBlockWrapper) (left : Nat) : State D :=
  accept { shorten s left with rx := none, cmdbuf := cbw, state := .processing } cbw

/-- A step with a command executes it, if the wrapper has the right signature. -/
theorem step_command {left : Nat} {o : Signal D} (h : Sound dev s)
    (hs : step dev s (.command cbw left) = some (t, o)) :
    Fresh dev (received s cbw left) ∧
      (cbw.signature = 0x43425355 → t = execute dev (received s cbw left) cbw) ∧
      (cbw.signature ≠ 0x43425355 → Sound dev t) := by
  rw [step] at hs
  split at hs
  · cases hs
  · simp only at hs
    split at hs
    · rename_i hr
      obtain ⟨htx, hcase⟩ := h.receiving hr
      have hst : s.state = .waitingForCommand := by
        rcases hcase with ⟨_, hst⟩ | ⟨⟨_, hi⟩, _⟩ | ⟨⟨_, _, hi⟩, _⟩
        · exact hst
        · cases hi
        · cases hi
      have hidle := h.idle (Or.inr (by simp [hr]))
      simp only [outComplete, shorten, hst] at hs
      cases hs
      refine ⟨⟨⟨h.cache, h.reading, h.write_le, h.write_count, h.sat⟩, hidle, htx, rfl⟩, ?_, ?_⟩
      · intro hsig
        rw [handleScsi, if_neg (not_not_intro hsig)]
        rfl
      · intro hsig
        rw [handleScsi, if_pos hsig]
        refine Fresh.stuck ?_
        exact ⟨⟨h.cache, h.reading, h.write_le, h.write_count, h.sat⟩, hidle, htx, rfl⟩
    · cases hs

theorem step_transmitted {left : Nat} {o : Signal D}
    (hs : step dev s (.transmitted left) = some (t, o)) :
    (∃ tx, s.tx = some tx) ∧ t = inComplete dev { shorten s left with tx := none } := by
  rw [step] at hs
  split at hs
  · cases hs
  · simp only [Option.map_eq_some_iff] at hs
    obtain ⟨tx, htx, he⟩ := hs
    cases he
    exact ⟨⟨tx, htx⟩, rfl⟩

theorem step_work {out : Outcome D} {o : Signal D} (hs : step dev s (.work out) = some (t, o)) :
    work dev s out = some t := by
  rw [step] at hs
  split at hs
  · cases hs
  · simp only [Option.map_eq_some_iff] at hs
    obtain ⟨u, hu, he⟩ := hs
    cases he
    exact hu

theorem step_data {d : Nat → D} {left : Nat} {o : Signal D}
    (hs : step dev s (.data d left) = some (t, o)) : receive dev s d left = some (t, o) := by
  rw [step] at hs
  split at hs
  · cases hs
  · exact hs

/-- One step that the checks do not miss. -/
theorem step_sound {e : Event D} {o : Signal D} (h : Sound dev s) (hp : e.Proper)
    (hc : Checked dev s e) (hs : step dev s e = some (t, o)) : Sound dev t := by
  cases e with
  | transmitted left =>
    obtain ⟨⟨tx, htx⟩, rfl⟩ := step_transmitted hs
    exact inComplete_sound h htx left hc
  | command cbw left =>
    obtain ⟨hf, hright, hwrong⟩ := step_command h hs
    by_cases hsig : cbw.signature = 0x43425355
    · rw [hright hsig]
      exact execute_sound hf (fun hadm => (hc hadm).1) hsig ⟨rfl, rfl⟩
        fun hadm => (hc hadm).2
    · exact hwrong hsig
  | data d left => exact receive_sound h hp (step_data hs)
  | work out => exact work_sound h hc (step_work hs)

theorem step_refuses {e : Event D} (h : Sound dev s) (hc : Checked dev s e) : Refuses dev s e := by
  cases e with
  | transmitted left => trivial
  | command cbw left =>
    intro hsig hout t o hs
    obtain ⟨_, hright, _⟩ := step_command h hs
    rw [hright hsig]
    exact execute_refuses hsig ⟨rfl, rfl⟩ hout fun hadm => (hc hadm).1
  | data d left => trivial
  | work out => trivial

/-- A READ(10) that is in range and overlong. -/
theorem execute_overlong (hadm : cbw.Admitted dev s) (hw : ¬ cbw.Wraps dev)
    (hop : cbw.opcode = .read10) (hacc : Accepted dev cbw)
    (hcmd : s.curCmd.bytesPending = cbw.length ∧ s.curCmd.dataDirection = cbw.dataIn)
    (hlong : Overlong dev s.readSector s.readCount cbw.curCmd) :
    ¬ InBounds dev (execute dev s cbw) := by
  have hej : s.ejected = false := by
    rw [CommandBlockWrapper.Admitted, hop] at hadm
    exact hadm.2
  have hc : CurCmd.InRange dev cbw.curCmd :=
    ⟨CommandBlockWrapper.in_range (Or.inl hop) hw hacc.1, cbw.blocks_lt⟩
  rw [execute, hop]
  simp only [read10, transferBlocks, hej, Bool.false_eq_true, if_false, if_neg hacc.2,
    if_neg (Nat.not_lt.2 hacc.1)]
  intro hin
  have hlong' : Overlong dev s.readSector s.readCount
      { s.curCmd with sector := cbw.lba, count := cbw.blocks } := by
    rw [Overlong, CommandBlockWrapper.curCmd] at hlong
    simpa only [Overlong, hcmd.1, hcmd.2] using hlong
  refine Overlong.not_inBounds ?_ ?_ (⟨hin.write, hin.read, hin.tx, hin.rx, hin.ata⟩)
  · exact hlong'
  · exact ⟨hc.range, hc.count_lt⟩

/-- One of the three that they miss: the next state is out of bounds, or a command that is out of
range was not refused. -/
theorem step_missed {e : Event D} {o : Signal D} (h : Sound dev s) (hc : ¬ Checked dev s e)
    (hs : step dev s e = some (t, o)) : ¬ (InBounds dev t ∧ Refuses dev s e) := by
  cases e with
  | transmitted left =>
    obtain ⟨⟨tx, htx⟩, rfl⟩ := step_transmitted hs
    simp only [Checked, Classical.not_imp, not_not] at hc
    obtain ⟨hst, hcount, hlong⟩ := hc
    have hin : s.curCmd.InRange dev := by
      obtain ⟨_, h0 | h0 | ⟨_, hin⟩⟩ := h.sending htx
      · cases hst.symm.trans h0
      · cases hst.symm.trans h0
      · exact hin
    rintro ⟨hb, _⟩
    have hst' : ({ shorten s left with tx := none } : State D).state = .sendingBlocks := hst
    rw [inComplete, hst'] at hb
    simp only at hb
    split at hb
    · rename_i h0
      exact hcount h0
    · refine Overlong.not_inBounds ?_ ?_ hb
      · exact hlong
      · exact hin
  | command cbw left =>
    obtain ⟨hf, hright, _⟩ := step_command h hs
    rw [Checked, Classical.not_imp] at hc
    obtain ⟨hadm, hc⟩ := hc
    have hadm' : cbw.Admitted dev (received s cbw left) := hadm
    rintro ⟨hb, hr⟩
    by_cases hw : cbw.Wraps dev
    · have htx := hr hadm.1 (Wraps.outOfRange hw hadm) t o hs
      rw [hright hadm.1] at htx
      exact execute_wraps hf.tx hw hadm' _ _ _ htx
    · simp only [hw, not_false_eq_true, true_and, Classical.not_imp, not_not] at hc
      obtain ⟨hop, hacc, hlong⟩ := hc
      rw [hright hadm.1] at hb
      exact execute_overlong hadm' hw hop hacc ⟨rfl, rfl⟩ hlong hb
  | data d left => exact absurd trivial hc
  | work out =>
    have hs := step_work hs
    simp only [Checked, Classical.not_imp, not_not] at hc
    obtain ⟨hw, hblocked, hcount, hlong⟩ := hc
    obtain ⟨_, hin, _⟩ := h.unblock hblocked
    simp only [work, hw] at hs
    cases hs
    rintro ⟨hb, _⟩
    rw [unblock] at hb
    simp only [hblocked, if_true, if_neg (Int.not_lt.2 hcount)] at hb
    refine Overlong.not_inBounds ?_ ?_ hb
    · exact hlong
    · exact hin

/-! ## Runs -/

theorem initial_sound (dev : StorageInfo) (medium : Nat → D) (readBuf writeBuf : Bool → Nat → D)
    (cmdbuf : CommandBlockWrapper) : Sound dev (initial medium readBuf writeBuf cmdbuf) where
  cache := ⟨fun _ => dev.num_pos, fun _ => Or.inl rfl, fun _ _ _ h => by cases h⟩
  reading := fun _ _ _ h => by cases h
  write_le := Nat.zero_le _
  write_count := Nat.zero_le _
  sat := Nat.zero_le _
  stage := .listening ⟨rfl, rfl, rfl, fun _ h => by cases h⟩ rfl rfl rfl

/-- The range checks hold in every state of a run exactly when none of its steps is one of those
that they miss. -/
theorem range_checked_iff {medium : Nat → D} {readBuf writeBuf : Bool → Nat → D}
    {cmdbuf : CommandBlockWrapper} {es : List (State D × Event D × Signal D)} {t : State D}
    (h : Lts.Runs (step dev) (fun _ e => e.Proper) (initial medium readBuf writeBuf cmdbuf) es t) :
    ((∀ e ∈ es, InBounds dev e.1 ∧ Refuses dev e.1 e.2.1) ∧ InBounds dev t) ↔
      ∀ e ∈ es, Checked dev e.1 e.2.1 := by
  have hrun : (((∀ e ∈ es, InBounds dev e.1 ∧ Refuses dev e.1 e.2.1) ∧ InBounds dev t) ↔
      ∀ e ∈ es, Checked dev e.1 e.2.1) ∧ ((∀ e ∈ es, Checked dev e.1 e.2.1) → Sound dev t) := by
    have h0 := initial_sound dev medium readBuf writeBuf cmdbuf
    refine h.invariant_trace (I := fun l x =>
      (((∀ e ∈ l, InBounds dev e.1 ∧ Refuses dev e.1 e.2.1) ∧ InBounds dev x) ↔
        ∀ e ∈ l, Checked dev e.1 e.2.1) ∧ ((∀ e ∈ l, Checked dev e.1 e.2.1) → Sound dev x)) ?_ ?_
    · exact ⟨by simp [h0.inBounds], fun _ => h0⟩
    · rintro l x e y o ⟨hiff, hsound⟩ hp hs
      simp only [List.forall_mem_append, List.forall_mem_singleton]
      refine ⟨⟨?_, ?_⟩, ?_⟩
      · rintro ⟨⟨hl, hx, hr⟩, hy⟩
        have hl' := hiff.1 ⟨hl, hx⟩
        refine ⟨hl', ?_⟩
        by_contra hc
        exact step_missed (hsound hl') hc hs ⟨hy, hr⟩
      · rintro ⟨hl, hc⟩
        obtain ⟨h1, h2⟩ := hiff.2 hl
        exact ⟨⟨h1, h2, step_refuses (hsound hl) hc⟩, (step_sound (hsound hl) hp hc hs).inBounds⟩
      · rintro ⟨hl, hc⟩
        exact step_sound (hsound hl) hp hc hs
  exact hrun.1

/-- The buffers and the medium do not matter here. -/
def blank : State Unit :=
  initial (fun _ => ()) (fun _ _ => ()) (fun _ _ => ()) (wrapper 0 0 [])

/-- READ(10) of the last of 1000 sectors, and of the one after it. -/
def lastSector : CommandBlockWrapper := wrapper 4096 0x80 [0x28, 0, 0, 0, 0x03, 0xe7, 0, 0, 1]

def pastTheEnd : CommandBlockWrapper := wrapper 4096 0x80 [0x28, 0, 0, 0, 0x03, 0xe8, 0, 0, 1]

theorem range_checked_last : ∃ es t,
    Lts.Runs (step someDevice) (fun _ e => e.Proper) blank es t ∧
      es.map (fun e => e.2.1) = [.command pastTheEnd 0, .transmitted 0, .command lastSector 0] ∧
      (∀ e ∈ es, InBounds someDevice e.1 ∧ Refuses someDevice e.1 e.2.1) ∧
      InBounds someDevice t := by
  have h1 : Lts.Runs (step someDevice) (fun _ e => e.Proper) blank _ _ :=
    .tail (.tail (.tail .refl (a := .command pastTheEnd 0) (by simp [Event.Proper]) rfl)
      (a := .transmitted 0) (by simp [Event.Proper]) rfl)
      (a := .command lastSector 0) (by simp [Event.Proper]) rfl
  have hcommand : ∀ (s : State Unit) (cbw : CommandBlockWrapper), cbw.opcode = .read10 →
      cbw.lba + cbw.blocks < 4294967296 → (∀ i, s.readCount i = 0) →
      Checked someDevice s (.command cbw 0) := by
    intro s cbw hop hlt h0 _
    refine ⟨?_, ?_⟩
    · rw [CommandBlockWrapper.Wraps, hop]
      exact fun hw => absurd hw.1 (Nat.not_le.2 hlt)
    · rintro _ _ ⟨_, _, _, _, i, _, hi, _⟩
      rw [h0 i] at hi
      cases hi
  refine ⟨_, _, h1, rfl, (range_checked_iff h1).2 ?_⟩
  simp only [List.nil_append, List.cons_append, List.forall_mem_cons]
  refine ⟨?_, ?_, ?_, fun _ h => absurd h List.not_mem_nil⟩
  · exact hcommand _ _ rfl (by decide) fun _ => rfl
  · exact fun h => absurd h (by decide)
  · exact hcommand _ _ rfl (by decide) fun _ => rfl

/-- READ(10) of the last sector that there is a number for. -/
def lastNumber : CommandBlockWrapper := wrapper 4096 0x80 [0x28, 0, 0xff, 0xff, 0xff, 0xff, 0, 0, 1]

/-- It passes the check, and the worker reads that sector of a medium of 1000. -/
theorem reads_beyond : ¬ ∀ es t, Lts.Runs (step someDevice) (fun _ e => e.Proper) blank es t →
    (∀ e ∈ es, InBounds someDevice e.1 ∧ Refuses someDevice e.1 e.2.1) ∧
      InBounds someDevice t := by
  intro h
  let out : Outcome Unit := ⟨true, fun _ => (), default⟩
  have h1 : Lts.Runs (step someDevice) (fun _ e => e.Proper) blank _ _ :=
    .tail (.tail (.tail (.tail .refl (a := .command lastNumber 0) (by simp [Event.Proper]) rfl)
      (a := .work out) (by simp [Event.Proper]) rfl) (a := .work out) (by simp [Event.Proper]) rfl)
      (a := .work out) (by simp [Event.Proper]) rfl
  obtain ⟨_, hb⟩ := h _ _ h1
  have hr := (hb.read true 4294967295 _ rfl).1
  exact absurd hr (by decide)

end Ums
end Freemyipod
