import Freemyipod.Ums.Scsi

/-!
# Ums.System

The write buffers, the completion handler of the USB transfers, the storage worker, and the steps
of the whole: a transfer completes, or the worker gets to its next cut.
-/

namespace Freemyipod
namespace Ums

variable {D : Type}

/-- `old` with the sectors from `b` to `b + n` replaced by the first `n` of `d`. -/
def overlay (b n : Nat) (d old : Nat → D) : Nat → D :=
  fun j => if b ≤ j ∧ j < b + n then d (j - b) else old j

variable (dev : StorageInfo) (s : State D)

/-! ## Write buffers -/

/-- The body of the loop of `update_readcache`. Offsets and length are in bytes; a copy outside of
the buffers leaves nothing that could be relied on. -/
def patch (i : Bool) : State D :=
  let count := s.length / dev.sectorSize
  let fst := s.curCmd.sector
  let last := u32 (fst + count)
  if (s.readSector i ≤ fst ∧ fst < readTop s i) ∨
      (s.readSector i ≤ last ∧ last < readTop s i) then
    let roffset := max 0 (s32 (fst - s.readSector i))
    let woffset := max 0 (s32 (s.readSector i - fst))
    let len := min (s.readCount i - roffset) (count - woffset)
    let r := s32 (roffset * dev.sectorSize)
    let w := s32 (woffset * dev.sectorSize)
    let n := s32 (len * dev.sectorSize)
    if 0 ≤ r ∧ 0 ≤ w ∧ 0 ≤ n ∧ r + n ≤ umsBufsize ∧ w + n ≤ umsBufsize then
      { s with
        readBuf := Function.update s.readBuf i
          (overlay roffset.toNat len.toNat (fun j => s.writeBuf s.writeCurrent (woffset.toNat + j))
            (s.readBuf i)) }
    else { s with crashed := true }
  else s

def updateReadcache : State D := patch dev (patch dev s false) true

/-- The block that has arrived becomes the one to be written. -/
def takeBlock : State D :=
  let count := s.length / dev.sectorSize
  { s with
    writeCurrent := !s.writeCurrent
    writeSector := s.curCmd.sector
    writeCount := count % 256
    writeBusy := true
    curCmd :=
      { s.curCmd with
        sector := u32 (s.curCmd.sector + count)
        count := u32 (s.curCmd.count - count) } }

def writebufPush : State D :=
  let s := takeBlock dev s
  if s.curCmd.count = 0 then
    if s.writeRc then sendCommandFailedResult s senseMediumError ascWriteError 0
    else { sendCsw s 0 with writeRc := false }
  else receiveNext dev s

/-! ## Completion of a transfer -/

/-- `ums_xfer_complete` for a transmission. -/
def inComplete : State D :=
  match s.state with
  | .waitingForCswCompletion => listen { s with state := .waitingForCommand }
  | .sendingResult => sendCsw s 0
  | .sendingBlocks => if s.curCmd.count = 0 then sendCsw s 0 else sendAndReadNext dev s
  | _ => fail s "diskmode: Got IN completion in invalid state!"

def blockReceived : State D :=
  if s.length ≠ dev.sectorSize * s.curCmd.count ∧ s.length ≠ umsBufsize then s
  else
    let s := updateReadcache dev s
    if s.crashed then s
    else enqueueAsync (if s.writeBusy then { s with writeOverrun := true } else writebufPush dev s)

/-- `ums_xfer_complete` for a reception. -/
def outComplete : State D :=
  match s.state with
  | .receivingBlocks => blockReceived dev s
  | .waitingForCommand => handleScsi dev { s with state := .processing } s.cmdbuf
  | .receivingSatWrite => satPend { s with state := .processing } .cmd
  | _ => fail s "diskmode: Got OUT completion in invalid state!"

/-! ## The worker -/

/-- What a call of the storage driver or the ATA driver comes to: if it succeeds, the sectors that
it leaves if not, and the registers of an ATA command's reply. -/
structure Outcome (D : Type) where
  ok : Bool
  data : Nat → D
  taskfile : Taskfile

/-- The sense data for a failed pass-through command. -/
def satFailure (t : Taskfile) (reads : Bool) : UInt8 × UInt8 × UInt8 :=
  let command := t.command.toNat
  let feature := t.feature.toNat
  if command.testBit 5 then (senseHardwareError, ascInternalTargetFailure, 0)
  else if !command.testBit 0 then (senseHardwareError, ascInternalTargetFailure, 0)
  else if feature.testBit 0 then (senseMediumError, ascAddressMarkNotFound, 0)
  else if feature.testBit 1 then (senseNotReady, ascMediumNotPresent, 0)
  else if feature.testBit 3 then
    (senseUnitAttention, ascOperatorRequest, ascqMediumRemovalRequest)
  else if feature.testBit 4 then (senseIllegalRequest, ascLbaOutOfRange, 0)
  else if feature.testBit 5 then (senseUnitAttention, ascMediumMayHaveChanged, 0)
  else if feature.testBit 6 then
    if reads then (senseMediumError, ascReadError, 0) else (senseDataProtect, ascWriteProtected, 0)
  else if feature.testBit 7 then (senseAbortedCommand, ascScsiParityError, ascqUicrcErrorDetected)
  else if feature.testBit 2 then (senseAbortedCommand, 0, 0)
  else (senseHardwareError, ascInternalTargetFailure, 0)

/-- `datasize` of the pass-through command. -/
def datasize : Nat := u32 (s.satCommand.size * s.satCommand.blksize)

/-- After `raw_cmd`. -/
def finishCmd (o : Outcome D) : State D :=
  let size := datasize s
  let buffer := s.satCommand.buffer
  let cmd := { s.satCommand with taskfile := o.taskfile }
  let s := { s with
    satCommand := cmd
    satResponse := cmd
    haveSatResponse := true
    satPending := .none }
  if !o.ok ∨ o.taskfile.command &&& 0x21 ≠ 0 then
    let (key, asc, ascq) := satFailure o.taskfile (size != 0 && !cmd.send)
    sendCommandFailedResult s key asc ascq
  else if s.satCheck then
    sendCommandFailedResult s senseSoftError ascRecoveredError ascqSatInfoAvailable
  else if size ≠ 0 then sendCommandResult s (.sat buffer) size
  else sendCsw s 0

/-- After `read_taskfile`. -/
def finishReadCdb (o : Outcome D) : State D :=
  let cmd := { s.satCommand with taskfile := o.taskfile }
  let s := { s with satCommand := cmd, satResponse := cmd, satPending := .none }
  if !o.ok then sendCommandFailedResult s senseHardwareError ascInternalTargetFailure 0
  else sendCommandResult s (.result (satResponseInformation cmd)) 14

/-- After `soft_reset` or `hard_reset`. -/
def finishReset (o : Outcome D) : State D :=
  if !o.ok then sendCommandFailedResult s senseHardwareError ascUnsuccessfulSoftReset 0
  else sendCsw s 0

def finishAta (p : SatPending) (o : Outcome D) : State D :=
  match p with
  | .none => s
  | .srst | .hrst => finishReset s o
  | .cmd =>
    -- the command may have filled its buffer
    finishCmd { s with readBuf := Function.update s.readBuf s.satCommand.buffer o.data } o
  | .readCdb => finishReadCdb s o

/-- The call of `storage_write_sectors_md` returns. -/
def written (o : Outcome D) : State D :=
  { s with
    writeRc := s.writeRc || !o.ok
    writeBusy := false
    medium := overlay s.writeSector s.writeCount
      (if o.ok then s.writeBuf s.writeCurrent else o.data) s.medium }

/-- The call of `storage_read_sectors_md` returns. -/
def readDone (c : Bool) (sector count : Nat) (o : Outcome D) : State D :=
  { s with
    readBuf := Function.update s.readBuf c (overlay 0 count
      (if o.ok then fun j => s.medium (sector + j) else o.data) (s.readBuf c))
    readCount := Function.update s.readCount c
      (if sector = s.readSector c then s8 (if o.ok then count else -1) else 0) }

/-- `if (read_blocked)` and what depends on it. -/
def unblock : State D :=
  if s.readBlocked then
    let s := { s with readBlocked := false }
    if s.readCount s.readCurrent < 0 then
      sendCommandFailedResult s senseMediumError ascReadError 0
    else sendAndReadNext dev s
  else s

/-- `if (writebuf_overrun)` and what depends on it. -/
def pushOverrun : State D :=
  if s.writeOverrun then writebufPush dev { s with writeOverrun := false } else s

/-- The worker goes on to its next cut; `none` while it waits for a wakeup. -/
def work (o : Outcome D) : Option (State D) :=
  match s.worker with
  | .waiting =>
    if s.wakeup then some (pushOverrun dev { s with wakeup := false, worker := .write }) else none
  | .write => some { s with worker := if s.writeBusy then .writing else .cache }
  | .writing => some (written { s with worker := .cache } o)
  | .cache =>
    let c := s.readCurrent
    let sector := s.readSector c
    some { s with worker :=
      if s.readCount c = 0 then .reading c sector (min dev.bufsize (u32 (dev.numSectors - sector)))
      else .blocked }
  | .reading c sector count => some (readDone { s with worker := .blocked } c sector count o)
  | .blocked => some (unblock dev { s with worker := .sat })
  | .sat =>
    match s.satPending with
    | .none => some { s with worker := .waiting }
    | .cmd => some { s with worker := .ata .cmd }
    | .readCdb => some { s with worker := .ata .readCdb }
    | p => some { s with satPending := .none, worker := .ata p }
  | .ata p => some (finishAta { s with worker := .waiting } p o)

/-! ## Steps -/

/-- A transfer completes with `left` of its bytes missing, or the worker goes on. -/
inductive Event (D : Type)
  | transmitted (left : Nat)
  | command (cbw : CommandBlockWrapper) (left : Nat)
  | data (d : Nat → D) (left : Nat)
  | work (o : Outcome D)

/-- What the host sees of a step. -/
inductive Signal (D : Type)
  | command (cbw : CommandBlockWrapper)
  | sent (size left : Nat)
  | received (size left : Nat) (d : Nat → D)
  | status (tag : UInt32) (residue status : Nat)
  | internal

def Tx.signal (left : Nat) : Tx → Signal D
  | .csw tag residue status => .status tag residue status
  | .result _ size => .sent size left
  | .blocks _ _ size => .sent size left
  | .sat _ size => .sent size left

/-- `length -= bytesleft;` -/
def shorten (left : Nat) : State D := { s with length := u32 (s.length - left) }

/-- The transfer `rx` has brought the data `d`. -/
def receive (d : Nat → D) (left : Nat) : Option (State D × Signal D) :=
  let s' := { shorten s left with rx := none }
  match s.rx with
  | some (.blocks i size) =>
    let t := { s' with
      writeBuf := Function.update s.writeBuf i
        (overlay 0 ((size - left) / dev.sectorSize) d (s.writeBuf i)) }
    some (outComplete dev t, .received size left d)
  | some (.sat i size) =>
    let t := { s' with readBuf := Function.update s.readBuf i d }
    some (outComplete dev t, .received size left d)
  | _ => none

@[grind =] def step (e : Event D) : Option (State D × Signal D) :=
  if s.crashed then none
  else
    match e with
    | .transmitted left =>
      s.tx.map fun t => (inComplete dev { shorten s left with tx := none }, t.signal left)
    | .command cbw left =>
      if s.rx = some .cbw then
        some (outComplete dev { shorten s left with rx := none, cmdbuf := cbw }, .command cbw)
      else none
    | .data d left => receive dev s d left
    | .work o => (work dev s o).map fun t => (t, .internal)

/-- A USB transfer or a request of the worker is outstanding. -/
def Outstanding : Prop :=
  s.crashed = false ∧
    (s.tx.isSome = true ∨ s.rx.isSome = true ∨ s.wakeup = true ∨ s.worker ≠ .waiting)

instance : Decidable (Outstanding s) := by unfold Outstanding; infer_instance

/-- After `ums_init` and the first `ums_listen`; the buffers hold anything. -/
def initial (medium : Nat → D) (readBuf writeBuf : Bool → Nat → D) (cmdbuf : CommandBlockWrapper) :
    State D :=
  umsListen
    { curCmd := ⟨0, 0, 0, 0, false⟩, curSenseData := {}, satPending := .none
      satCommand := default, satResponse := default, haveSatResponse := false, satCheck := false
      state := .waitingForCommand, length := 0, cmdbuf
      readBuf, writeBuf
      readCurrent := false, readSector := fun _ => 0, readCount := fun _ => 0
      readBlocked := false, writeCurrent := false, writeSector := 0, writeCount := 0
      writeBusy := false, writeOverrun := false, writeRc := false, locked := false
      ejected := false, stallIn := false, stallOut := false, error := none, crashed := false
      tx := none, rx := none, wakeup := false, worker := .waiting, medium }

end Ums
end Freemyipod
