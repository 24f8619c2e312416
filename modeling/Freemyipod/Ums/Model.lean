import Mathlib
import Freemyipod.Lib.Runs

/-!
# Ums.Model

The mass-storage function of disk mode (`apps/diskmode/ums.c`): bulk-only command wrappers, the
SCSI commands in them, the completion handler of the USB transfers and the storage worker.

Numbers of sectors and bytes are `Nat`s below `2^32`, and each sum or difference that the code forms
in 32 bits is reduced. The content of one sector is a value of `D`; a buffer is a function of the
sector's number in it. A transfer that was started is `tx` or `rx` until it completes; the bytes of
a received transfer are in their buffer when the completion handler runs.

The worker (`ums_handle_async`, called by the main loop after each wakeup) is cut at its calls
of the storage driver and between its four parts: the handlers run between any two of these.
-/

namespace Freemyipod
namespace Ums

def umsBufsize : Nat := 65536

/-- Conversion of an integer to 32 bits, unsigned. -/
@[grind =] def u32 (z : Int) : Nat := (z % 4294967296).toNat

/-- Conversion of an integer to 32 bits, signed. -/
def s32 (z : Int) : Int := (z + 2147483648) % 4294967296 - 2147483648

/-- Conversion of an integer to 8 bits, signed. -/
def s8 (z : Int) : Int := (z + 128) % 256 - 128

/-- `storage_info` and the platform. A sector has 2048 bytes on the nano 2G and 4096 on the
classic; only the classic's driver has a `driverinfo`. -/
structure StorageInfo where
  sectorSize : Nat
  numSectors : Nat
  vendor : List UInt8
  product : List UInt8
  revision : List UInt8
  driverinfo : Bool
  platformId : UInt32
  size_dvd : sectorSize ∣ umsBufsize
  size_ge : 1024 ≤ sectorSize
  size_le : sectorSize ≤ 16384
  num_pos : 0 < numSectors
  num_lt : numSectors < 4294967296

/-- The number of sectors in a buffer. -/
def StorageInfo.bufsize (dev : StorageInfo) : Nat := umsBufsize / dev.sectorSize

instance sixteen_neZero : NeZero 16 := ⟨by decide⟩

structure CommandBlockWrapper where
  signature : UInt32
  tag : UInt32
  dataTransferLength : UInt32
  flags : UInt8
  commandBlock : Fin 16 → UInt8

/-! ## Commands -/

inductive Opcode
  | testUnitReady
  | requestSense
  | inquiry
  | modeSense6
  | startStopUnit
  | allowMediumRemoval
  | readFormatCapacity
  | readCapacity
  | read10
  | write10
  | writeBuffer
  | modeSense10
  | ataPassthrough16
  | reportLuns
  | ataPassthrough12
  | other
deriving DecidableEq

def Opcode.ofByte : Nat → Opcode
  | 0x00 => .testUnitReady
  | 0x03 => .requestSense
  | 0x12 => .inquiry
  | 0x1a => .modeSense6
  | 0x1b => .startStopUnit
  | 0x1e => .allowMediumRemoval
  | 0x23 => .readFormatCapacity
  | 0x25 => .readCapacity
  | 0x28 => .read10
  | 0x2a => .write10
  | 0x3b => .writeBuffer
  | 0x5a => .modeSense10
  | 0x85 => .ataPassthrough16
  | 0xa0 => .reportLuns
  | 0xa1 => .ataPassthrough12
  | _ => .other

inductive SatProtocol
  | hardReset
  | softReset
  | nonData
  | pioDataIn
  | pioDataOut
  | udmaDataIn
  | udmaDataOut
  | returnResponse
  | other
deriving DecidableEq

def SatProtocol.ofField : Nat → SatProtocol
  | 0x0 => .hardReset
  | 0x1 => .softReset
  | 0x3 => .nonData
  | 0x4 => .pioDataIn
  | 0x5 => .pioDataOut
  | 0xa => .udmaDataIn
  | 0xb => .udmaDataOut
  | 0xf => .returnResponse
  | _ => .other

namespace CommandBlockWrapper

variable (cbw : CommandBlockWrapper)

def byte (i : Fin 16) : Nat := (cbw.commandBlock i).toNat

def length : Nat := cbw.dataTransferLength.toNat

def opcode : Opcode := .ofByte (cbw.byte 0)

/-- `flags & 0x80`: the host expects data. -/
def dataIn : Bool := cbw.flags.toNat.testBit 7

/-- The first sector of a READ(10) or WRITE(10). -/
def lba : Nat :=
  (cbw.byte 2 <<< 24) ||| (cbw.byte 3 <<< 16) ||| (cbw.byte 4 <<< 8) ||| cbw.byte 5

/-- The number of sectors of a READ(10) or WRITE(10). -/
def blocks : Nat := (cbw.byte 7 <<< 8) ||| cbw.byte 8

end CommandBlockWrapper

/-- The registers of an ATA command, which the driver overwrites with those of the reply. -/
structure Taskfile where
  feature : UInt16
  count : UInt16
  lbaLow : UInt16
  lbaMid : UInt16
  lbaHigh : UInt16
  device : UInt8
  command : UInt8
deriving DecidableEq, Inhabited

/-- `ata_raw_cmd_t`; `buffer` is the number of a read buffer. -/
structure AtaRawCmd where
  lba48 : Bool
  transfer : Bool
  send : Bool
  dma : Bool
  delay : Nat
  buffer : Bool
  size : Nat
  blksize : Nat
  taskfile : Taskfile
deriving DecidableEq, Inhabited

/-- The fields of an ATA pass-through command, those of the short form or of the long one. -/
structure SatRequest where
  extend : Bool
  features : Nat
  count : Nat
  lbal : Nat
  lbam : Nat
  lbah : Nat
  device : Nat
  command : Nat

namespace CommandBlockWrapper

variable (cbw : CommandBlockWrapper)

def satRequest : SatRequest :=
  if cbw.opcode = .ataPassthrough16 then
    let extend := (cbw.byte 1).testBit 0
    let high := fun i => if extend then cbw.byte i <<< 8 else 0
    { extend
      features := high 3 ||| cbw.byte 4
      count := high 5 ||| cbw.byte 6
      lbal := high 7 ||| cbw.byte 8
      lbam := high 9 ||| cbw.byte 10
      lbah := high 11 ||| cbw.byte 12
      device := cbw.byte 13 &&& 0xef
      command := cbw.byte 14 }
  else
    { extend := false
      features := cbw.byte 3
      count := cbw.byte 4
      lbal := cbw.byte 5
      lbam := cbw.byte 6
      lbah := cbw.byte 7
      device := cbw.byte 8 &&& 0xef
      command := cbw.byte 9 }

def satProtocol : SatProtocol := .ofField ((cbw.byte 1 >>> 1) &&& 0xf)

def satOffline : Nat := cbw.byte 2 >>> 6
def satCheck : Bool := (cbw.byte 2).testBit 5
def satType : Bool := (cbw.byte 2).testBit 4
def satDir : Bool := (cbw.byte 2).testBit 3
def satBlock : Bool := (cbw.byte 2).testBit 2
def satLen : Nat := cbw.byte 2 &&& 3

/-- The number that the T_LENGTH field refers to, as an `int`. -/
def satLength : Int :=
  match cbw.satLen with
  | 1 => cbw.satRequest.features
  | 2 => cbw.satRequest.count
  | 3 => s32 cbw.length
  | _ => 0

/-- `blocks` and `bytes`. -/
def satUnits (dev : StorageInfo) : Int × Int :=
  if cbw.satBlock then (cbw.satLength, if cbw.satType then dev.sectorSize else 512)
  else (1, cbw.satLength)

/-- `blocks * bytes`, as a size in 32 bits. -/
def satSize (dev : StorageInfo) : Nat := u32 ((cbw.satUnits dev).1 * (cbw.satUnits dev).2)

/-- What makes a pass-through command `invalid`, once the protocol is one with a command. -/
def satInvalid (dev : StorageInfo) : Bool :=
  decide (s32 ((cbw.satUnits dev).1 * (cbw.satUnits dev).2) > umsBufsize) ||
  match cbw.satProtocol with
  | .nonData => cbw.satLen != 0
  | .pioDataIn | .udmaDataIn => cbw.satLen == 0 || !cbw.satDir
  | .pioDataOut | .udmaDataOut => cbw.satLen == 0 || cbw.satDir
  | _ => true

def satDma : Bool := cbw.satProtocol = .udmaDataIn || cbw.satProtocol = .udmaDataOut

end CommandBlockWrapper

/-! ## The state -/

/-- What sense data says; all 0 after a successful command. -/
structure SenseData where
  senseKey : UInt8 := 0
  information : UInt8 := 0
  asc : UInt8 := 0
  ascq : UInt8 := 0
deriving DecidableEq

structure CurCmd where
  sector : Nat
  count : Nat
  tag : UInt32
  bytesPending : Nat
  dataDirection : Bool

inductive SatPending
  | none
  | srst
  | hrst
  | cmd
  | readCdb
deriving DecidableEq

/-- The type of the variable `state`. -/
inductive Phase
  | waitingForCommand
  | sendingBlocks
  | sendingResult
  | receivingBlocks
  | waitingForCswCompletion
  | receivingSatWrite
  | processing
deriving DecidableEq

/-- A transmission that was started: a status wrapper, the bytes of a reply, sectors of a read
buffer from the sector `offset` on, or the reply to a pass-through command. -/
inductive Tx
  | csw (tag : UInt32) (residue status : Nat)
  | result (data : List UInt8) (size : Nat)
  | blocks (i : Bool) (offset size : Nat)
  | sat (i : Bool) (size : Nat)
deriving DecidableEq

/-- A reception that was started: of a command wrapper, into a write buffer, or of the data of a
pass-through command into a read buffer. -/
inductive Rx
  | cbw
  | blocks (i : Bool) (size : Nat)
  | sat (i : Bool) (size : Nat)
deriving DecidableEq

/-- Where the worker is. -/
inductive Worker
  /-- in `wakeup_wait` -/
  | waiting
  /-- before `if (writebuf_busy)` -/
  | write
  /-- in `storage_write_sectors_md` -/
  | writing
  /-- before `int c = readbuf_current` -/
  | cache
  /-- in `storage_read_sectors_md` for the buffer `c` -/
  | reading (c : Bool) (sector count : Nat)
  /-- before `if (read_blocked)` -/
  | blocked
  /-- before `switch (sat_pending)` -/
  | sat
  /-- in a call of the ATA driver -/
  | ata (p : SatPending)
deriving DecidableEq

/-- The variables of `ums.c` and of the main loop, the transfers under way and the medium.
`readBuf` is `umsbuf[0]`, `writeBuf` is `umsbuf[1]`; `writeRc` says that `write_rc` is an error. -/
structure State (D : Type) where
  curCmd : CurCmd
  curSenseData : SenseData
  satPending : SatPending
  satCommand : AtaRawCmd
  /-- the pass-through command whose reply `sat_response_information` holds -/
  satResponse : AtaRawCmd
  haveSatResponse : Bool
  satCheck : Bool
  state : Phase
  length : Nat
  cmdbuf : CommandBlockWrapper
  readBuf : Bool → Nat → D
  writeBuf : Bool → Nat → D
  readCurrent : Bool
  readSector : Bool → Nat
  readCount : Bool → Int
  readBlocked : Bool
  writeCurrent : Bool
  writeSector : Nat
  writeCount : Nat
  writeBusy : Bool
  writeOverrun : Bool
  writeRc : Bool
  locked : Bool
  ejected : Bool
  stallIn : Bool
  stallOut : Bool
  error : Option String
  /-- a `memcpy` has left its buffers -/
  crashed : Bool
  tx : Option Tx
  rx : Option Rx
  wakeup : Bool
  worker : Worker
  medium : Nat → D

variable {D : Type} (dev : StorageInfo) (s : State D)

/-! ## Starting transfers -/

def enqueueAsync : State D := { s with wakeup := true }

def listen : State D := { s with rx := some .cbw }

def umsListen : State D := listen { s with state := .waitingForCommand }

def fail (msg : String) : State D :=
  { s with error := some msg, ejected := true, wakeup := true }

def sendCsw (status : Nat) : State D :=
  { s with
    stallIn := s.stallIn || (s.curCmd.bytesPending != 0 && s.curCmd.dataDirection)
    stallOut := s.stallOut || (s.curCmd.bytesPending != 0 && !s.curCmd.dataDirection)
    state := .waitingForCswCompletion
    tx := some (.csw s.curCmd.tag s.curCmd.bytesPending status)
    curSenseData := if status = 0 then {} else s.curSenseData }

def sendCommandFailedResult (key asc ascq : UInt8) : State D :=
  let s := sendCsw s 1
  { s with curSenseData := { s.curSenseData with senseKey := key, asc := asc, ascq := ascq } }

/-- `cur_cmd.bytes_pending -= size; length = size;` -/
@[grind =] def takeBytes (size : Nat) : State D :=
  { s with
    curCmd := { s.curCmd with bytesPending := s.curCmd.bytesPending - size }
    length := size }

def receiveBlockData (i : Bool) (size : Nat) : State D :=
  if s.curCmd.dataDirection then fail s "diskmode: Attempting to receive data for IN command!"
  else if s.curCmd.bytesPending < size then fail s "diskmode: Receive overrun!"
  else { takeBytes s size with rx := some (.blocks i size), state := .receivingBlocks }

def receiveSatWrite (i : Bool) (size : Nat) : State D :=
  if s.curCmd.dataDirection then
    fail s "diskmode: Attempting to receive data for SAT IN command!"
  else if s.curCmd.bytesPending < size then fail s "diskmode: Receive SAT overrun!"
  else { takeBytes s size with rx := some (.sat i size), state := .receivingSatWrite }

def sendBlockData (i : Bool) (offset size : Nat) : State D :=
  if !s.curCmd.dataDirection then fail s "diskmode: Attempting to send data for OUT command!"
  else if s.curCmd.bytesPending < size then fail s "diskmode: Send block overrun!"
  else { takeBytes s size with tx := some (.blocks i offset size), state := .sendingBlocks }

/-- `data` makes the transmission, of the data to send and its size. -/
def sendCommandResult (data : Nat → Tx) (size : Nat) : State D :=
  if !s.curCmd.dataDirection then fail s "diskmode: Attempting to send result for OUT command!"
  else if s.curCmd.bytesPending < size then fail s "diskmode: Send result overrun!"
  else { takeBytes s size with tx := some (data size), state := .sendingResult }

/-! ## Reading -/

/-- `readbuf_sector[i] + readbuf_count[i]` -/
def readTop (i : Bool) : Nat := u32 (s.readSector i + s.readCount i)

/-- The next sector to send belongs to the part of the medium that buffer `i` is for. -/
def readHit (i : Bool) : Bool :=
  s.readSector i ≤ s.curCmd.sector && s.curCmd.sector < u32 (s.readSector i + dev.bufsize)

/-- The buffer `i`, now in use, is the current one: the other is made current, for what follows. -/
@[grind =] def prefetch (i : Bool) (overlap : Nat) : State D :=
  if i = s.readCurrent ∧ readTop s i < dev.numSectors then
    enqueueAsync { s with
      readCurrent := !i
      readSector := Function.update s.readSector (!i)
        (max (readTop s i) (u32 (s.curCmd.sector + overlap)))
      readCount := Function.update s.readCount (!i) 0 }
  else s

/-- `cur_cmd.sector += overlap; cur_cmd.count -= overlap;` -/
def advance (overlap : Nat) : State D :=
  { s with
    curCmd :=
      { s.curCmd with
        sector := u32 (s.curCmd.sector + overlap)
        count := s.curCmd.count - overlap } }

/-- The body of the loop of `send_and_read_next` for the buffer `i` that is hit. -/
def sendFrom (i : Bool) : State D :=
  if readTop s i ≤ s.curCmd.sector then
    enqueueAsync { s with readCurrent := i, readBlocked := true }
  else
    let overlap := min (readTop s i - s.curCmd.sector) s.curCmd.count
    let offset := s.curCmd.sector - s.readSector i
    advance (sendBlockData (prefetch dev s i overlap) i offset (u32 (overlap * dev.sectorSize)))
      overlap

def sendAndReadNext : State D :=
  if readHit dev s false then sendFrom dev s false
  else if readHit dev s true then sendFrom dev s true
  else
    enqueueAsync { s with
      readCurrent := !s.readCurrent
      readSector := Function.update s.readSector (!s.readCurrent) s.curCmd.sector
      readCount := Function.update s.readCount (!s.readCurrent) 0
      readBlocked := true }

end Ums
end Freemyipod
