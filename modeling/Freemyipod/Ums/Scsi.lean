import Freemyipod.Ums.Model

/-!
# Ums.Scsi

`handle_scsi`: the replies to the commands that have one, READ(10) and WRITE(10), and the ATA
pass-through commands of the classic.
-/

namespace Freemyipod
namespace Ums

/-! ## Replies -/

def be16 (n : Nat) : List UInt8 := [.ofNat (n >>> 8), .ofNat n]

def be24 (n : Nat) : List UInt8 := .ofNat (n >>> 16) :: be16 n

def be32 (n : Nat) : List UInt8 := .ofNat (n >>> 24) :: be24 n

def le32 (n : Nat) : List UInt8 := (be32 n).reverse

/-- `copy_padded` -/
def copyPadded (src : List UInt8) (len : Nat) : List UInt8 :=
  let text := (src.takeWhile (· != 0)).take len
  text ++ List.replicate (len - text.length) 0x20

variable {D : Type} (dev : StorageInfo) (s : State D)

def inquiryData : List UInt8 :=
  [0x00, 0x80, 4, 2, 0x1f, 0, 0, 0] ++ copyPadded dev.vendor 8 ++ copyPadded dev.product 16
    ++ copyPadded dev.revision 4

def reportLunData : List UInt8 := le32 0x08000000 ++ List.replicate 12 0

/-- `sat_response_information` -/
def satResponseInformation (cmd : AtaRawCmd) : List UInt8 :=
  let high := fun x : UInt16 => UInt8.ofNat (x.toNat >>> 8)
  let low := fun x : UInt16 => UInt8.ofNat x.toNat
  let t := cmd.taskfile
  [9, 12, if cmd.lba48 then 1 else 0, low t.feature, high t.count, low t.count, high t.lbaLow,
    low t.lbaLow, high t.lbaMid, low t.lbaMid, high t.lbaHigh, low t.lbaHigh, t.device, t.command]

def senseDataDescr : List UInt8 :=
  [0x72, s.curSenseData.senseKey &&& 0x0f, s.curSenseData.asc, s.curSenseData.ascq, 0, 0, 0, 14]
    ++ satResponseInformation s.satResponse

def senseDataFixed : List UInt8 :=
  [0x70, 0, s.curSenseData.senseKey &&& 0x0f] ++ le32 s.curSenseData.information.toNat ++ [10]
    ++ le32 0 ++ [s.curSenseData.asc, s.curSenseData.ascq, 0, 0, 0, 0]

def modeSenseData10 : List UInt8 :=
  be16 22 ++ [0, 0, 1, 0] ++ be16 16 ++ be32 0 ++ be32 dev.numSectors ++ be32 0
    ++ be32 dev.sectorSize

def modeSenseData6 : List UInt8 :=
  [11, 0, 0, 8, 0] ++ be24 (if 0xffffff < dev.numSectors then 0xffffff else dev.numSectors) ++ [0]
    ++ be24 dev.sectorSize

def formatCapacityData : List UInt8 :=
  le32 0x08000000 ++ be32 (dev.numSectors - 1) ++ be32 (dev.sectorSize ||| 0x02000000)

def capacityData : List UInt8 := be32 (dev.numSectors - 1) ++ be32 dev.sectorSize

/-! ## Sense keys and codes -/

def senseSoftError : UInt8 := 0x01
def senseNotReady : UInt8 := 0x02
def senseMediumError : UInt8 := 0x03
def senseHardwareError : UInt8 := 0x04
def senseIllegalRequest : UInt8 := 0x05
def senseUnitAttention : UInt8 := 0x06
def senseDataProtect : UInt8 := 0x07
def senseAbortedCommand : UInt8 := 0x0b

def ascMediumNotPresent : UInt8 := 0x3a
def ascInvalidFieldInCbd : UInt8 := 0x24
def ascLbaOutOfRange : UInt8 := 0x21
def ascWriteError : UInt8 := 0x0c
def ascReadError : UInt8 := 0x11
def ascInvalidCommand : UInt8 := 0x20
def ascInternalTargetFailure : UInt8 := 0x44
def ascAddressMarkNotFound : UInt8 := 0x13
def ascOperatorRequest : UInt8 := 0x5a
def ascMediumMayHaveChanged : UInt8 := 0x28
def ascScsiParityError : UInt8 := 0x47
def ascWriteProtected : UInt8 := 0x27
def ascRecoveredError : UInt8 := 0x00
def ascUnsuccessfulSoftReset : UInt8 := 0x46

def ascqMediumRemovalRequest : UInt8 := 0x01
def ascqUicrcErrorDetected : UInt8 := 0x03
def ascqSatInfoAvailable : UInt8 := 0x1d

def mediumNotPresent : State D :=
  sendCommandFailedResult s senseNotReady ascMediumNotPresent 0

/-! ## The commands -/

/-- `send_command_result(&tb.., MIN(sizeof(tb..), length))` -/
def sendReply (data : List UInt8) (length : Nat) : State D :=
  sendCommandResult s (.result data) (min data.length length)

/-- A reply that is only sent while there is a medium. -/
def sendMediumReply (data : List UInt8) (length : Nat) : State D :=
  if s.ejected then mediumNotPresent s else sendReply s data length

/-- MODE SENSE: all mode pages at once are the only page there is. -/
def modeSense (data : List UInt8) (cbw : CommandBlockWrapper) : State D :=
  if s.ejected then mediumNotPresent s
  else if cbw.byte 2 &&& 0x3f = 0x3f then sendReply s data cbw.length
  else sendCommandFailedResult s senseIllegalRequest ascInvalidFieldInCbd 0

def requestSense (length : Nat) : State D :=
  if s.haveSatResponse then sendReply s (senseDataDescr s) length
  else sendReply s (senseDataFixed s) length

/-- READ(10) and WRITE(10) up to their data phase, `start`. -/
def transferBlocks (cbw : CommandBlockWrapper) (start : State D → State D) : State D :=
  if s.ejected then mediumNotPresent s
  else
    let s := { s with curCmd := { s.curCmd with sector := cbw.lba, count := cbw.blocks } }
    if dev.numSectors < u32 (cbw.lba + cbw.blocks) then
      sendCommandFailedResult s senseIllegalRequest ascLbaOutOfRange 0
    else if cbw.blocks = 0 then sendCsw s 0
    else start s

def read10 (cbw : CommandBlockWrapper) : State D := transferBlocks dev s cbw (sendAndReadNext dev)

/-- `receive_block_data(umsbuf[1][!writebuf_current], MIN(UMS_BUFSIZE, ..))` -/
def receiveNext : State D :=
  receiveBlockData s (!s.writeCurrent) (min umsBufsize (s.curCmd.count * dev.sectorSize))

def write10 (cbw : CommandBlockWrapper) : State D := transferBlocks dev s cbw (receiveNext dev)

/-- `sat_pending = ..; enqueue_async();` -/
def satPend (p : SatPending) : State D := enqueueAsync { s with satPending := p }

/-- The command that the ATA driver is to execute; its data are in the read buffer that is not
current. -/
def satCommand (cbw : CommandBlockWrapper) : AtaRawCmd :=
  let r := cbw.satRequest
  { lba48 := r.extend
    transfer := cbw.satLen != 0
    send := !cbw.satDir
    dma := cbw.satDma
    delay := ((2 <<< cbw.satOffline) - 2) * 1000000
    buffer := !s.readCurrent
    size := u32 (cbw.satUnits dev).1
    blksize := u32 (cbw.satUnits dev).2
    taskfile :=
      { feature := .ofNat r.features, count := .ofNat r.count, lbaLow := .ofNat r.lbal
        lbaMid := .ofNat r.lbam, lbaHigh := .ofNat r.lbah, device := .ofNat r.device
        command := .ofNat r.command } }

def satIssue (cbw : CommandBlockWrapper) : State D :=
  let s := { s with
    satCommand := satCommand dev s cbw
    readCount := Function.update s.readCount (!s.readCurrent) 0 }
  if cbw.satLen ≠ 0 ∧ !cbw.satDir then receiveSatWrite s (!s.readCurrent) (cbw.satSize dev)
  else satPend s .cmd

/-- A command that was answered or started by `break`: the reply registers are gone. -/
def done : State D := { s with haveSatResponse := false }

def ataPassthrough (cbw : CommandBlockWrapper) : State D :=
  if !dev.driverinfo ∨ dev.platformId ≠ 0x4c435049 then
    done (sendCommandFailedResult s senseIllegalRequest ascInvalidCommand 0)
  else
    let s := { s with
      satCommand := { s.satCommand with lba48 := cbw.satRequest.extend }
      satCheck := cbw.satCheck }
    match cbw.satProtocol with
    | .hardReset => satPend s .hrst
    | .softReset => satPend s .srst
    | .returnResponse => satPend s .readCdb
    | _ =>
      if cbw.satInvalid dev then
        sendCommandFailedResult s senseIllegalRequest ascInvalidFieldInCbd 0
      else done (satIssue dev s cbw)

def startStopUnit (cbw : CommandBlockWrapper) : State D :=
  sendCsw { s with ejected := s.ejected || decide (cbw.byte 4 &&& 0xf3 = 2) } 0

def allowMediumRemoval (cbw : CommandBlockWrapper) : State D :=
  sendCsw { s with locked := decide (cbw.byte 4 &&& 0x03 ≠ 0) } 0

/-- What `handle_scsi` remembers of every wrapper with the right signature. -/
def accept (cbw : CommandBlockWrapper) : State D :=
  { s with curCmd :=
    { s.curCmd with
      tag := cbw.tag
      bytesPending := cbw.length
      dataDirection := cbw.dataIn } }

/-- The `switch` of `handle_scsi`. -/
def execute (cbw : CommandBlockWrapper) : State D :=
  match cbw.opcode with
  | .testUnitReady => done (if s.ejected then mediumNotPresent s else sendCsw s 0)
  | .reportLuns => done (sendReply s reportLunData cbw.length)
  | .inquiry => done (sendReply s (inquiryData dev) (min cbw.length (cbw.byte 4)))
  | .requestSense => done (requestSense s cbw.length)
  | .modeSense10 => done (modeSense s (modeSenseData10 dev) cbw)
  | .modeSense6 => done (modeSense s (modeSenseData6 dev) cbw)
  | .startStopUnit => done (startStopUnit s cbw)
  | .allowMediumRemoval => done (allowMediumRemoval s cbw)
  | .readFormatCapacity => done (sendMediumReply s (formatCapacityData dev) cbw.length)
  | .readCapacity => done (sendMediumReply s (capacityData dev) cbw.length)
  | .read10 => done (read10 dev s cbw)
  | .write10 => done (write10 dev s cbw)
  -- accepted, but neither answered nor continued
  | .writeBuffer => done s
  | .ataPassthrough12 | .ataPassthrough16 => ataPassthrough dev s cbw
  | .other => done (sendCommandFailedResult s senseIllegalRequest ascInvalidCommand 0)

def handleScsi (cbw : CommandBlockWrapper) : State D :=
  if cbw.signature ≠ 0x43425355 then { s with stallIn := true, stallOut := true }
  else execute dev (accept s cbw) cbw

end Ums
end Freemyipod
