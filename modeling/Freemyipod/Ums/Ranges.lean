import Freemyipod.Ums.Conformance

/-!
# Ums.Ranges

The range checks of `handle_scsi`: the sectors that the storage driver is called for are on the
medium, and no transfer over USB or of an ATA command is larger than a buffer (`InBounds`). What the
checks miss is `Wraps` and `Overlong`; but for that, each function that starts a transfer or defers
to the worker gets from a state in which nothing is under way (`Fresh`) to one that keeps the
invariant (`Sound`), and so does a command (`execute_sound`).
-/

namespace Freemyipod
namespace Ums

/-! ## Bounds and what the checks miss -/

/-- The bytes of a transmission; a status wrapper has 13. -/
@[grind =] def Tx.size : Tx → Nat
  | .csw _ _ _ => 13
  | .result _ size => size
  | .blocks _ _ size => size
  | .sat _ size => size

/-- The bytes of a reception; a command wrapper has 31. -/
def Rx.size : Rx → Nat
  | .cbw => 31
  | .blocks _ size => size
  | .sat _ size => size

variable {D : Type} (dev : StorageInfo)

/-- Calls of the storage driver are for sectors of the device, as many as there are in a buffer; the
USB transfers and the one of an ATA command are no larger than a buffer. -/
structure InBounds (s : State D) : Prop where
  write : s.worker = .writing →
    s.writeSector + s.writeCount ≤ dev.numSectors ∧ s.writeCount ≤ dev.bufsize
  read : ∀ c sector count, s.worker = .reading c sector count →
    sector + count ≤ dev.numSectors ∧ count ≤ dev.bufsize
  tx : ∀ t, s.tx = some t → t.size ≤ umsBufsize
  rx : ∀ r, s.rx = some r → r.size ≤ umsBufsize
  ata : s.worker = .ata .cmd → s.satCommand.size * s.satCommand.blksize ≤ umsBufsize

namespace CommandBlockWrapper

variable (cbw : CommandBlockWrapper)

/-- The number that the T_LENGTH field refers to. -/
def satField : Nat :=
  match cbw.satLen with
  | 1 => cbw.satRequest.features
  | 2 => cbw.satRequest.count
  | 3 => cbw.length
  | _ => 0

/-- The bytes that a pass-through command asks for. -/
def satBytes : Nat :=
  if cbw.satBlock then cbw.satField * (if cbw.satType then dev.sectorSize else 512) else cbw.satField

/-- `satInvalid` but for the size. -/
def satMismatch : Bool :=
  match cbw.satProtocol with
  | .nonData => cbw.satLen != 0
  | .pioDataIn | .udmaDataIn => cbw.satLen == 0 || !cbw.satDir
  | .pioDataOut | .udmaDataOut => cbw.satLen == 0 || cbw.satDir
  | _ => true

/-- A pass-through protocol with a command, not a reset and not the reply registers. -/
def satCommands : Bool :=
  cbw.satProtocol != .hardReset && cbw.satProtocol != .softReset
    && cbw.satProtocol != .returnResponse

/-- What the command asks for is not there, or does not fit. -/
def OutOfRange : Prop :=
  match cbw.opcode with
  | .read10 | .write10 => dev.numSectors < cbw.lba + cbw.blocks
  | .ataPassthrough12 | .ataPassthrough16 =>
    cbw.satCommands = true ∧ umsBufsize < cbw.satBytes dev
  | _ => False

/-- In 32 bits, it is. -/
def Wraps : Prop :=
  match cbw.opcode with
  | .read10 | .write10 =>
    4294967296 ≤ cbw.lba + cbw.blocks ∧ cbw.lba + cbw.blocks - 4294967296 ≤ dev.numSectors
  | .ataPassthrough12 | .ataPassthrough16 =>
    2147483648 ≤ cbw.satBytes dev ∧ s32 (cbw.satBytes dev) ≤ umsBufsize
  | _ => False

/-- Everything but the range is checked to be right. -/
def Admitted (s : State D) : Prop :=
  cbw.signature = 0x43425355 ∧
    match cbw.opcode with
    | .read10 | .write10 => s.ejected = false
    | .ataPassthrough12 | .ataPassthrough16 =>
      dev.driverinfo = true ∧ dev.platformId = 0x4c435049 ∧ cbw.satCommands = true ∧
        cbw.satMismatch = false
    | _ => True

/-- What `handle_scsi` makes of READ(10). -/
def curCmd : CurCmd := ⟨cbw.lba, cbw.blocks, cbw.tag, cbw.length, cbw.dataIn⟩

end CommandBlockWrapper

/-- `send_and_read_next` sends more sectors than a buffer has: the first buffer that is for the next
one is marked by a failed read of sector 0. -/
def Overlong (sector : Bool → Nat) (count : Bool → Int) (c : CurCmd) : Prop :=
  c.dataDirection = true ∧ dev.bufsize < c.count ∧ c.count * dev.sectorSize ≤ c.bytesPending ∧
    c.sector < dev.bufsize ∧
    ∃ i, sector i = 0 ∧ count i = -1 ∧
      (i = true → ¬ (sector false ≤ c.sector ∧ c.sector < u32 (sector false + dev.bufsize)))

/-- A step is none of the three that the range checks miss. -/
def Checked (s : State D) : Event D → Prop
  | .transmitted _ => s.state = .sendingBlocks → s.curCmd.count ≠ 0 →
    ¬ Overlong dev s.readSector s.readCount s.curCmd
  | .command cbw _ => cbw.Admitted dev s →
    ¬ cbw.Wraps dev ∧
      (cbw.opcode = .read10 → Accepted dev cbw →
        ¬ Overlong dev s.readSector s.readCount cbw.curCmd)
  | .data _ _ => True
  | .work _ => s.worker = .blocked → s.readBlocked = true → 0 ≤ s.readCount s.readCurrent →
    ¬ Overlong dev s.readSector s.readCount s.curCmd

/-- A command that is out of range is answered with an error status. -/
def Refuses (s : State D) : Event D → Prop
  | .command cbw left => cbw.signature = 0x43425355 → cbw.OutOfRange dev →
    ∀ t o, step dev s (.command cbw left) = some (t, o) →
      t.tx = some (.csw cbw.tag cbw.length 1)
  | _ => True

/-- `bytesleft` is a non-negative `int`. -/
def Event.Proper : Event D → Prop
  | .transmitted left => left < 2147483648
  | .command _ left => left < 2147483648
  | .data _ left => left < 2147483648
  | .work _ => True

/-! ## What a pass-through command asks for -/

theorem s32_of_lt {n : Nat} (h : n < 2147483648) : s32 n = n := by
  simp only [s32]
  omega

theorem s32_mul (a b : Int) : s32 (s32 a * b) = s32 (a * b) := by
  have h : s32 a * b = a * b + 4294967296 * (-((a + 2147483648) / 4294967296) * b) := by
    have := Int.emod_def (a + 2147483648) 4294967296
    simp only [s32, this]
    ring
  rw [h, s32, s32, add_right_comm, Int.add_mul_emod_self_left]

theorem u32_s32_nat {n : Nat} (h : n < 4294967296) : u32 (s32 n) = n := by
  simp only [u32, s32]
  omega

namespace CommandBlockWrapper

variable (cbw : CommandBlockWrapper)

theorem length_lt : cbw.length < 4294967296 := UInt32.toNat_lt _

/-- A field of one byte, or of two in the long form of the command. -/
theorem field_lt (i j : Fin 16) (extend : Bool) :
    (if extend then cbw.byte i <<< 8 else 0) ||| cbw.byte j < 65536 := by
  have hj : cbw.byte j < 2 ^ 16 := (cbw.byte_lt j).trans (by decide)
  have hi : (if extend then cbw.byte i <<< 8 else 0) < 2 ^ 16 := by
    split
    · exact cbw.shift_lt i (by decide)
    · decide
  exact Nat.or_lt_two_pow hi hj

theorem features_lt : cbw.satRequest.features < 65536 := by
  have hlong := cbw.field_lt 3 4 ((cbw.byte 1).testBit 0)
  have hshort := cbw.byte_lt 3
  simp only [satRequest]
  split
  · exact hlong
  · exact hshort.trans (by decide)

theorem count_lt : cbw.satRequest.count < 65536 := by
  have hlong := cbw.field_lt 5 6 ((cbw.byte 1).testBit 0)
  have hshort := cbw.byte_lt 4
  simp only [satRequest]
  split
  · exact hlong
  · exact hshort.trans (by decide)

theorem satField_lt : cbw.satField < 4294967296 := by
  have hf := cbw.features_lt
  have hc := cbw.count_lt
  have hl := cbw.length_lt
  rw [satField]
  split <;> omega

theorem satLength_eq : cbw.satLength = s32 cbw.satField := by
  have hf := cbw.features_lt
  have hc := cbw.count_lt
  rw [satLength]
  split
  · rename_i h
    rw [satField, h]
    exact (s32_of_lt (by omega)).symm
  · rename_i h
    rw [satField, h]
    exact (s32_of_lt (by omega)).symm
  · rename_i h
    have hf : cbw.satField = cbw.length := by simp only [satField, h]
    rw [hf]
  · rename_i h1 h2 h3
    have h0 : cbw.satField = 0 := by
      rw [satField]
      split
      · rename_i h
        exact absurd h h1
      · rename_i h
        exact absurd h h2
      · rename_i h
        exact absurd h h3
      · rfl
    rw [h0]
    exact (s32_of_lt (by decide)).symm

/-- The product that is compared to the size of the buffer. -/
theorem s32_units (dev : StorageInfo) :
    s32 ((cbw.satUnits dev).1 * (cbw.satUnits dev).2) = s32 (cbw.satBytes dev) := by
  rw [satUnits, satBytes, satLength_eq]
  split
  · rw [s32_mul]
    split <;> simp
  · have h := s32_mul cbw.satField 1
    rw [mul_one, mul_one] at h
    rw [one_mul, h]

theorem satInvalid_eq (dev : StorageInfo) :
    cbw.satInvalid dev = (decide (s32 (cbw.satBytes dev) > umsBufsize) || cbw.satMismatch) := by
  rw [satInvalid, s32_units]
  rfl

theorem u32_units (dev : StorageInfo) :
    u32 (cbw.satUnits dev).1 * u32 (cbw.satUnits dev).2 = cbw.satBytes dev := by
  have hs := dev.size_le
  have hf := cbw.satField_lt
  rw [satUnits, satBytes, satLength_eq]
  split
  · rw [u32_s32_nat hf]
    split
    · rw [u32_of_lt (by omega)]
    · rfl
  · have h1 : u32 1 = 1 := u32_of_lt (n := 1) (by omega)
    rw [u32_s32_nat hf, h1, one_mul]

variable {cbw}

/-- Without a wrap, the check is exact. -/
theorem satBytes_le {dev : StorageInfo} (hop : cbw.opcode = .ataPassthrough12 ∨
    cbw.opcode = .ataPassthrough16) (hw : ¬ cbw.Wraps dev) (hv : cbw.satInvalid dev = false) :
    cbw.satBytes dev ≤ umsBufsize := by
  rw [satInvalid_eq, Bool.or_eq_false_iff, decide_eq_false_iff_not, not_lt] at hv
  have hlt : cbw.satBytes dev < 2147483648 := by
    by_contra hge
    refine hw ?_
    rcases hop with hop | hop <;> rw [Wraps, hop] <;> exact ⟨Nat.not_lt.1 hge, hv.1⟩
  rw [s32_of_lt hlt] at hv
  exact_mod_cast hv.1

theorem satSize_eq {dev : StorageInfo} (h : cbw.satBytes dev ≤ umsBufsize) :
    cbw.satSize dev = cbw.satBytes dev := by
  have hs : u32 (s32 ((cbw.satUnits dev).1 * (cbw.satUnits dev).2)) = cbw.satSize dev := by
    simp only [satSize, u32, s32]
    omega
  rw [umsBufsize] at h
  rw [← hs, s32_units, u32_s32_nat (by omega)]

/-- Without a wrap, so is the check of READ(10) and WRITE(10). -/
theorem in_range {dev : StorageInfo} (hop : cbw.opcode = .read10 ∨ cbw.opcode = .write10)
    (hw : ¬ cbw.Wraps dev) (ha : u32 (cbw.lba + cbw.blocks) ≤ dev.numSectors) :
    cbw.lba + cbw.blocks ≤ dev.numSectors := by
  have h1 := cbw.lba_lt
  have h2 := cbw.blocks_lt
  have hw : ¬ (4294967296 ≤ cbw.lba + cbw.blocks ∧
      cbw.lba + cbw.blocks - 4294967296 ≤ dev.numSectors) := by
    rcases hop with hop | hop <;> rwa [Wraps, hop] at hw
  simp only [u32] at ha
  omega

end CommandBlockWrapper

/-! ## The invariant -/

/-- The sectors of a command that are still to be moved are on the medium. -/
structure CurCmd.InRange (c : CurCmd) : Prop where
  range : c.sector + c.count ≤ dev.numSectors
  count_lt : c.count < 65536

/-- The variables that say what the command is at. -/
structure Flight where
  state : Phase
  tx : Option Tx
  rx : Option Rx
  curCmd : CurCmd
  length : Nat
  readBlocked : Bool
  writeOverrun : Bool
  satPending : SatPending
  worker : Worker

def State.flight (s : State D) : Flight :=
  ⟨s.state, s.tx, s.rx, s.curCmd, s.length, s.readBlocked, s.writeOverrun, s.satPending, s.worker⟩

/-- The worker has nothing to do for a command. -/
structure AtRest (readBlocked writeOverrun : Bool) (satPending : SatPending) (worker : Worker) :
    Prop where
  readBlocked : readBlocked = false
  writeOverrun : writeOverrun = false
  satPending : satPending = .none
  worker : ∀ p, worker ≠ .ata p

def Flight.Idle (f : Flight) : Prop := AtRest f.readBlocked f.writeOverrun f.satPending f.worker

/-- Either one transfer is under way, and in bounds, or the worker has one thing to do, or nothing
goes on. -/
inductive Stage (f : Flight) : Prop
  | waiting : f.tx = none → f.rx = none → f.readBlocked = false → f.writeOverrun = false →
      (∀ p, f.worker = .ata p → p = .srst ∨ p = .hrst → f.satPending = .none) → Stage f
  | listening : f.Idle → f.tx = none → f.rx = some .cbw → f.state = .waitingForCommand → Stage f
  | answering {t : Tx} : f.Idle → f.tx = some t → t.size ≤ umsBufsize → f.rx = none →
      (f.state = .waitingForCswCompletion ∨ f.state = .sendingResult) → Stage f
  | sending {t : Tx} : f.Idle → f.tx = some t → t.size ≤ umsBufsize → f.rx = none →
      f.state = .sendingBlocks → f.curCmd.InRange dev → Stage f
  | receiving {i : Bool} : f.Idle → f.tx = none → f.rx = some (.blocks i f.length) →
      f.state = .receivingBlocks → f.curCmd.InRange dev →
      f.length = min umsBufsize (f.curCmd.count * dev.sectorSize) → Stage f
  | satReceiving {i : Bool} {size : Nat} : f.Idle → f.tx = none → f.rx = some (.sat i size) →
      size ≤ umsBufsize → f.state = .receivingSatWrite → Stage f
  | blocked : f.tx = none → f.rx = none → f.readBlocked = true → f.writeOverrun = false →
      f.satPending = .none → (∀ p, f.worker ≠ .ata p) → f.curCmd.InRange dev →
      0 < f.curCmd.count → Stage f
  | overrun : f.tx = none → f.rx = none → f.readBlocked = false → f.writeOverrun = true →
      f.satPending = .none → (∀ p, f.worker ≠ .ata p) → f.curCmd.InRange dev →
      f.length / dev.sectorSize ≤ f.curCmd.count → f.length / dev.sectorSize ≤ dev.bufsize → Stage f

/-- What the caches, the worker and the pass-through command are like in every state. -/
structure Kept (s : State D) : Prop where
  cache : Cache dev s.readSector s.readCount s.worker
  reading : ∀ c b n, s.worker = .reading c b n → b < dev.numSectors
  write_le : s.writeSector + s.writeCount ≤ dev.numSectors
  write_count : s.writeCount ≤ dev.bufsize
  sat : s.satCommand.size * s.satCommand.blksize ≤ umsBufsize

structure Sound (s : State D) : Prop extends Kept dev s where
  stage : Stage dev s.flight

/-- A command is being executed, and nothing is under way for it yet. -/
structure Fresh (s : State D) : Prop extends Kept dev s where
  idle : AtRest s.readBlocked s.writeOverrun s.satPending s.worker
  tx : s.tx = none
  rx : s.rx = none

variable {dev} {s t : State D}

theorem csw_size {tag : UInt32} {residue status : Nat} :
    (Tx.csw tag residue status).size ≤ umsBufsize := by
  simp [Tx.size, umsBufsize]

theorem Kept.update (h : Kept dev s) {c : CurCmd} {sense : SenseData} {p : Phase} {n : Nat}
    {stallIn stallOut : Bool} {tx : Option Tx} {rx : Option Rx} :
    Kept dev { s with
      curCmd := c, curSenseData := sense, state := p, length := n, stallIn, stallOut, tx, rx } :=
  ⟨h.cache, h.reading, h.write_le, h.write_count, h.sat⟩

theorem Kept.relocate (h : Kept dev s) {w : Worker} (hr : ∀ c b n, w ≠ .reading c b n) :
    Kept dev { s with worker := w } :=
  ⟨h.cache.of_worker hr, fun c b n he => absurd he (hr c b n), h.write_le, h.write_count, h.sat⟩

theorem Sound.inBounds (h : Sound dev s) : InBounds dev s := by
  have hbuf : (31 : Nat) ≤ umsBufsize := by decide
  refine ⟨fun _ => ⟨h.write_le, h.write_count⟩, ?_, ?_, ?_, fun _ => h.sat⟩
  · intro c b n hw
    have hb := h.reading c b n hw
    have hn := h.cache.reading c b n hw
    omega
  · intro t ht
    have hne : s.flight.tx ≠ none := by
      rw [State.flight, ht]
      exact Option.some_ne_none t
    cases h.stage with
    | waiting h0 => exact absurd h0 hne
    | listening _ h0 => exact absurd h0 hne
    | answering _ h0 hle =>
      rw [State.flight, ht] at h0
      cases h0
      exact hle
    | sending _ h0 hle =>
      rw [State.flight, ht] at h0
      cases h0
      exact hle
    | receiving _ h0 => exact absurd h0 hne
    | satReceiving _ h0 => exact absurd h0 hne
    | blocked h0 => exact absurd h0 hne
    | overrun h0 => exact absurd h0 hne
  · intro r hr
    have hne : s.flight.rx ≠ none := by
      rw [State.flight, hr]
      exact Option.some_ne_none r
    cases h.stage with
    | waiting _ h0 => exact absurd h0 hne
    | listening _ _ h0 =>
      rw [State.flight, hr] at h0
      cases h0
      exact hbuf
    | answering _ _ _ h0 => exact absurd h0 hne
    | sending _ _ _ h0 => exact absurd h0 hne
    | receiving _ _ h0 _ _ hlen =>
      have hle := hlen.le.trans (min_le_left _ _)
      cases hr.symm.trans h0
      exact hle
    | satReceiving _ _ h0 hle =>
      rw [State.flight, hr] at h0
      cases h0
      exact hle
    | blocked _ h0 => exact absurd h0 hne
    | overrun _ h0 => exact absurd h0 hne

namespace Fresh

theorem stuck (h : Fresh dev s) : Sound dev s where
  toKept := h.toKept
  stage := .waiting h.tx h.rx h.idle.readBlocked h.idle.writeOverrun
    fun p hp => absurd hp (h.idle.worker p)

theorem fail (h : Fresh dev s) (msg : String) : Sound dev (fail s msg) :=
  Fresh.stuck (s := Ums.fail s msg)
    ⟨⟨h.cache, h.reading, h.write_le, h.write_count, h.sat⟩, h.idle, h.tx, h.rx⟩

theorem sendCsw (h : Fresh dev s) (status : Nat) : Sound dev (sendCsw s status) where
  toKept := h.toKept.update
  stage := .answering h.idle rfl csw_size h.rx (Or.inl rfl)

theorem sendCommandFailedResult (h : Fresh dev s) (key asc ascq : UInt8) :
    Sound dev (sendCommandFailedResult s key asc ascq) where
  toKept := h.toKept.update
  stage := .answering h.idle rfl csw_size h.rx (Or.inl rfl)

theorem sendCommandResult (h : Fresh dev s) {data : Nat → Tx} {size : Nat}
    (hsize : (data size).size ≤ umsBufsize) : Sound dev (sendCommandResult s data size) := by
  rw [Ums.sendCommandResult]
  split
  · exact h.fail _
  · split
    · exact h.fail _
    · exact ⟨h.toKept.update, .answering h.idle rfl hsize h.rx (Or.inr rfl)⟩

theorem receiveSatWrite (h : Fresh dev s) (i : Bool) {size : Nat} (hsize : size ≤ umsBufsize) :
    Sound dev (receiveSatWrite s i size) := by
  rw [Ums.receiveSatWrite]
  split
  · exact h.fail _
  · split
    · exact h.fail _
    · exact ⟨h.toKept.update, .satReceiving h.idle h.tx rfl hsize rfl⟩

theorem receiveNext (h : Fresh dev s) (hc : s.curCmd.InRange dev) :
    Sound dev (receiveNext dev s) := by
  rw [Ums.receiveNext, receiveBlockData]
  split
  · exact h.fail _
  · split
    · exact h.fail _
    · exact ⟨h.toKept.update,
        .receiving h.idle h.tx rfl rfl ⟨hc.range, hc.count_lt⟩ rfl⟩

end Fresh

/-! ## Reading -/

theorem readHit_eq_true {i : Bool} : readHit dev s i = true ↔
    s.readSector i ≤ s.curCmd.sector ∧ s.curCmd.sector < u32 (s.readSector i + dev.bufsize) := by
  simp [readHit]

/-- What is in a buffer fits in it, but for the mark of a failed read of sector 0. -/
theorem Kept.overlap_le (h : Kept dev s) {i : Bool} {overlap : Nat} (hhit : readHit dev s i = true)
    (htop : s.curCmd.sector + overlap ≤ readTop s i) (hpos : 0 < overlap) :
    overlap ≤ dev.bufsize ∨ s.readSector i = 0 ∧ s.readCount i = -1 ∧
      s.curCmd.sector < dev.bufsize := by
  have hb := h.cache.sector_lt i
  have hn := dev.num_lt
  have h64 := dev.bufsize_le
  obtain ⟨hle, hlt⟩ := readHit_eq_true.1 hhit
  rcases h.cache.count_eq i with hc | hc | hc <;> simp only [readTop, hc, u32] at htop hlt
  · left
    omega
  · by_cases h0 : s.readSector i = 0
    · right
      rw [h0, Nat.cast_zero, zero_add] at hlt
      exact ⟨h0, hc, by omega⟩
    · left
      omega
  · left
    omega

namespace Fresh

/-- The other buffer is prepared for sectors of the device. -/
theorem prefetch (h : Fresh dev s) (i : Bool) {overlap : Nat}
    (hov : s.curCmd.sector + overlap ≤ readTop s i) : Fresh dev (prefetch dev s i overlap) := by
  simp only [Ums.prefetch]
  split
  · rename_i hpre
    have hn := dev.num_lt
    have hu : u32 (s.curCmd.sector + overlap) = s.curCmd.sector + overlap := by
      simp only [u32]
      omega
    refine ⟨⟨?_, h.reading, h.write_le, h.write_count, h.sat⟩, h.idle, h.tx, h.rx⟩
    rw [hu]
    exact h.cache.assign (!i) (by omega)
  · exact h

/-- `overlap` sectors are sent, and the rest of the command is still on the medium. -/
theorem sendBlocks (h : Fresh dev s) (hc : s.curCmd.InRange dev) (i : Bool) (offset : Nat)
    {overlap : Nat} (hov : overlap ≤ s.curCmd.count)
    (hfit : s.curCmd.dataDirection = true → overlap * dev.sectorSize ≤ s.curCmd.bytesPending →
      overlap ≤ dev.bufsize) :
    Sound dev (advance (sendBlockData s i offset (overlap * dev.sectorSize)) overlap) := by
  have hn := dev.num_lt
  have hrange := hc.range
  have hlt := hc.count_lt
  have hstuck : ∀ msg, Sound dev (advance (Ums.fail s msg) overlap) := fun msg =>
    Fresh.stuck (s := advance (Ums.fail s msg) overlap)
      ⟨⟨h.cache, h.reading, h.write_le, h.write_count, h.sat⟩, h.idle, h.tx, h.rx⟩
  simp only [sendBlockData]
  split
  · exact hstuck _
  · rename_i hdir
    split
    · exact hstuck _
    · rename_i hbytes
      have hle := hfit (by simpa using hdir) (Nat.not_lt.1 hbytes)
      have hsize : overlap * dev.sectorSize ≤ umsBufsize := by
        rw [show umsBufsize = dev.bufsize * dev.sectorSize from dev.bufsize_mul.symm]
        exact Nat.mul_le_mul_right _ hle
      have hu : u32 (s.curCmd.sector + overlap) = s.curCmd.sector + overlap := by
        simp only [u32]
        omega
      refine ⟨h.toKept.update, .sending h.idle rfl hsize h.rx rfl ⟨?_, ?_⟩⟩
      · simp only [State.flight, advance, takeBytes, hu]
        omega
      · simp only [State.flight, advance, takeBytes]
        omega

/-- The first buffer that is hit holds the next sector, or is to be read again. -/
theorem sendFrom (h : Fresh dev s) (hc : s.curCmd.InRange dev) (hpos : 0 < s.curCmd.count)
    {i : Bool} (hhit : readHit dev s i = true) (hfirst : i = true → readHit dev s false = false)
    (hlong : ¬ Overlong dev s.readSector s.readCount s.curCmd) : Sound dev (sendFrom dev s i) := by
  have hn := dev.num_lt
  have hrange := hc.range
  have hbytes := dev.bytes_lt hc.count_lt
  rw [Ums.sendFrom]
  split
  · exact ⟨⟨h.cache, h.reading, h.write_le, h.write_count, h.sat⟩,
      .blocked h.tx h.rx rfl h.idle.writeOverrun h.idle.satPending h.idle.worker
        ⟨hc.range, hc.count_lt⟩ hpos⟩
  · rename_i htop
    generalize hov : min (readTop s i - s.curCmd.sector) s.curCmd.count = overlap
    have hle : overlap ≤ s.curCmd.count := by omega
    have htop' : s.curCmd.sector + overlap ≤ readTop s i := by omega
    have hsize : overlap * dev.sectorSize ≤ s.curCmd.count * dev.sectorSize :=
      Nat.mul_le_mul_right _ hle
    have hu : u32 (overlap * dev.sectorSize) = overlap * dev.sectorSize := by
      have := u32_of_lt (n := overlap * dev.sectorSize) (by omega)
      exact_mod_cast this
    have hcmd := prefetch_curCmd dev s i overlap
    simp only [hu]
    refine (h.prefetch i htop').sendBlocks (hcmd ▸ hc) i _ (hcmd ▸ hle) ?_
    rw [hcmd]
    intro hdir hpend
    rcases h.overlap_le hhit htop' (by omega) with hfit | ⟨h0, hneg, hsec⟩
    · exact hfit
    · -- the mark of a failed read passes for a buffer that holds everything
      have hmark : readTop s i = 4294967295 := by
        simp only [readTop, h0, hneg]
        rfl
      have hall : overlap = s.curCmd.count := by omega
      by_contra hgt
      refine hlong ⟨hdir, by omega, hall ▸ hpend, hsec, i, h0, hneg, fun hi hfalse => ?_⟩
      have hno := hfirst hi
      rw [readHit_eq_true.2 hfalse] at hno
      cases hno

theorem sendAndReadNext (h : Fresh dev s) (hc : s.curCmd.InRange dev) (hpos : 0 < s.curCmd.count)
    (hlong : ¬ Overlong dev s.readSector s.readCount s.curCmd) :
    Sound dev (sendAndReadNext dev s) := by
  have hrange := hc.range
  rw [Ums.sendAndReadNext]
  split
  · rename_i h0
    exact h.sendFrom hc hpos h0 (fun hi => by cases hi) hlong
  · rename_i h0
    split
    · rename_i h1
      exact h.sendFrom hc hpos h1 (fun _ => by simpa using h0) hlong
    · exact ⟨⟨h.cache.assign (!s.readCurrent) (by omega), h.reading, h.write_le, h.write_count,
        h.sat⟩, .blocked h.tx h.rx rfl h.idle.writeOverrun h.idle.satPending h.idle.worker
        ⟨hc.range, hc.count_lt⟩ hpos⟩

end Fresh

/-- What `Overlong` says. -/
theorem Overlong.not_inBounds (hlong : Overlong dev s.readSector s.readCount s.curCmd)
    (hc : s.curCmd.InRange dev) : ¬ InBounds dev (sendAndReadNext dev s) := by
  obtain ⟨hdir, hcount, hbytes, hsec, i, h0, hneg, hfirst⟩ := hlong
  have hn := dev.num_lt
  have h64 := dev.bufsize_le
  have hrange := hc.range
  have hlt := dev.bytes_lt hc.count_lt
  have hhit : readHit dev s i = true := by
    rw [readHit_eq_true, h0]
    simp only [u32]
    omega
  have hno : i = true → readHit dev s false = false := by
    intro hi
    rw [Bool.eq_false_iff]
    exact fun hf => hfirst hi (readHit_eq_true.1 hf)
  have hmark : readTop s i = 4294967295 := by
    simp only [readTop, h0, hneg]
    rfl
  have hov : min (readTop s i - s.curCmd.sector) s.curCmd.count = s.curCmd.count := by omega
  have hu : u32 (s.curCmd.count * dev.sectorSize) = s.curCmd.count * dev.sectorSize := by
    have := u32_of_lt (n := s.curCmd.count * dev.sectorSize) (by omega)
    exact_mod_cast this
  have hcmd := prefetch_curCmd dev s i s.curCmd.count
  rw [sendAndReadNext_of_hit hhit hno, sendFrom, if_neg (by omega)]
  simp only [hov, hu, sendBlockData, hcmd, hdir, Bool.not_true, Bool.false_eq_true, if_false,
    if_neg (Nat.not_lt.2 hbytes)]
  intro hin
  have hsize := hin.tx _ rfl
  have hlarge : dev.bufsize * dev.sectorSize < s.curCmd.count * dev.sectorSize :=
    Nat.mul_lt_mul_of_pos_right hcount dev.sectorSize_pos
  rw [dev.bufsize_mul] at hlarge
  simp only [Tx.size, umsBufsize] at hsize
  omega

/-! ## Writing -/

/-- The block in the buffer is the next part of the command, or all that is left of it. -/
theorem Fresh.writebufPush (h : Fresh dev s) (hc : s.curCmd.InRange dev)
    (hle : s.length / dev.sectorSize ≤ s.curCmd.count)
    (hbuf : s.length / dev.sectorSize ≤ dev.bufsize) : Sound dev (writebufPush dev s) := by
  have hn := dev.num_lt
  have h64 := dev.bufsize_le
  have hrange := hc.range
  have hlt := hc.count_lt
  have hmod : s.length / dev.sectorSize % 256 = s.length / dev.sectorSize :=
    Nat.mod_eq_of_lt (by omega)
  have hcount : (takeBlock dev s).curCmd.count = s.curCmd.count - s.length / dev.sectorSize := by
    simp only [takeBlock, u32]
    omega
  have hsector : (takeBlock dev s).curCmd.sector = s.curCmd.sector + s.length / dev.sectorSize := by
    simp only [takeBlock, u32]
    omega
  have hwrite : s.curCmd.sector + s.length / dev.sectorSize % 256 ≤ dev.numSectors := by omega
  have hb : Fresh dev (takeBlock dev s) :=
    ⟨⟨h.cache, h.reading, hwrite, hmod.le.trans hbuf, h.sat⟩, h.idle, h.tx, h.rx⟩
  simp only [Ums.writebufPush]
  split
  · split
    · exact hb.sendCommandFailedResult _ _ _
    · have hs := hb.sendCsw 0
      exact ⟨⟨hs.cache, hs.reading, hs.write_le, hs.write_count, hs.sat⟩, hs.stage⟩
  · refine hb.receiveNext ⟨?_, ?_⟩
    · rw [hcount, hsector]
      omega
    · rw [hcount]
      omega

/-! ## Replies -/

theorem copyPadded_length (src : List UInt8) (len : Nat) : (copyPadded src len).length = len := by
  have h : ((src.takeWhile (· != 0)).take len).length ≤ len := List.length_take_le _ _
  simp only [copyPadded, List.length_append, List.length_replicate]
  omega

theorem sendReply_sound (h : Fresh dev s) {data : List UInt8} (hd : data.length ≤ 36) (n : Nat) :
    Sound dev (sendReply s data n) := by
  refine h.sendCommandResult ?_
  simp only [Tx.size, umsBufsize]
  omega

theorem sendMediumReply_sound (h : Fresh dev s) {data : List UInt8} (hd : data.length ≤ 36)
    (n : Nat) : Sound dev (sendMediumReply s data n) := by
  rw [sendMediumReply]
  split
  · exact h.sendCommandFailedResult _ _ _
  · exact sendReply_sound h hd n

theorem modeSense_sound (h : Fresh dev s) {data : List UInt8} (hd : data.length ≤ 36)
    (cbw : CommandBlockWrapper) : Sound dev (modeSense s data cbw) := by
  rw [modeSense]
  split
  · exact h.sendCommandFailedResult _ _ _
  · split
    · exact sendReply_sound h hd _
    · exact h.sendCommandFailedResult _ _ _

theorem requestSense_sound (h : Fresh dev s) (n : Nat) : Sound dev (requestSense s n) := by
  rw [requestSense]
  split
  · exact sendReply_sound h (by simp [senseDataDescr, satResponseInformation]) n
  · exact sendReply_sound h (by simp [senseDataFixed, le32, be32, be24, be16]) n

/-! ## Commands -/

theorem Sound.done (h : Sound dev s) : Sound dev (done s) :=
  ⟨⟨h.cache, h.reading, h.write_le, h.write_count, h.sat⟩, h.stage⟩

variable {cbw : CommandBlockWrapper}

/-- READ(10) and WRITE(10): what is not in range is refused, unless it wraps. -/
theorem transferBlocks_sound (h : Fresh dev s) {start : State D → State D}
    (hop : cbw.opcode = .read10 ∨ cbw.opcode = .write10)
    (hw : s.ejected = false → ¬ cbw.Wraps dev)
    (hstart : s.ejected = false → Accepted dev cbw → ∀ t, Fresh dev t → t.curCmd.InRange dev →
      t.curCmd = { s.curCmd with sector := cbw.lba, count := cbw.blocks } →
      t.readSector = s.readSector → t.readCount = s.readCount → Sound dev (start t)) :
    Sound dev (transferBlocks dev s cbw start) := by
  rw [transferBlocks]
  split
  · exact h.sendCommandFailedResult _ _ _
  · rename_i hej
    have hej : s.ejected = false := by simpa using hej
    have hf : Fresh dev
        { s with curCmd := { s.curCmd with sector := cbw.lba, count := cbw.blocks } } :=
      ⟨⟨h.cache, h.reading, h.write_le, h.write_count, h.sat⟩, h.idle, h.tx, h.rx⟩
    simp only
    split
    · exact hf.sendCommandFailedResult _ _ _
    · rename_i hin
      have hin := Nat.not_lt.1 hin
      split
      · exact hf.sendCsw 0
      · rename_i hblocks
        exact hstart hej ⟨hin, hblocks⟩ _ hf
          ⟨CommandBlockWrapper.in_range hop (hw hej) hin, cbw.blocks_lt⟩ rfl rfl rfl

theorem Fresh.satPend (h : Fresh dev s) (p : SatPending) : Sound dev (satPend s p) where
  toKept := ⟨h.cache, h.reading, h.write_le, h.write_count, h.sat⟩
  stage := .waiting h.tx h.rx h.idle.readBlocked h.idle.writeOverrun
    fun q hq => absurd hq (h.idle.worker q)

theorem satIssue_sound (h : Fresh dev s) (hle : cbw.satBytes dev ≤ umsBufsize) :
    Sound dev (satIssue dev s cbw) := by
  have hsat : (satCommand dev s cbw).size * (satCommand dev s cbw).blksize ≤ umsBufsize := by
    rw [← cbw.u32_units dev] at hle
    exact hle
  have hf : Fresh dev { s with
      satCommand := satCommand dev s cbw
      readCount := Function.update s.readCount (!s.readCurrent) 0 } :=
    ⟨⟨h.cache.empty _, h.reading, h.write_le, h.write_count, hsat⟩, h.idle, h.tx, h.rx⟩
  simp only [satIssue]
  split
  · exact hf.receiveSatWrite _ ((CommandBlockWrapper.satSize_eq hle).symm ▸ hle)
  · exact hf.satPend .cmd

theorem ataPassthrough_sound (h : Fresh dev s)
    (hop : cbw.opcode = .ataPassthrough12 ∨ cbw.opcode = .ataPassthrough16)
    (hw : dev.driverinfo = true → dev.platformId = 0x4c435049 → cbw.satCommands = true →
      cbw.satMismatch = false → ¬ cbw.Wraps dev) : Sound dev (ataPassthrough dev s cbw) := by
  rw [ataPassthrough]
  split
  · exact (h.sendCommandFailedResult _ _ _).done
  · rename_i hdrv
    simp only [Bool.not_eq_true', ne_eq, not_or, Bool.not_eq_false, not_not] at hdrv
    have hf : Fresh dev { s with
        satCommand := { s.satCommand with lba48 := cbw.satRequest.extend }
        satCheck := cbw.satCheck } :=
      ⟨⟨h.cache, h.reading, h.write_le, h.write_count, h.sat⟩, h.idle, h.tx, h.rx⟩
    have hissue : cbw.satCommands = true → Sound dev
        (if cbw.satInvalid dev then
          sendCommandFailedResult
            { s with
              satCommand := { s.satCommand with lba48 := cbw.satRequest.extend }
              satCheck := cbw.satCheck } senseIllegalRequest ascInvalidFieldInCbd 0
        else done (satIssue dev
          { s with
            satCommand := { s.satCommand with lba48 := cbw.satRequest.extend }
            satCheck := cbw.satCheck } cbw)) := by
      intro hcom
      split
      · exact hf.sendCommandFailedResult _ _ _
      · rename_i hv
        have hv : cbw.satInvalid dev = false := by simpa using hv
        have hm : cbw.satMismatch = false := by
          rw [CommandBlockWrapper.satInvalid_eq, Bool.or_eq_false_iff] at hv
          exact hv.2
        have hle := CommandBlockWrapper.satBytes_le hop (hw hdrv.1 hdrv.2 hcom hm) hv
        exact (satIssue_sound hf hle).done
    cases hp : cbw.satProtocol <;> simp only
    case hardReset => exact hf.satPend .hrst
    case softReset => exact hf.satPend .srst
    case returnResponse => exact hf.satPend .readCdb
    all_goals exact hissue (by simp [CommandBlockWrapper.satCommands, hp])

/-- A command that is not one of the three that the checks miss. -/
theorem execute_sound (h : Fresh dev s)
    (hw : cbw.Admitted dev s → ¬ cbw.Wraps dev) (hsig : cbw.signature = 0x43425355)
    (hcmd : s.curCmd.bytesPending = cbw.length ∧ s.curCmd.dataDirection = cbw.dataIn)
    (hlong : cbw.Admitted dev s → cbw.opcode = .read10 → Accepted dev cbw →
      ¬ Overlong dev s.readSector s.readCount cbw.curCmd) :
    Sound dev (execute dev s cbw) := by
  rw [CommandBlockWrapper.Admitted] at hw hlong
  rw [execute]
  cases hop : cbw.opcode <;> simp only [hop] at hw hlong ⊢
  case testUnitReady =>
    split
    · exact (h.sendCommandFailedResult _ _ _).done
    · exact (h.sendCsw 0).done
  case requestSense => exact (requestSense_sound h _).done
  case inquiry =>
    exact (sendReply_sound h (by simp [inquiryData, copyPadded_length]) _).done
  case modeSense6 =>
    exact (modeSense_sound h (by simp [modeSenseData6, be24, be16]) _).done
  case startStopUnit =>
    refine (Fresh.sendCsw ?_ 0).done
    exact ⟨⟨h.cache, h.reading, h.write_le, h.write_count, h.sat⟩, h.idle, h.tx, h.rx⟩
  case allowMediumRemoval =>
    refine (Fresh.sendCsw ?_ 0).done
    exact ⟨⟨h.cache, h.reading, h.write_le, h.write_count, h.sat⟩, h.idle, h.tx, h.rx⟩
  case readFormatCapacity =>
    exact (sendMediumReply_sound h (by simp [formatCapacityData, le32, be32, be24, be16]) _).done
  case readCapacity =>
    exact (sendMediumReply_sound h (by simp [capacityData, be32, be24, be16]) _).done
  case read10 =>
    refine (transferBlocks_sound h (Or.inl hop) (fun hej => hw ⟨hsig, hej⟩) ?_).done
    intro hej hacc t ht hin hcur hsec hcnt
    have hc : t.curCmd.dataDirection = cbw.dataIn ∧ t.curCmd.count = cbw.blocks ∧
        t.curCmd.bytesPending = cbw.length ∧ t.curCmd.sector = cbw.lba := by
      rw [hcur]
      exact ⟨hcmd.2, rfl, hcmd.1, rfl⟩
    refine ht.sendAndReadNext hin ?_ ?_
    · rw [hc.2.1]
      exact Nat.pos_of_ne_zero hacc.2
    · have hnot := hlong ⟨hsig, hej⟩ trivial hacc
      rwa [Overlong, hc.1, hc.2.1, hc.2.2.1, hc.2.2.2, hsec, hcnt]
  case write10 =>
    refine (transferBlocks_sound h (Or.inr hop) (fun hej => hw ⟨hsig, hej⟩) ?_).done
    intro _ _ t ht hin _ _ _
    exact ht.receiveNext hin
  case writeBuffer => exact h.stuck.done
  case modeSense10 =>
    exact (modeSense_sound h (by simp [modeSenseData10, be32, be24, be16]) _).done
  case ataPassthrough16 =>
    exact ataPassthrough_sound h (Or.inr hop) fun h1 h2 h3 h4 => hw ⟨hsig, h1, h2, h3, h4⟩
  case reportLuns =>
    exact (sendReply_sound h (by simp [reportLunData, le32, be32, be24, be16]) _).done
  case ataPassthrough12 =>
    exact ataPassthrough_sound h (Or.inl hop) fun h1 h2 h3 h4 => hw ⟨hsig, h1, h2, h3, h4⟩
  case other => exact (h.sendCommandFailedResult _ _ _).done

end Ums
end Freemyipod
