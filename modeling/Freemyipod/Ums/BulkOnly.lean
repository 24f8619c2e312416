import Freemyipod.Ums.Cache

/-!
# Ums.BulkOnly

Bulk-only transport as the host sees it (`Bot`), and what the variables of disk mode are like while
the host is at a point of it (`Conforms`). Each function that starts a transfer or defers to
the worker gets from a state in which nothing is under way (`Held`, `Idle`) to one that conforms.
-/

namespace Freemyipod
namespace Ums

/-! ## The transport -/

/-- The host waits for nothing, or has sent a wrapper and moved some bytes since. -/
inductive Bot
  | waiting
  | data (cbw : CommandBlockWrapper) (moved : Nat)

namespace Bot

variable {D : Type}

/-- One status follows each wrapper, after any data, and accounts for them. -/
def step : Bot → Signal D → Option Bot
  | .waiting, .command cbw => some (.data cbw 0)
  | .data cbw moved, .sent size left => some (.data cbw (moved + (size - left)))
  | .data cbw moved, .received size left _ => some (.data cbw (moved + (size - left)))
  | .data cbw moved, .status tag residue _ =>
    if tag = cbw.tag ∧ residue + moved = cbw.length then some .waiting else none
  | b, .internal => some b
  | _, _ => none

def run (b : Bot) (l : List (Signal D)) : Option Bot := l.foldlM step b

theorem run_concat {b b' b'' : Bot} {l : List (Signal D)} {o : Signal D} (h : run b l = some b')
    (ho : b'.step o = some b'') : run b (l ++ [o]) = some b'' := by
  rw [run, List.foldlM_append]
  rw [run] at h
  simp [h, ho]

end Bot

/-! ## What a command moves -/

inductive Moves
  | nothing
  /-- an answer, cut to the length that the host asks for -/
  | reply
  | toHost (n : Nat)
  | fromHost (n : Nat)

variable (dev : StorageInfo)

/-- The range check that READ(10) and WRITE(10) make. -/
def Accepted (cbw : CommandBlockWrapper) : Prop :=
  u32 (cbw.lba + cbw.blocks) ≤ dev.numSectors ∧ cbw.blocks ≠ 0

instance (cbw : CommandBlockWrapper) : Decidable (Accepted dev cbw) := by
  unfold Accepted
  infer_instance

def satMoves (cbw : CommandBlockWrapper) : Moves :=
  if !dev.driverinfo ∨ dev.platformId ≠ 0x4c435049 then .nothing
  else
    match cbw.satProtocol with
    | .hardReset | .softReset => .nothing
    | .returnResponse => .toHost 14
    | _ =>
      if cbw.satInvalid dev ∨ cbw.satLen = 0 then .nothing
      else if cbw.satDir then .toHost (cbw.satSize dev)
      else .fromHost (cbw.satSize dev)

def moves (cbw : CommandBlockWrapper) : Moves :=
  match cbw.opcode with
  | .reportLuns | .inquiry | .requestSense | .readFormatCapacity | .readCapacity => .reply
  | .modeSense10 | .modeSense6 => if cbw.byte 2 &&& 0x3f = 0x3f then .reply else .nothing
  | .read10 => if Accepted dev cbw then .toHost (cbw.blocks * dev.sectorSize) else .nothing
  | .write10 => if Accepted dev cbw then .fromHost (cbw.blocks * dev.sectorSize) else .nothing
  | .ataPassthrough12 | .ataPassthrough16 => satMoves dev cbw
  | _ => .nothing

/-- The wrapper announces the direction of a transfer, and room for it. -/
def Matching.Fits (cbw : CommandBlockWrapper) : Moves → Prop
  | .nothing => True
  | .reply => cbw.dataIn = true
  | .toHost n => cbw.dataIn = true ∧ n ≤ cbw.length
  | .fromHost n => cbw.dataIn = false ∧ n ≤ cbw.length

/-- The wrapper matches what its command moves. -/
def Matching (cbw : CommandBlockWrapper) : Prop := Matching.Fits cbw (moves dev cbw)

/-! ## States that conform -/

def Worker.rank : Worker → Nat
  | .waiting => 0
  | .ata _ => 1
  | .sat => 2
  | .blocked => 3
  | .reading _ _ _ => 4
  | .cache => 5
  | .writing => 6
  | .write => 7

def Tx.IsReply (size : Nat) : Tx → Prop
  | .result _ n => n = size
  | .sat _ n => n = size
  | _ => False

/-- What is left of a READ(10). -/
structure Reads (c : CurCmd) : Prop where
  dir : c.dataDirection = true
  count_lt : c.count < 65536
  bytes : c.count * dev.sectorSize ≤ c.bytesPending
  in_range : c.sector + c.count ≤ dev.numSectors
  fits : c.sector + c.count + dev.bufsize ≤ 4294967296

/-- What is left of a WRITE(10), of which `size` bytes are on their way. -/
structure Writes (c : CurCmd) (size : Nat) : Prop where
  dir : c.dataDirection = false
  count_pos : 0 < c.count
  count_lt : c.count < 65536
  sector_lt : c.sector < 4294967296
  size_eq : size = min umsBufsize (c.count * dev.sectorSize)
  bytes : c.count * dev.sectorSize ≤ c.bytesPending + size

/-- A transfer is under way, and the worker has nothing to do with the command. -/
inductive Passive (b : Bot) (state : Phase) (tx : Option Tx) (rx : Option Rx) (c : CurCmd)
    (length : Nat) : Prop
  | listening : b = .waiting → state = .waitingForCommand → tx = none → rx = some .cbw →
      Passive b state tx rx c length
  | status {cbw : CommandBlockWrapper} {m residue st : Nat} : b = .data cbw m →
      state = .waitingForCswCompletion → tx = some (.csw cbw.tag residue st) → rx = none →
      residue + m = cbw.length → Passive b state tx rx c length
  | replying {cbw : CommandBlockWrapper} {m size : Nat} {t : Tx} : b = .data cbw m →
      state = .sendingResult → tx = some t → t.IsReply size → rx = none → c.tag = cbw.tag →
      c.bytesPending + (m + size) = cbw.length → Passive b state tx rx c length
  | sending {cbw : CommandBlockWrapper} {m size offset : Nat} {i : Bool} : b = .data cbw m →
      state = .sendingBlocks → tx = some (.blocks i offset size) → rx = none → c.tag = cbw.tag →
      c.bytesPending + (m + size) = cbw.length → Reads dev c → Passive b state tx rx c length
  | receiving {cbw : CommandBlockWrapper} {m size : Nat} {i : Bool} : b = .data cbw m →
      state = .receivingBlocks → tx = none → rx = some (.blocks i size) → c.tag = cbw.tag →
      c.bytesPending + (m + size) = cbw.length → length = size → Writes dev c size →
      Passive b state tx rx c length
  | satReceiving {cbw : CommandBlockWrapper} {m size : Nat} {i : Bool} : b = .data cbw m →
      state = .receivingSatWrite → tx = none → rx = some (.sat i size) → c.tag = cbw.tag →
      c.bytesPending + (m + size) = cbw.length → c.dataDirection = false →
      Passive b state tx rx c length

variable {D : Type}

/-- The command `cbw` is being executed, with no transfer under way. -/
structure Held (cbw : CommandBlockWrapper) (m : Nat) (s : State D) : Prop where
  cache : Cache dev s.readSector s.readCount s.worker
  crashed : s.crashed = false
  tx : s.tx = none
  rx : s.rx = none
  tag : s.curCmd.tag = cbw.tag
  account : s.curCmd.bytesPending + m = cbw.length

/-- The worker has nothing to do for a command. -/
structure Idle (s : State D) : Prop where
  readBlocked : s.readBlocked = false
  writeOverrun : s.writeOverrun = false
  satPending : s.satPending = .none
  worker : ∀ p, s.worker ≠ .ata p

theorem Idle.congr {s t : State D} (h : Idle s) (h1 : t.readBlocked = s.readBlocked)
    (h2 : t.writeOverrun = s.writeOverrun) (h3 : t.satPending = s.satPending)
    (h4 : t.worker = s.worker) : Idle t :=
  ⟨h1.trans h.readBlocked, h2.trans h.writeOverrun, h3.trans h.satPending,
    fun p => h4 ▸ h.worker p⟩

/-- The operation `p` of the ATA driver can be answered. -/
def SatReady (c : CurCmd) (size : Nat) : SatPending → Prop
  | .none => False
  | .cmd => c.dataDirection = true → size ≤ c.bytesPending
  | .readCdb => c.dataDirection = true ∧ 14 ≤ c.bytesPending
  | .srst | .hrst => True

/-- The states in which the host is at `b`: a transfer is under way, or the worker is about to
do what the command waits for. -/
inductive Conforms (b : Bot) (s : State D) : Prop
  | passive : Cache dev s.readSector s.readCount s.worker → s.crashed = false → Idle s →
      Passive dev b s.state s.tx s.rx s.curCmd s.length → Conforms b s
  | blocked {cbw : CommandBlockWrapper} {m : Nat} : b = .data cbw m → Held dev cbw m s →
      s.readBlocked = true → s.writeOverrun = false → s.satPending = .none →
      (∀ p, s.worker ≠ .ata p) → Reads dev s.curCmd → 0 < s.curCmd.count →
      readHit dev s s.readCurrent = true →
      (s.readCurrent = true → readHit dev s false = false) →
      (s.wakeup = true ∨ 3 ≤ s.worker.rank) → Conforms b s
  | overrun {cbw : CommandBlockWrapper} {m : Nat} : b = .data cbw m → Held dev cbw m s →
      s.readBlocked = false → s.writeOverrun = true → s.satPending = .none →
      (∀ p, s.worker ≠ .ata p) → Writes dev s.curCmd s.length → s.wakeup = true → Conforms b s
  | satPending {cbw : CommandBlockWrapper} {m : Nat} : b = .data cbw m → Held dev cbw m s →
      s.readBlocked = false → s.writeOverrun = false → (∀ p, s.worker ≠ .ata p) →
      SatReady s.curCmd (datasize s) s.satPending → (s.wakeup = true ∨ 2 ≤ s.worker.rank) →
      Conforms b s
  | satRunning {cbw : CommandBlockWrapper} {m : Nat} {p : SatPending} : b = .data cbw m →
      Held dev cbw m s → s.readBlocked = false → s.writeOverrun = false → s.worker = .ata p →
      SatReady s.curCmd (datasize s) p → (p = .srst ∨ p = .hrst → s.satPending = .none) →
      Conforms b s

/-! ## How much a command still has to do -/

/-- Decreases with each transfer and each deferral of a command. -/
@[grind =] def phaseWeight (s : State D) : Nat :=
  match s.tx, s.rx with
  | some (.csw _ _ _), _ => 1
  | some (.result _ _), _ => 2
  | some (.sat _ _), _ => 2
  | some (.blocks _ _ _), _ => 2 * s.curCmd.count + 6
  | none, some .cbw => 0
  | none, some (.sat _ _) => 4
  | none, some (.blocks _ _) => 2 * s.curCmd.count + 6
  | none, none => if s.readBlocked || s.writeOverrun then 2 * s.curCmd.count + 5 else 3

/-- A read that a command waits for is not the one that the worker is at: the worker comes back. -/
def Retry (s : State D) : Prop :=
  s.readBlocked = true ∧
    match s.worker with
    | .reading c sector _ => ¬ (c = s.readCurrent ∧ sector = s.readSector c)
    | .blocked => s.readCount s.readCurrent = 0
    | _ => False

instance (s : State D) : Decidable (Retry s) := by
  unfold Retry
  have : Decidable (match s.worker with
    | .reading c sector _ => ¬ (c = s.readCurrent ∧ sector = s.readSector c)
    | .blocked => s.readCount s.readCurrent = 0
    | _ => False) := by
    cases s.worker <;> infer_instance
  infer_instance

def workerWeight (s : State D) : Nat :=
  s.worker.rank + if Retry s then 16 else if s.wakeup then 8 else 0

/-- A bound for the number of steps until the status of the command is out. -/
def remaining (s : State D) : Nat := 32 * phaseWeight s + workerWeight s

theorem rank_le (w : Worker) : w.rank ≤ 7 := by
  cases w <;> simp [Worker.rank]

theorem workerWeight_le (s : State D) : workerWeight s ≤ 23 := by
  have h := rank_le s.worker
  simp only [workerWeight]
  split
  · omega
  · split <;> omega

theorem remaining_lt {s t : State D} (h : phaseWeight t < phaseWeight s) :
    remaining t < remaining s := by
  have := workerWeight_le t
  simp only [remaining]
  omega

end Ums
end Freemyipod
