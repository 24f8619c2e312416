import Mathlib
import Freemyipod.Bbt.Model
import Freemyipod.Lib.Effect

/-!
# Ata.Model

`target/ipodclassic/storage_ata.c` above the level of registers: power, resets, raw commands,
transfers, and the loading of the bad block table.

What the hardware, the heap and the console do in a call is its script, a list of steps and how
each went. A program takes the steps in their order and stops with `Exit.mismatch` if the script has
another one next. Steps whose result the code does not look at are left out.

`sector`s come from an `unsigned long` and numbers of sectors from a `uint32_t`, so that no sum of
them wraps.
-/

namespace Freemyipod
namespace Ata

/-- `int`, as returned by most functions. -/
abbrev Rc := BitVec 32

def errRc (val : Rc) : Rc := 0x80000000#32 ||| val

def isErr (rc : Rc) : Bool := rc.msb

theorem isErr_errRc (val : Rc) : isErr (errRc val) = true := by
  have hbit : (0x80000000#32).msb = true := by decide
  simp [isErr, errRc, hbit]

/-- The halfwords of a sector, or of 0x1000 bytes of memory. -/
abbrev Sector := Nat → BitVec 16

/-- `((uint32_t*)buf)[i]` -/
def Sector.word (b : Sector) (i : Nat) : BitVec 32 := b (2 * i + 1) ++ b (2 * i)

/-- `!memcmp(buf, "emBIbbth", 8)` -/
def Sector.hasMagic (b : Sector) : Bool :=
  b 0 == 0x6d65 && b 1 == 0x4942 && b 2 == 0x6262 && b 3 == 0x6874

/-! ## Steps -/

/-- The place in the code that a step belongs to. `resetAgain` is the second `ata_power_up` of
`ata_reset`. -/
inductive Caller
  | softReset | hardReset | reset | resetAgain | readTaskfile | rawCmd | rwSectors | bbtPowerUp
  | bbtReload
  deriving DecidableEq, Repr

/-- Where the data of a transfer goes to or comes from. -/
inductive Place
  /-- `buffer` of `ata_rw_sectors` -/
  | user
  /-- `buf` of `ata_bbt_reload` -/
  | header
  /-- `ata_bbt` -/
  | table
  deriving DecidableEq, Repr

inductive Step
  | mmcInit (by_ : Caller)
  | ceataInit (by_ : Caller)
  | identify (by_ : Caller)
  | setFeature (by_ : Caller) (feature param : Nat)
  /-- `ceata_soft_reset`, or the wait behind the reset bits -/
  | softReset
  | readRegisters
  | writeRegisters
  | waitIdle
  | rwMultipleBlock
  | waitForRdy
  | startOfTransfer
  /-- `wakeup_wait(&ata_wakeup, 500000)` -/
  | transfer
  | endOfTransfer
  /-- `ata_rw_chunk` -/
  | rwChunk (sector cnt : Nat) (write : Bool)
  /-- The allocation of the memory of a place. -/
  | memalign (place : Place) (size : Nat)
  /-- The message of `ata_bbt_read_sectors` on an error. -/
  | report (place : Place)
  deriving DecidableEq, Repr

/-- How a step went, with the data it brought. -/
structure Answer where
  ok : Bool
  code : Rc := 0
  registers : Nat → BitVec 8 := fun _ => 0
  /-- what a failed transfer or an allocation leaves in each sector -/
  data : Nat → Sector := fun _ _ => 0

def Answer.rc (a : Answer) : Rc := if a.ok then 0 else errRc a.code

structure Entry where
  step : Step
  answer : Answer

/-! ## The state -/

/-- What the disk says of itself, as far as the code uses it. -/
structure Device where
  ceata : Bool
  lba48 : Bool
  dma : Bool
  /-- the parameter for `ata_set_feature(0x03, ..)` -/
  mode : Nat
  totalSectors : Nat
  /-- `ata_identify_data[82] & BIT(5)` -/
  writeCache : Bool
  /-- `ata_identify_data[82] & BIT(6)` -/
  lookahead : Bool

/-- `struct ata_raw_cmd_t` -/
structure RawCmd where
  lba48 : Bool
  transfer : Bool
  send : Bool
  dma : Bool
  size : Nat
  feature : BitVec 16 := 0
  count : BitVec 16 := 0
  lbaLow : BitVec 16 := 0
  lbaMid : BitVec 16 := 0
  lbaHigh : BitVec 16 := 0
  device : BitVec 8 := 0
  command : BitVec 8 := 0
  resultValid : Bool := false

/-- What `ata_bbt` points to: the memory is allocated or was freed, and it has room for these
sectors. -/
structure Pages where
  live : Bool
  physicals : List Nat

structure State where
  powered : Bool
  lba48 : Bool
  dma : Bool
  totalSectors : Nat
  virtualSectors : Nat
  bbt : Option Pages
  lastOffset : Nat
  lastPhys : Nat
  retries : Nat
  errorSrst : Bool
  /-- how many times the calling thread has locked `ata_mutex` -/
  held : Nat
  cmd : RawCmd
  medium : Nat → Sector
  mem : Place → Nat → Sector
  script : List Entry

/-- Why a program has no result. -/
inductive Exit
  /-- The script has another step next. -/
  | mismatch
  /-- It accesses memory that it does not have. -/
  | fault
  /-- `panicf` -/
  | panic
  deriving DecidableEq, Repr

abbrev M := StateT State (Except Exit)

/-- The hardware takes a step. -/
def ask (step : Step) : M Answer := do
  let s ← get
  match s.script with
  | [] => throw .mismatch
  | e :: script =>
    if e.step = step then do
      modify fun s => { s with script }
      pure e.answer
    else throw .mismatch

def perform (step : Step) : M Rc := do
  let a ← ask step
  pure a.rc

/-- `mutex_lock(&ata_mutex, TIMEOUT_BLOCK);` -/
def lock : M Unit := modify fun s => { s with held := s.held + 1 }

/-- `mutex_unlock(&ata_mutex);` -/
def unlock : M Unit := do
  let s ← get
  if s.held = 0 then throw .panic
  else modify fun s => { s with held := s.held - 1 }

/-- `PASS_RC(expr, bits, val)` before the rest `k` of the function. -/
def passRc (expr : M Rc) (bits : Nat) (val : Rc) (k : M Rc) : M Rc := do
  let rc ← expr
  if isErr rc then pure (errRc (rc <<< bits ||| val)) else k

/-- `PASS_RC_MTX(expr, bits, val, &ata_mutex)` -/
def passRcMtx (expr : M Rc) (bits : Nat) (val : Rc) (k : M Rc) : M Rc := do
  let rc ← expr
  if isErr rc then do
    unlock
    pure (errRc (rc <<< bits ||| val))
  else k

variable (dev : Device)

/-! ## Power and resets -/

/-- The end of `ata_power_up`. -/
def configure (c : Caller) : M Rc := do
  let s ← get
  let feature := if s.bbt.isSome then 0x82 else 0x02
  passRc (if dev.writeCache then perform (.setFeature c feature 0) else pure 0) 3 5 <|
    passRc (if dev.lookahead then perform (.setFeature c 0xaa 0) else pure 0) 3 6 do
      modify fun s => { s with totalSectors := dev.totalSectors, powered := true }
      pure 0

def ataPowerUp (c : Caller) : M Rc :=
  if dev.ceata then do
    modify fun s => { s with lba48 := true, dma := true }
    passRc (perform (.mmcInit c)) 3 0 <| passRc (perform (.ceataInit c)) 3 1 <|
      passRc (perform (.identify c)) 3 2 <| configure dev c
  else
    passRc (perform (.identify c)) 3 3 do
      modify fun s => { s with lba48 := dev.lba48, dma := dev.dma }
      passRc (perform (.setFeature c 0x03 dev.mode)) 3 4 <| configure dev c

/-- `if (!ata_powered) ata_power_up()` -/
def powerUpIfOff (c : Caller) : M Rc := do
  let s ← get
  if s.powered then pure 0 else ataPowerUp dev c

def ataPowerDown : M Unit := modify fun s => { s with powered := false }

def ataSoftReset : M Rc := do
  lock
  passRc (powerUpIfOff dev .softReset) 1 0 do
    let rc ← perform .softReset
    unlock
    passRc (pure rc) 1 1 <| pure 0

def ataHardReset : M Rc := do
  lock
  passRc (ataPowerUp dev .hardReset) 0 0 do
    unlock
    pure 0

/-- What `ata_reset` does when `ata_soft_reset` has failed. -/
def resetHarder : M Rc := do
  let rc ← ataHardReset dev
  if isErr rc then do
    let rc := errRc (rc <<< 2 ||| 1)
    ataPowerDown
    let rc2 ← ataPowerUp dev .resetAgain
    pure (if isErr rc2 then errRc (rc <<< 2 ||| 2) else rc)
  else pure 1

def ataReset : M Rc := do
  lock
  passRc (powerUpIfOff dev .reset) 2 0 do
    let rc ← ataSoftReset dev
    let rc ← (if isErr rc then resetHarder dev else pure rc)
    unlock
    pure rc

/-! ## Raw commands -/

/-- What `ata_read_taskfile` takes out of the registers. -/
def RawCmd.result (cmd : RawCmd) (regs : Nat → BitVec 8) : RawCmd :=
  let pair := fun hi lo => (if cmd.lba48 then regs hi else 0) ++ regs lo
  { cmd with
    feature := pair 0x1 0x9
    count := pair 0x2 0xa
    lbaLow := pair 0x3 0xb
    lbaMid := pair 0x4 0xc
    lbaHigh := pair 0x5 0xd
    device := regs 0xe
    command := regs 0xf
    resultValid := true }

def ataReadTaskfile : M Rc := do
  lock
  passRc (powerUpIfOff dev .readTaskfile) 1 0 do
    modify fun s => { s with cmd := { s.cmd with resultValid := false } }
    let a ← ask .readRegisters
    -- only the registers of a CE-ATA disk may fail to be read
    passRcMtx (pure (if dev.ceata then a.rc else 0)) 1 1 do
      modify fun s => { s with cmd := s.cmd.result a.registers }
      unlock
      pure 0

/-- `while (cmd->size--)`, with `n` turns left. -/
def pioTransfer : Nat → M Rc
  | 0 => do
    modify fun s => { s with cmd := { s.cmd with size := 0xffffffff } }
    pure 0
  | n + 1 => do
    modify fun s => { s with cmd := { s.cmd with size := n } }
    let rc ← perform .startOfTransfer
    if isErr rc then pure (errRc (rc <<< 3 ||| 4)) else pioTransfer n

def dmaTransfer : M Rc := do
  let rc ← perform .startOfTransfer
  if isErr rc then pure (errRc (rc <<< 3 ||| 2))
  else do
    let rc ← perform .transfer
    pure (if isErr rc then errRc 3 else 0)

/-- A raw command to a PATA disk, once it is ready. -/
def rawPata : M Rc := do
  let s ← get
  let cmd := s.cmd
  if cmd.transfer then do
    let rc ← (if cmd.dma then dmaTransfer else pioTransfer cmd.size)
    if isErr rc then pure rc
    else do
      let rc ← perform .endOfTransfer
      pure (if isErr rc then errRc (rc <<< 3 ||| 5) else rc)
  else do
    let rc ← perform .waitForRdy
    pure (if isErr rc then errRc (rc <<< 3 ||| 6) else rc)

/-- A raw command to a CE-ATA disk, once its registers are written. -/
def rawCeata : M Rc := do
  let s ← get
  let rc ← (if s.cmd.transfer then perform .rwMultipleBlock else perform .waitIdle)
  let rc := if isErr rc then errRc (rc <<< 3 ||| 3) else rc
  let rc2 ← ataReadTaskfile dev
  pure (if isErr rc2 && !isErr rc then errRc (rc2 <<< 3 ||| 4) else rc)

def ataRawCmd : M Rc := do
  lock
  passRc (powerUpIfOff dev .rawCmd) 3 0 do
    modify fun s => { s with cmd := { s.cmd with resultValid := false } }
    if dev.ceata then
      passRcMtx (perform .waitIdle) 3 1 <| passRcMtx (perform .writeRegisters) 3 2 do
        let rc ← rawCeata dev
        unlock
        pure rc
    else
      passRcMtx (perform .waitForRdy) 3 1 do
        let rc ← rawPata
        let _ ← ataReadTaskfile dev
        unlock
        pure rc

/-! ## Transfers -/

/-- Whether the sectors up to `top` of the memory are there. -/
def State.hasRoom (s : State) (top : Nat) : Place → Bool
  | .user => true
  | .header => top ≤ 1
  | .table =>
    match s.bbt with
    | some b => b.live && top ≤ b.physicals.length
    | none => false

/-- `f` with the `cnt` values from `at_` on replaced by those of `g`. -/
def splice (f : Nat → Sector) (at_ cnt : Nat) (g : Nat → Sector) (x : Nat) : Sector :=
  if at_ ≤ x ∧ x < at_ + cnt then g x else f x

/-- `ata_rw_chunk`, with the sectors of the memory from `pos` on. A failed command may leave
anything in the sectors it was to write. -/
def ataRwChunk (sector cnt : Nat) (place : Place) (pos : Nat) (write : Bool) : M Rc := do
  let s ← get
  if s.hasRoom (pos + cnt) place then do
    let a ← ask (.rwChunk sector cnt write)
    modify fun s =>
      if write then
        let new := fun x => if a.ok then s.mem place (pos + (x - sector)) else a.data x
        { s with medium := splice s.medium sector cnt new }
      else
        let new := fun x => if a.ok then s.medium (sector + (x - pos)) else a.data x
        { s with mem := Function.update s.mem place (splice (s.mem place) pos cnt new) }
    pure a.rc
  else throw .fault

/-- `if (c) ata_reset();` -/
def resetIf (c : Bool) : M Unit :=
  if c then do
    let _ ← ataReset dev
    pure ()
  else pure ()

/-- `if (rc && ata_error_srst) ata_reset();` -/
def resetAfter (rc : Rc) : M Unit := do
  let s ← get
  resetIf dev (rc ≠ 0 && s.errorSrst)

/-- `while (tries-- && rc)`, with `n` tries left. -/
def retry (sect : Nat) (place : Place) (pos : Nat) (write : Bool) : Nat → Rc → M Rc
  | 0, rc => pure rc
  | n + 1, rc =>
    if rc = 0 then pure rc
    else do
      let rc ← ataRwChunk sect 1 place pos write
      resetAfter dev rc
      retry sect place pos write n rc

/-- `for (sect = sector; sect < sector + cnt; sect++)` -/
def retrySectors (place : Place) (write : Bool) : Nat → Nat → Nat → M Rc
  | 0, _, _ => pure 0
  | n + 1, sect, pos => do
    let s ← get
    let rc ← retry dev sect place pos write s.retries 0xffffffff
    if rc = 0 then retrySectors place write n (sect + 1) (pos + 1) else pure rc

/-- A command, and its sectors one by one if it fails. -/
def rwCommand (sector cnt : Nat) (place : Place) (pos : Nat) (write : Bool) : M Rc := do
  let rc ← ataRwChunk sector cnt place pos write
  resetAfter dev rc
  let s ← get
  if rc ≠ 0 ∧ s.retries ≠ 0 then retrySectors dev place write cnt sector pos else pure rc

/-- `while (count)` of `ata_rw_sectors_internal`, for at most `n` commands. -/
def rwCommands (place : Place) (write : Bool) : Nat → Nat → Nat → Nat → M Rc
  | 0, _, _, _ => pure 0
  | n + 1, sector, count, pos =>
    if count = 0 then pure 0
    else do
      let s ← get
      let cnt := min (if s.lba48 then 8192 else 32) count
      passRc (rwCommand dev sector cnt place pos write) 2 2 <|
        rwCommands place write n (sector + cnt) (count - cnt) (pos + cnt)

def ataRwSectorsInternal (sector count : Nat) (place : Place) (pos : Nat) (write : Bool) : M Rc := do
  let s ← get
  if s.totalSectors < sector + count then pure (errRc 0)
  else
    passRc (powerUpIfOff dev .rwSectors) 2 1 <| rwCommands dev place write count sector count pos

/-- The loaded table. -/
def State.table (s : State) (b : Pages) : Bbt.Table :=
  ⟨s.virtualSectors, b.physicals, fun k => (s.mem .table (k / 2048) (k % 2048)).toNat⟩

/-- `ata_bbt_translate`: `none` is `RET_ERR(0)`. -/
def ataBbtTranslate (sector count : Nat) : M (Option (Nat × Nat)) := do
  let s ← get
  if s.virtualSectors < sector + count then pure none
  else
    match s.bbt with
    | none => pure (some (sector, count))
    | some b =>
      if b.live then
        match Bbt.ataBbtTranslate (s.table b) sector count with
        | some r => pure (some r)
        | none => throw .fault
      else throw .fault

/-- `while (count)` of `ata_rw_sectors`, for at most `n` runs. -/
def rwRuns (write : Bool) : Nat → Nat → Nat → Nat → M Rc
  | 0, _, _, _ => pure 0
  | n + 1, sector, count, pos =>
    if count = 0 then pure 0
    else do
      match ← ataBbtTranslate sector count with
      | none => pure (errRc 0)
      | some (phys, cnt) => do
        let s ← get
        let offset := (phys - sector) % 2 ^ 32
        resetIf dev (offset ≠ s.lastOffset && (phys + 2 ^ 64 - s.lastPhys) % 2 ^ 64 < 64)
        modify fun s => { s with lastOffset := offset, lastPhys := phys + cnt }
        passRc (ataRwSectorsInternal dev phys cnt .user pos write) 0 0 <|
          rwRuns write n (sector + cnt) (count - cnt) (pos + cnt)

/-- `ata_rw_sectors`. A run has at least one sector, so that `count` runs are enough. -/
def ataRwSectors (sector count : Nat) (write : Bool) : M Rc := do
  let s ← get
  if s.virtualSectors < sector + count then pure (errRc 0)
  else if s.bbt.isSome then rwRuns dev write count sector count 0
  else passRc (ataRwSectorsInternal dev sector count .user 0 write) 0 0 <| pure 0

/-! ## The bad block table -/

def ataBbtReadSectors (sector count : Nat) (place : Place) (pos : Nat) : M Rc := do
  let s ← get
  resetIf dev (s.lastPhys ≠ (sector + 2 ^ 32 - 1) % 2 ^ 32 &&
    (sector + 2 ^ 32 - 64) % 2 ^ 32 < s.lastPhys)
  let rc ← ataRwSectorsInternal dev sector count place pos false
  let rc ← (if rc ≠ 0 then ataRwSectorsInternal dev sector count place pos false else pure rc)
  modify fun s => { s with lastPhys := (sector + count + 2 ^ 32 - 1) % 2 ^ 32, lastOffset := 0 }
  if isErr rc then do
    let _ ← ask (.report place)
    pure rc
  else pure rc

/-- `ata_bbt_disable`. The table must not have been freed yet. -/
def ataBbtDisable : M Unit := do
  lock
  let s ← get
  if s.bbt.all (·.live) then do
    modify fun s => { s with bbt := none, virtualSectors := s.totalSectors }
    unlock
  else throw .fault

/-- `buf[k]` -/
def headerWord (k : Nat) : M (BitVec 32) := do
  if k < 0x400 then do
    let s ← get
    pure ((s.mem .header 0).word k)
  else throw .fault

/-- `for (cnt = 1; cnt < count; cnt++)`, with `n` turns left. -/
def runLength (count i : Nat) (phys : BitVec 32) : Nat → Nat → M Nat
  | 0, cnt => pure cnt
  | n + 1, cnt =>
    if cnt < count then do
      let w ← headerWord (0x200 + i + cnt)
      if w ≠ phys + BitVec.ofNat 32 cnt then pure cnt else runLength count i phys n (cnt + 1)
    else pure cnt

/-- `for (i = 0; i < count; i += cnt)`, with `n` turns left. -/
def loadRuns (count : Nat) : Nat → Nat → M Unit
  | 0, _ => pure ()
  | n + 1, i =>
    if i < count then do
      let phys ← headerWord (0x200 + i)
      let cnt ← runLength count i phys count 1
      let rc ← ataBbtReadSectors dev phys.toNat cnt .table i
      if isErr rc then
        -- `free(ata_bbt);`, and `ata_bbt` stays as it is
        modify fun s =>
          { s with
            bbt := s.bbt.map fun b => { b with live := false }
            virtualSectors := s.totalSectors }
      else loadRuns count n (i + cnt)
    else pure ()

/-- The sectors that there is room for: the size of the table is a `uint32_t`. -/
def listed (header : Sector) : List Nat :=
  (List.range ((header.word 0x1ff).toNat % 2 ^ 20)).map fun i => (header.word (0x200 + i)).toNat

/-- The table of a valid header is allocated and read. -/
def loadTable : M Unit := do
  let s ← get
  let header := s.mem .header 0
  let count := (header.word 0x1ff).toNat
  modify fun s => { s with virtualSectors := (header.word 0x1fd ++ header.word 0x1fc).toNat }
  let a ← ask (.memalign .table (0x1000 * count % 2 ^ 32))
  if a.ok then do
    modify fun s =>
      { s with bbt := some ⟨true, listed header⟩, mem := Function.update s.mem .table a.data }
    loadRuns dev count count 0
  else modify fun s => { s with virtualSectors := s.totalSectors }

def ataBbtReload : M Rc := do
  lock
  ataBbtDisable
  passRc (ataPowerUp dev .bbtPowerUp) 1 0 do
    let noTable : M Rc := do
      modify fun s => { s with virtualSectors := s.totalSectors }
      unlock
      pure 0
    let a ← ask (.memalign .header 0x1000)
    if a.ok then do
      modify fun s => { s with mem := Function.update s.mem .header a.data }
      let rc ← ataBbtReadSectors dev 0 1 .header 0
      let s ← get
      if isErr rc then noTable
      else if (s.mem .header 0).hasMagic then
        passRc (if dev.writeCache then perform (.setFeature .bbtReload 0x02 0) else pure 0) 1 1 do
          loadTable dev
          unlock
          pure 0
      else noTable
    else noTable

/-! ## Calls -/

/-- The functions that lock `ata_mutex`, but for those that only lock it around a transfer. -/
inductive Call
  | softReset | hardReset | reset | readTaskfile | rawCmd | bbtReload
  deriving DecidableEq, Repr

def call : Call → M Rc
  | .softReset => ataSoftReset dev
  | .hardReset => ataHardReset dev
  | .reset => ataReset dev
  | .readTaskfile => ataReadTaskfile dev
  | .rawCmd => ataRawCmd dev
  | .bbtReload => ataBbtReload dev

end Ata
end Freemyipod
