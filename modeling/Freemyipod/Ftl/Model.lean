import Mathlib
import Freemyipod.Lib.Effect

/-!
# Ftl.Model

The flash translation layer of the iPod nano 2G (`target/ipodnano2g/ftl.c`): reading, writing and
syncing logical sectors, and mounting.

The NAND is a store of vPages. A block erase clears every page of a vBlock, a page program sets a
page that is erased, and neither reports an error. Below it `ftl_vfl_read` and `ftl_vfl_write`
translate vPages to banks and physical blocks one to one as long as no remap is scheduled, so the
store is addressed by vPage here. A VFL context is kept as the last one stored on each bank.

Numbers that the code compares and lets wrap (`usn`, erase counters, `swapcounter`) have the
code's width. Block and page numbers are `Nat`. Arrays are functions of the index. The buffers
`ftl_buffer`, `ftl_sparebuffer` and `ftl_copybuffer` are values that a function passes on.
-/

namespace Freemyipod
namespace Ftl

open Effect

/-! ## The device -/

/-- `struct nand_device_info_type`, as far as the FTL reads it. -/
structure DeviceInfo where
  id : Nat
  blocks : Nat
  userblocks : Nat
  pagesperblock : Nat
  blocksizeexponent : Nat
deriving DecidableEq

def nandDeviceinfotable : List DeviceInfo :=
  [⟨0x1580F1EC, 1024, 968, 0x40, 6⟩, ⟨0x1580DAEC, 2048, 1936, 0x40, 6⟩,
   ⟨0x15C1DAEC, 2048, 1936, 0x40, 6⟩, ⟨0x1510DCEC, 4096, 3872, 0x40, 6⟩,
   ⟨0x95C1DCEC, 4096, 3872, 0x40, 6⟩, ⟨0x2514DCEC, 2048, 1936, 0x80, 7⟩,
   ⟨0x2514D3EC, 4096, 3872, 0x80, 7⟩, ⟨0x2555D3EC, 4096, 3872, 0x80, 7⟩,
   ⟨0x2555D5EC, 8192, 7744, 0x80, 7⟩, ⟨0x2585D3AD, 4096, 3872, 0x80, 7⟩,
   ⟨0x9580DCAD, 4096, 3872, 0x40, 6⟩, ⟨0xA514D3AD, 4096, 3872, 0x80, 7⟩,
   ⟨0xA550D3AD, 4096, 3872, 0x80, 7⟩, ⟨0xA560D5AD, 4096, 3872, 0x80, 7⟩,
   ⟨0xA555D5AD, 8192, 7744, 0x80, 7⟩, ⟨0xA585D598, 8320, 7744, 0x80, 7⟩,
   ⟨0xA584D398, 4160, 3872, 0x80, 7⟩, ⟨0x95D1D32C, 8192, 7744, 0x40, 6⟩,
   ⟨0x1580DC2C, 4096, 3872, 0x40, 6⟩, ⟨0x15C1D32C, 8192, 7744, 0x40, 6⟩,
   ⟨0x9590DC2C, 4096, 3872, 0x40, 6⟩, ⟨0xA594D32C, 4096, 3872, 0x80, 7⟩,
   ⟨0x2584DC2C, 2048, 1936, 0x80, 7⟩, ⟨0xA5D5D52C, 8192, 7744, 0x80, 7⟩,
   ⟨0x95D1D389, 8192, 7744, 0x40, 6⟩, ⟨0x1580DC89, 4096, 3872, 0x40, 6⟩,
   ⟨0x15C1D389, 8192, 7744, 0x40, 6⟩, ⟨0x9590DC89, 4096, 3872, 0x40, 6⟩,
   ⟨0xA594D389, 4096, 3872, 0x80, 7⟩, ⟨0x2584DC89, 2048, 1936, 0x80, 7⟩,
   ⟨0xA5D5D589, 8192, 7744, 0x80, 7⟩, ⟨0xA514D320, 4096, 3872, 0x80, 7⟩,
   ⟨0xA555D520, 8192, 3872, 0x80, 7⟩]

/-- The chips of one device: `ftl_nand_type` and `ftl_banks_exponent`. -/
structure Device where
  type : DeviceInfo
  banksExponent : Nat
  known : type ∈ nandDeviceinfotable
  banks_le : banksExponent ≤ 2

namespace Device

variable (d : Device)

def banks : Nat := 2 ^ d.banksExponent

/-- Pages per hyperblock. -/
def ppb : Nat := 2 ^ (d.type.blocksizeexponent + d.banksExponent)

/-- `userblocks + 0x17`, the number of vBlocks. -/
def vblocks : Nat := d.type.userblocks + 0x17

def sectors : Nat := d.type.userblocks * d.ppb

end Device

def copybufSize : Nat := 4

def writespareSize : Nat := 32

/-! ## What is kept, on flash and in memory -/

/-- `struct ftl_cxt_type`. -/
structure Cxt where
  usn : UInt32
  nextblockusn : UInt32
  freecount : Nat
  nextfreeidx : Nat
  swapcounter : UInt16
  blockpool : Nat → Nat
  ftlMapPages : Nat → Nat
  ftlErasectrPages : Nat → Nat
  erasedirty : Nat
  ftlctrlblocks : Nat → Nat
  ftlctrlpage : Nat
  cleanFlag : Nat

/-- `struct ftl_log_type`, with the row of `ftl_offsets` it points to. -/
structure LogEntry where
  usn : UInt32
  scatteredvblock : Nat
  logicalvblock : Nat
  pageoffsets : Nat → Nat
  pagesused : Nat
  pagescurrent : Nat
  issequential : Nat

/-- The first 12 spare bytes of a page, `union ftl_spare_data_type`: the two words are `user.lpn`
and `user.usn`, or `meta.usn` and, in the low half, `meta.idx`. -/
structure Spare where
  word0 : UInt32
  word1 : UInt32
  type : Nat
  eccmark : Nat
deriving DecidableEq

namespace Spare

/-- `memset(.., 0xFF, 0x40)`. -/
def blank : Spare := ⟨0xFFFFFFFF, 0xFFFFFFFF, 0xFF, 0xFF⟩

def user (lpn : Nat) (usn : UInt32) (type eccmark : Nat) : Spare :=
  ⟨UInt32.ofNat lpn, usn, type, eccmark⟩

/-- Of `meta.idx` only the low 16 bits are set. -/
def «meta» (usn : UInt32) (idx type : Nat) : Spare :=
  ⟨usn, UInt32.ofNat (0xFFFF0000 + idx), type, 0xFF⟩

def lpn (s : Spare) : Nat := s.word0.toNat
def usn (s : Spare) : UInt32 := s.word1
def metaUsn (s : Spare) : UInt32 := s.word0
def idx (s : Spare) : Nat := s.word1.toNat % 2 ^ 16

end Spare

/-- The 2048 data bytes of a page: what a caller's buffer holds, or one of the FTL's own. -/
inductive Payload (α : Type)
  | sector (a : α)
  | zeros
  | ones
  | erasectr (l : List UInt16)
  | map (l : List Nat)
  | cxt (c : Cxt)

structure Page (α : Type) where
  data : Payload α
  spare : Spare

/-- What the FTL needs of `struct ftl_vfl_cxt_type`. -/
structure VflCxt where
  usn : UInt32
  ftlctrlblocks : Nat → Nat

/-- The FTL's variables in `ftl.c`, the NAND pages (`none` is erased) and the VFL context last
stored on each bank. -/
structure State (α : Type) where
  cxt : Cxt
  map : Nat → Nat
  erasectr : Nat → UInt16
  erasectrDirt : Nat → Nat
  log : Nat → LogEntry
  vflUsn : UInt32
  vflCxt : Nat → VflCxt
  nand : Nat → Option (Page α)
  vflStored : Nat → VflCxt

/-- What stops a call for good. -/
inductive Fault
  /-- `panicf`, which kills the calling thread. -/
  | panic
  /-- An index past the end of `ftl_log`, or a block released into a full ring. -/
  | overrun
  /-- An index past the end of `ftl_map`. -/
  | outside
  /-- A program of a page that is not erased, of which the NAND promises nothing. -/
  | overwrite
  /-- A loop that does not end. -/
  | endless
deriving DecidableEq

abbrev Op (α β : Type) := StateT (State α) (Except Fault) β

/-- `panicf` or another fault if `c`, else go on. -/
@[grind =] def faultIf {α : Type} (c : Prop) [Decidable c] (f : Fault) : Op α Unit :=
  if c then throw f else pure ()

/-- A sum of `uint32_t`. -/
def wrap (n : Nat) : Nat := n % 2 ^ 32

/-- `a[i] = v;` -/
def upd {β : Type} (a : Nat → β) (i : Nat) (v : β) : Nat → β :=
  fun j => if j = i then v else a j

variable {α : Type} (d : Device)

namespace State

def modifyCxt (f : Cxt → Cxt) (s : State α) : State α := { s with cxt := f s.cxt }

def modifyLog (e : Nat) (f : LogEntry → LogEntry) (s : State α) : State α :=
  { s with log := upd s.log e (f (s.log e)) }

end State

/-! ## Pages and blocks -/

/-- `ftl_vfl_read`: the return code, the data and the spare bytes. An erased page is told from
others only with `checkempty`; without, it fails both error corrections. -/
def vflRead (nand : Nat → Option (Page α)) (vpage checkempty : Nat) : Nat × Payload α × Spare :=
  if d.vblocks * d.ppb ≤ vpage then (4, .ones, .blank)
  else
    match nand vpage with
    | none => (if checkempty = 1 then 2 else 0x110, .ones, .blank)
    | some p => (0, p.data, p.spare)

/-- One bank's bits in the return code of `ftl_vfl_read_fast`. -/
def bankBits (ret : Nat) : Nat :=
  (if ret &&& 1 ≠ 0 then 1 else 0) + (if ret &&& 2 ≠ 0 then 2 else 0) +
    (if ret &&& 0x10 ≠ 0 then 4 else 0) + (if ret &&& 0x100 ≠ 0 then 8 else 0)

/-- `ftl_vfl_read_fast`: for each bank its bits of the return code, its data and its spare bytes.
The banks are read by `nand_read_page_fast`, which returns the status of absent banks only. Out of
bounds it reports 4, which is a bit of bank 0, and leaves the buffer alone. -/
def vflReadFast (nand : Nat → Option (Page α)) (vpage checkempty : Nat) (buffer : Nat → Payload α)
    (j : Nat) : Nat × Payload α × Spare :=
  if d.vblocks * d.ppb ≤ vpage + d.banks - 1 then (if j = 0 then 4 else 0, buffer j, .blank)
  else (0, (vflRead d nand (vpage + j) checkempty).2)

def programPage (vpage : Nat) (data : Payload α) (spare : Spare) : Op α Unit := do
  let s ← get
  match s.nand vpage with
  | some _ => throw .overwrite
  | none => set { s with nand := upd s.nand vpage (some ⟨data, spare⟩) }

def vflWrite (vpage count : Nat) (buffer : Nat → Payload α) (spare : Nat → Spare) : Op α Nat :=
  if d.vblocks * d.ppb < vpage + count then pure 4
  else do
    loop count fun i => programPage (vpage + i) (buffer i) (spare i)
    return 0

def eraseBlockInternal (block : Nat) : Op α Nat :=
  if d.vblocks ≤ block then pure 1
  else do
    modify fun s => { s with nand := fun p => if p / d.ppb = block then none else s.nand p }
    return 0

def eraseBlock (block : Nat) : Op α Nat := do
  modify fun s => { s with erasectr := upd s.erasectr block (s.erasectr block + 1) }
  let s ← get
  if s.erasectrDirt (block / 1024) = 100 then
    set (s.modifyCxt fun c => { c with erasedirty := 1 })
  else
    set { s with
      erasectrDirt := upd s.erasectrDirt (block / 1024) (s.erasectrDirt (block / 1024) + 1) }
  eraseBlockInternal d block

/-! ## The pool -/

namespace Cxt

/-- The ring index of the `i`-th free block. -/
def poolIdx (c : Cxt) (i : Nat) : Nat :=
  if 0x14 ≤ c.nextfreeidx + i then c.nextfreeidx + i - 0x14 else c.nextfreeidx + i

end Cxt

namespace State

/-- The search loop of `ftl_allocate_pool_block`: `erasectr` and `bestidx` after `n` turns. -/
def bestPool (s : State α) : Nat → Nat × Nat
  | 0 => (0xFFFFFFFF, 0xFFFFFFFF)
  | n + 1 =>
    let r := s.bestPool n
    let idx := s.cxt.poolIdx n
    if s.cxt.blockpool idx = 0 then r
    else if (s.erasectr (s.cxt.blockpool idx)).toNat < r.1 then
      ((s.erasectr (s.cxt.blockpool idx)).toNat, idx)
    else r

end State

/-- `none` is the code's `0xFFFFFFFF`. -/
def allocatePoolBlock : Op α (Option Nat) := do
  let s ← get
  let bestidx := (s.bestPool s.cxt.freecount).2
  faultIf (bestidx = 0xFFFFFFFF) .panic
  let block := s.cxt.blockpool bestidx
  if bestidx ≠ s.cxt.nextfreeidx then
    modify (State.modifyCxt fun c => { c with
      blockpool :=
        upd (upd c.blockpool bestidx (c.blockpool c.nextfreeidx)) c.nextfreeidx block })
  faultIf (d.vblocks < block) .panic
  if (← eraseBlock d block) ≠ 0 then
    return none
  else
    modify (State.modifyCxt fun c => { c with
      nextfreeidx := if c.nextfreeidx + 1 = 0x14 then 0 else c.nextfreeidx + 1
      freecount := c.freecount - 1 })
    return some block

/-- With 20 blocks in the ring the code would overwrite one of them. -/
def releasePoolBlock (block : Nat) : Op α Unit := do
  faultIf (d.vblocks ≤ block) .panic
  let s ← get
  faultIf (0x14 ≤ s.cxt.freecount) .overrun
  set (s.modifyCxt fun c => { c with
    blockpool := upd c.blockpool (c.poolIdx c.freecount) block
    freecount := c.freecount + 1 })

/-! ## The control pages -/

/-- `ftl_vfl_commit_cxt`: the bank's context goes to flash under the next `usn`. -/
def vflCommitCxt (bank : Nat) : Op α Nat := do
  modify fun s =>
    let cxt : VflCxt := { s.vflCxt bank with usn := s.vflUsn + 1 }
    { s with
      vflUsn := s.vflUsn + 1
      vflCxt := upd s.vflCxt bank cxt
      vflStored := upd s.vflStored bank cxt }
  return 0

def storeCtrlBlockList : Op α Nat := do
  modify fun s => { s with
    vflCxt := fun i =>
      if i < d.banks then { s.vflCxt i with ftlctrlblocks := s.cxt.ftlctrlblocks }
      else s.vflCxt i }
  let s ← get
  vflCommitCxt (s.vflUsn.toNat % d.banks)

namespace State

/-- `&ftl_erasectr[index << 10]`, one page of it. -/
def erasectrPage (s : State α) (index : Nat) : List UInt16 :=
  (List.range 1024).map fun k => s.erasectr (index * 1024 + k)

/-- `&ftl_map[index << 10]`, one page of it. -/
def mapPage (s : State α) (index : Nat) : List Nat :=
  (List.range 1024).map fun k => s.map (index * 1024 + k)

end State

/-- `memcmp(ftl_buffer, &ftl_erasectr[index << 10], 0x800) == 0`. -/
def Payload.isErasectr (p : Payload α) (l : List UInt16) : Bool :=
  match p with
  | .erasectr l' => l' == l
  | _ => false

def saveErasectrPage (index : Nat) : Op α Nat := do
  let s ← get
  let page := s.cxt.ftlctrlpage
  let rc ← vflWrite d page 1 (fun _ => .erasectr (s.erasectrPage index)) fun _ =>
    Spare.meta s.cxt.usn index 0x46
  let t ← get
  let r := vflRead d t.nand page 1
  if rc ≠ 0 ∨ r.1 &&& 0x11F ≠ 0 ∨ ¬ r.2.1.isErasectr (s.erasectrPage index) ∨
      r.2.2.type ≠ 0x46 ∨ r.2.2.idx ≠ index ∨ r.2.2.metaUsn ≠ s.cxt.usn then
    return 1
  else
    set { t with
      cxt := { t.cxt with ftlErasectrPages := upd t.cxt.ftlErasectrPages index page }
      erasectrDirt := upd t.erasectrDirt index 0 }
    return 0

namespace Device

/-- How many pages the erase counters take, as `ftl_open` and `ftl_next_ctrl_pool_page` reckon. -/
def ctrPagestoread : Nat :=
  d.vblocks / 1024 + if d.vblocks % 512 ≠ 0 then 1 else 0

def mapPagestoread : Nat :=
  d.type.userblocks / 1024 + if d.type.userblocks % 512 ≠ 0 then 1 else 0

/-- The same as `ftl_commit_cxt` reckons. -/
def ctrpages : Nat := (d.vblocks + 0x3ff) / 1024

def mappages : Nat := (d.type.userblocks + 0x3ff) / 1024

end Device

namespace Cxt

/-- Which control block ends right before `ftlctrlpage`; 3 if none does. -/
def ctrlIdx (c : Cxt) (ppb : Nat) : Nat :=
  if (c.ftlctrlblocks 0 + 1) * ppb = c.ftlctrlpage then 0
  else if (c.ftlctrlblocks 1 + 1) * ppb = c.ftlctrlpage then 1
  else if (c.ftlctrlblocks 2 + 1) * ppb = c.ftlctrlpage then 2
  else 3

/-- `ftl_cxt.ftlctrlblocks[i] = block;`. The array has three elements; behind it in the packed
structure are the halves of `ftlctrlpage` and of `clean_flag`, then bytes that nothing uses. -/
def setCtrlBlock (c : Cxt) (i block : Nat) : Cxt :=
  if i < 3 then { c with ftlctrlblocks := upd c.ftlctrlblocks i block }
  else if i = 3 then { c with ftlctrlpage := c.ftlctrlpage / 2 ^ 16 * 2 ^ 16 + block }
  else if i = 4 then { c with ftlctrlpage := block * 2 ^ 16 + c.ftlctrlpage % 2 ^ 16 }
  else if i = 5 then { c with cleanFlag := c.cleanFlag / 2 ^ 16 * 2 ^ 16 + block }
  else if i = 6 then { c with cleanFlag := block * 2 ^ 16 + c.cleanFlag % 2 ^ 16 }
  else c

end Cxt

/-- The turn for erase counter page `i` of the loop in `ftl_next_ctrl_pool_page`. -/
def moveErasectrPage (oldblock newblock i : Nat) : Op α (Option Nat) := do
  let s ← get
  if oldblock * d.ppb ≤ s.cxt.ftlErasectrPages i ∧
      s.cxt.ftlErasectrPages i < (oldblock + 1) * d.ppb then
    set (s.modifyCxt fun c => { c with usn := c.usn - 1 })
    if (← saveErasectrPage d i) ≠ 0 then
      modify (State.modifyCxt fun c =>
        { c.setCtrlBlock i oldblock with
          ftlctrlpage := wrap (oldblock * (d.ppb + 1) + (2 ^ 32 - 1)) })
      releasePoolBlock d newblock
      return some 1
    else
      modify (State.modifyCxt fun c => { c with ftlctrlpage := c.ftlctrlpage + 1 })
      return none
  else
    return none

/-- The part of `ftl_next_ctrl_pool_page` that starts a new control block. -/
def startCtrlBlock : Op α Nat := do
  let s ← get
  let i := (s.cxt.ctrlIdx d.ppb + 1) % 3
  let oldblock := s.cxt.ftlctrlblocks i
  match ← allocatePoolBlock d with
  | none => return 1
  | some newblock =>
    modify (State.modifyCxt fun c => { c with
      ftlctrlblocks := upd c.ftlctrlblocks i newblock
      ftlctrlpage := newblock * d.ppb })
    match ← loopUntil d.ctrPagestoread 0 (moveErasectrPage d oldblock newblock) with
    | some rc => return rc
    | none =>
      releasePoolBlock d oldblock
      storeCtrlBlockList d

def nextCtrlPoolPage : Op α Nat := do
  modify (State.modifyCxt fun c => { c with ftlctrlpage := c.ftlctrlpage + 1 })
  let s ← get
  if s.cxt.ftlctrlpage % d.ppb ≠ 0 then return 0 else startCtrlBlock d

/-! ## Reading -/

namespace LogEntry

/-- The entry is in use. -/
abbrev Used (e : LogEntry) : Prop := e.scatteredvblock ≠ 0xFFFF

end LogEntry

namespace State

/-- `ftl_get_log_entry`: the index into `ftl_log`. -/
def getLogEntry (s : State α) (block : Nat) : Option Nat :=
  (List.range 0x11).find? fun i => (s.log i).Used ∧ (s.log i).logicalvblock = block

/-- The `abspage` that `ftl_read` reads. -/
def abspage (s : State α) (block page : Nat) : Nat :=
  match s.getLogEntry block with
  | none => s.map block * d.ppb + page
  | some e =>
    if (s.log e).scatteredvblock ≠ 0xFFFF ∧ (s.log e).pageoffsets page ≠ 0xFFFF then
      (s.log e).scatteredvblock * d.ppb + (s.log e).pageoffsets page
    else s.map block * d.ppb + page

end State

/-- What `ftl_read` leaves in its buffer, and the return code so far. -/
structure Reading (α : Type) where
  error : Int
  buffer : Nat → Payload α

/-- A page read: `empty` and `failed` are the tests on its return code and its ECC mark. -/
def Reading.store (r : Reading α) (i : Nat) (empty failed : Bool) (data : Payload α)
    (code : Int) : Reading α :=
  if empty then { r with buffer := upd r.buffer i .zeros }
  else if failed then ⟨code, upd r.buffer i .zeros⟩
  else { r with buffer := upd r.buffer i data }

/-- The first `k` banks of a fast read of the pages from `abspage`, for sectors `i`, `i + 1`, ... -/
def readBanks (nand : Nat → Option (Page α)) (abspage i : Nat) (r₀ : Reading α) : Nat → Reading α
  | 0 => r₀
  | j + 1 =>
    let p := vflReadFast d nand abspage 1 (fun k => r₀.buffer (i + k)) j
    (readBanks nand abspage i r₀ j).store (i + j) (p.1 &&& 2 ≠ 0)
      (p.1 &&& 0xd ≠ 0 ∨ p.2.2.eccmark ≠ 0xFF) p.2.1 (-3)

/-- The loop of `ftl_read` from turn `i`, with `n` turns at most to go. -/
def readLoop (s : State α) (sector count : Nat) : Nat → Nat → Reading α → Reading α
  | 0, _, r => r
  | n + 1, i, r =>
    if count ≤ i then r
    else
      let block := wrap (sector + i) / d.ppb
      let page := wrap (sector + i) % d.ppb
      let abspage := s.abspage d block page
      if i + d.banks ≤ count ∧ page % d.banks = 0 ∧ s.getLogEntry block = none then
        readLoop s sector count n (i + d.banks) (readBanks d s.nand abspage i r d.banks)
      else
        let p := vflRead d s.nand abspage 1
        readLoop s sector count n (i + 1)
          (r.store i (p.1 &&& 2 ≠ 0) (p.1 &&& 0x11D ≠ 0 ∨ p.2.2.eccmark ≠ 0xFF) p.2.1 (-4))

def ftlRead (s : State α) (sector count : Nat) (buffer : Nat → Payload α) : Reading α :=
  if d.sectors < wrap (sector + count) then ⟨-2, buffer⟩
  else readLoop d s sector count count 0 ⟨0, buffer⟩

/-- The logical blocks that the loop of `ftl_read` looks up in `ftl_map`. -/
def State.readBlocks (s : State α) (sector count : Nat) : Nat → Nat → List Nat
  | 0, _ => []
  | n + 1, i =>
    if count ≤ i then []
    else
      let block := wrap (sector + i) / d.ppb
      let page := wrap (sector + i) % d.ppb
      block :: s.readBlocks sector count n
        (if i + d.banks ≤ count ∧ page % d.banks = 0 ∧ s.getLogEntry block = none then i + d.banks
        else i + 1)

/-- `ftl_read` with its look-ups in `ftl_map`. -/
def readSectors (sector count : Nat) (buffer : Nat → Payload α) : Op α (Reading α) := do
  let s ← get
  faultIf (¬ d.sectors < wrap (sector + count) ∧
    ∃ block ∈ s.readBlocks d sector count count 0, d.type.userblocks ≤ block) .outside
  return ftlRead d s sector count buffer

def mapAt (block : Nat) : Op α Nat := do
  faultIf (d.type.userblocks ≤ block) .outside
  let s ← get
  return s.map block

/-- `ftl_map[block] = vblock;` -/
def setMap (block vblock : Nat) : Op α Unit := do
  faultIf (d.type.userblocks ≤ block) .outside
  modify fun s => { s with map := upd s.map block vblock }

/-! ## Copying -/

def copyPage (source destination lpn type : Nat) : Op α Nat := do
  let s ← get
  let r := vflRead d s.nand source 1
  let rc := r.1 &&& 0x11F
  let usn := s.cxt.nextblockusn + 1
  set (s.modifyCxt fun c => { c with nextblockusn := usn })
  vflWrite d destination 1 (fun _ => if rc &&& 2 ≠ 0 then .zeros else r.2.1) fun _ =>
    .user lpn usn (if type = 1 ∧ destination % d.ppb = d.ppb - 1 then 0x41 else 0x40)
      (if rc &&& 2 = 0 ∧ rc ≠ 0 then 0x55 else 0xFF)

/-- The turn of the loop in `ftl_copy_block` for the pages from `i`. -/
def copyGroup (source destination i : Nat) : Op α (Option Unit) := do
  let s ← get
  let lpn := source * d.ppb + i
  let r ← readSectors d lpn copybufSize fun _ => .zeros
  let one := fun j => ftlRead d s (lpn + j) 1 fun _ => r.buffer j
  let rc ← vflWrite d (destination * d.ppb + i) copybufSize
    (fun j => if r.error ≠ 0 then (one j).buffer 0 else r.buffer j) fun j =>
      .user (lpn + j) s.cxt.nextblockusn (if i + j = d.ppb - 1 then 0x41 else 0x40)
        (if r.error ≠ 0 ∧ (one j).error ≠ 0 then 0x55 else 0xFF)
  return if rc ≠ 0 then some () else none

def copyBlock (source destination : Nat) : Op α Nat := do
  modify (State.modifyCxt fun c => { c with nextblockusn := c.nextblockusn + 1 })
  match ← loopUntil ((d.ppb + copybufSize - 1) / copybufSize) 0 fun t =>
      copyGroup d source destination (t * copybufSize) with
  | some _ =>
    let _ ← eraseBlock d destination
    return 1
  | none => return 0

/-! ## Log entries -/

namespace LogEntry

def checkStillSequential (page : Nat) (e : LogEntry) : LogEntry :=
  if e.pagesused ≠ e.pagescurrent ∨ e.pageoffsets page ≠ page then { e with issequential := 0 }
  else e

/-- `ftl_init_log_entry`. -/
def init (e : LogEntry) : LogEntry :=
  { e with issequential := 1, pagescurrent := 0, pagesused := 0, pageoffsets := fun _ => 0xFFFF }

/-- The turn for page `j` of `cnt` of the loop in `ftl_write` that enters the pages written. -/
def noteWritten (page cnt j : Nat) (e : LogEntry) : LogEntry :=
  let e := if e.pageoffsets (page + j) = 0xFFFF then { e with pagescurrent := e.pagescurrent + 1 }
    else e
  let e := { e with pageoffsets := upd e.pageoffsets (page + j) (e.pagesused - cnt + j) }
  if e.pagesused - cnt + j + 1 ≠ e.pagescurrent ∨ e.pageoffsets (page + j) ≠ page + j then
    { e with issequential := 0 }
  else e

end LogEntry

/-- The turn for page `j` of the inner loop in `ftl_compact_scattered`. -/
def compactPage (e old block j : Nat) : Op α (Option Nat) := do
  let s ← get
  let entry := s.log e
  if entry.pageoffsets j = 0xFFFF then return none
  else if (← copyPage d (old * d.ppb + entry.pageoffsets j) (block * d.ppb + entry.pagesused)
      (entry.logicalvblock * d.ppb + j) entry.issequential) ≠ 0 then
    return some 1
  else
    modify (State.modifyLog e fun x =>
      { x with
        pageoffsets := upd x.pageoffsets j x.pagesused
        pagesused := x.pagesused + 1
        pagescurrent := x.pagescurrent + 1 }.checkStillSequential j)
    return none

/-- The outer loop of `ftl_compact_scattered`, with `n` tries left. -/
def compactTries (e : Nat) (backup : LogEntry) : Nat → Op α Nat
  | 0 => return 1
  | n + 1 => do
    match ← allocatePoolBlock d with
    | none => return 1
    | some block =>
      modify (State.modifyLog e fun x =>
        { x with pagesused := 0, pagescurrent := 0, issequential := 1, scatteredvblock := block })
      let error ← loopUntil d.ppb 0 (compactPage d e backup.scatteredvblock block)
      let s ← get
      if error = none ∧ backup.pagescurrent = (s.log e).pagescurrent then
        releasePoolBlock d backup.scatteredvblock
        return 0
      else
        modify (State.modifyLog e fun _ => backup)
        compactTries e backup n

def compactScattered (e : Nat) : Op α Nat := do
  let s ← get
  if (s.log e).pagescurrent = 0 then
    releasePoolBlock d (s.log e).scatteredvblock
    modify (State.modifyLog e fun x => { x with scatteredvblock := 0xFFFF })
    return 0
  else compactTries d e (s.log e) 4

/-- The loop of `ftl_commit_scattered`, with `n` tries left: the block copied to. -/
def commitTries (logical : Nat) : Nat → Op α (Option Nat)
  | 0 => return none
  | n + 1 => do
    match ← allocatePoolBlock d with
    | none => return none
    | some block =>
      if (← copyBlock d logical block) = 0 then return some block
      else
        releasePoolBlock d block
        commitTries logical n

def commitScattered (e : Nat) : Op α Nat := do
  let s ← get
  let entry := s.log e
  match ← commitTries d entry.logicalvblock 4 with
  | none => return 1
  | some block =>
    releasePoolBlock d entry.scatteredvblock
    modify (State.modifyLog e fun x => { x with scatteredvblock := 0xFFFF })
    releasePoolBlock d (← mapAt d entry.logicalvblock)
    setMap d entry.logicalvblock block
    return 0

/-- The loop of `ftl_commit_sequential`, and what follows it, with less than `n` turns to go. -/
def commitSequentialLoop (e : Nat) : Nat → Op α Nat
  | 0 => throw .endless
  | n + 1 => do
    let s ← get
    let entry := s.log e
    if entry.pagesused < d.ppb then
      let lpn := entry.logicalvblock * d.ppb + entry.pagesused
      let newpage := entry.scatteredvblock * d.ppb + entry.pagesused
      let count := min copybufSize (d.ppb - entry.pagesused)
      if ∃ i < count, entry.pageoffsets (entry.pagesused + i) ≠ 0xFFFF then commitScattered d e
      else
        let r ← readSectors d lpn count fun _ => .zeros
        let usn := s.cxt.nextblockusn
        set (s.modifyCxt fun c => { c with nextblockusn := usn + UInt32.ofNat count })
        if (← vflWrite d newpage count r.buffer fun i =>
            .user (lpn + i) (usn + UInt32.ofNat (i + 1))
              (if entry.pagesused + i = d.ppb - 1 then 0x41 else 0x40)
              (if r.error ≠ 0 then 0x55 else 0xFF)) ≠ 0 then
          commitScattered d e
        else
          modify (State.modifyLog e fun x => { x with pagesused := x.pagesused + count })
          commitSequentialLoop e n
    else
      releasePoolBlock d (← mapAt d entry.logicalvblock)
      setMap d entry.logicalvblock entry.scatteredvblock
      modify (State.modifyLog e fun x => { x with scatteredvblock := 0xFFFF })
      return 0

def commitSequential (e : Nat) : Op α Nat := do
  let s ← get
  if (s.log e).issequential ≠ 1 ∨ (s.log e).pagescurrent ≠ (s.log e).pagesused then return 1
  else commitSequentialLoop d e (d.ppb + 1)

/-- `age`, `used` and `entry` in `ftl_remove_scattered_block`. -/
structure Oldest where
  age : UInt32
  used : Nat
  entry : Option Nat

namespace State

/-- The search loop of `ftl_remove_scattered_block`, `n` turns of it; `none` if it returned 1. -/
def oldest (s : State α) : Nat → Option Oldest
  | 0 => some ⟨0xFFFFFFFF, 0, none⟩
  | n + 1 =>
    match s.oldest n with
    | none => none
    | some o =>
      if ¬ (s.log n).Used then some o
      else if (s.log n).pagesused = 0 ∨ (s.log n).pagescurrent = 0 then none
      else if (s.log n).usn < o.age ∨ (s.log n).usn = o.age ∧ o.used < (s.log n).pagescurrent then
        some ⟨(s.log n).usn, (s.log n).pagescurrent, some n⟩
      else some o

end State

/-- The last lines of `ftl_remove_scattered_block`. -/
def commitEntry (e : Nat) : Op α Nat := do
  modify (State.modifyCxt fun c => { c with swapcounter := c.swapcounter + 1 })
  let s ← get
  if (s.log e).issequential = 1 then commitSequential d e else commitScattered d e

def removeScatteredBlock (entry : Option Nat) : Op α Nat := do
  let s ← get
  match entry with
  | none =>
    match s.oldest 0x11 with
    | none => return 1
    | some o =>
      match o.entry with
      | none => return 1
      | some e => commitEntry d e
  | some e =>
    if (s.log e).pagescurrent < d.ppb / 2 then
      modify (State.modifyCxt fun c => { c with swapcounter := c.swapcounter + 1 })
      compactScattered d e
    else commitEntry d e

/-- The last lines of `ftl_allocate_log_entry`. -/
def openLogEntry (e block : Nat) : Op α (Option Nat) := do
  modify (State.modifyLog e LogEntry.init)
  modify fun s => s.modifyLog e fun x =>
    { x with logicalvblock := block, usn := s.cxt.nextblockusn - 1 }
  return some e

/-- The part of `ftl_allocate_log_entry` that takes a free slot and a block off the pool. -/
def openSlot (block : Nat) : Op α (Option Nat) := do
  let s ← get
  match (List.range 0x11).find? fun i => ¬ (s.log i).Used with
  | none => throw .overrun
  | some e =>
    let block' ← allocatePoolBlock d
    modify (State.modifyLog e fun x => { x with scatteredvblock := block'.getD 0xFFFF })
    match block' with
    | none => return none
    | some _ => openLogEntry e block

/-- `none` is the code's null pointer. -/
def allocateLogEntry (block : Nat) : Op α (Option Nat) := do
  let s ← get
  match s.getLogEntry block with
  | some e =>
    modify (State.modifyLog e fun x => { x with usn := s.cxt.nextblockusn - 1 })
    return some e
  | none =>
    match (List.range 0x11).find? fun i => (s.log i).Used ∧ (s.log i).pagesused = 0 with
    | some e => openLogEntry e block
    | none =>
      faultIf (s.cxt.freecount < 3) .panic
      let rc ← if s.cxt.freecount = 3 then removeScatteredBlock d none else pure 0
      if rc ≠ 0 then return none else openSlot d block

/-! ## Context and wear -/

/-- The turn for map page `i` of the second loop in `ftl_commit_cxt`. -/
def saveMapPage (i : Nat) : Op α (Option Nat) := do
  if (← nextCtrlPoolPage d) ≠ 0 then return some 1
  else
    let s ← get
    if (← vflWrite d s.cxt.ftlctrlpage 1 (fun _ => .map (s.mapPage i)) fun _ =>
        .meta s.cxt.usn i 0x44) ≠ 0 then
      return some 1
    else
      modify (State.modifyCxt fun c => { c with
        ftlMapPages := upd c.ftlMapPages i c.ftlctrlpage })
      return none

/-- The turn for erase counter page `i` of the first loop in `ftl_commit_cxt`. -/
def saveCtrPage (i : Nat) : Op α (Option Nat) := do
  if (← nextCtrlPoolPage d) ≠ 0 then return some 1
  else if (← saveErasectrPage d i) ≠ 0 then return some 1
  else return none

/-- The end of `ftl_commit_cxt`: the context itself. -/
def saveCxt : Op α Nat := do
  if (← nextCtrlPoolPage d) ≠ 0 then return 1
  else
    modify (State.modifyCxt fun c => { c with cleanFlag := 1 })
    let s ← get
    if (← vflWrite d s.cxt.ftlctrlpage 1 (fun _ => .cxt s.cxt) fun _ =>
        .meta s.cxt.usn 0xFFFF 0x43) ≠ 0 then
      return 1
    else return 0

def commitCxt : Op α Nat := do
  let s ← get
  let endpage := s.cxt.ftlctrlpage + d.mappages + d.ctrpages + 1
  if (s.cxt.ftlctrlpage / d.ppb + 1) * d.ppb ≤ endpage then
    set (s.modifyCxt fun c => { c with ftlctrlpage := c.ftlctrlpage ||| (d.ppb - 1) })
  match ← loopUntil d.ctrpages 0 (saveCtrPage d) with
  | some rc => return rc
  | none =>
    match ← loopUntil d.mappages 0 (saveMapPage d) with
    | some rc => return rc
    | none => saveCxt d

/-- The variables of `ftl_swap_blocks`. -/
structure Wear where
  min : Nat
  max : Nat
  maxidx : Nat
  minidx : Nat
  minvb : Nat
  maxvb : Nat

namespace State

/-- The first loop of `ftl_swap_blocks`, `n` turns of it. -/
def wearPool (s : State α) : Nat → Wear
  | 0 => ⟨0xFFFFFFFF, 0, 0x14, 0, 0, 0⟩
  | n + 1 =>
    let w := s.wearPool n
    let idx := s.cxt.poolIdx n
    if w.max < (s.erasectr (s.cxt.blockpool idx)).toNat then
      { w with maxidx := idx, maxvb := s.cxt.blockpool idx, max := (s.erasectr idx).toNat }
    else w

/-- The second loop of `ftl_swap_blocks`, `n` turns of it. -/
def wearMap (s : State α) (w₀ : Wear) : Nat → Wear
  | 0 => w₀
  | n + 1 =>
    let w := s.wearMap w₀ n
    let ctr := (s.erasectr (s.map n)).toNat
    let w := if w.max < ctr then { w with max := ctr } else w
    if s.getLogEntry n ≠ none then w
    else if ctr < w.min then
      { w with minidx := n, minvb := s.map n, min := (s.erasectr n).toNat }
    else w

end State

def swapBlocks : Op α Nat := do
  let s ← get
  let w := s.wearPool s.cxt.freecount
  if w.maxidx = 0x14 then return 0
  else
    let w := s.wearMap w d.type.userblocks
    if wrap (w.max + 2 ^ 32 - w.min) < 5 then return 0
    else if w.minvb = w.maxvb then return 0
    else if (← eraseBlock d w.maxvb) ≠ 0 then return 1
    else if (← copyBlock d w.minidx w.maxvb) ≠ 0 then return 1
    else
      modify (State.modifyCxt fun c => { c with blockpool := upd c.blockpool w.maxidx w.minvb })
      setMap d w.minidx w.maxvb
      return 0

/-! ## Writing -/

/-- The loop of `ftl_write` that marks the context dirty, with `n` tries left. -/
def markDirtyTries : Nat → Op α Int
  | 0 => return -4
  | n + 1 => do
    if (← nextCtrlPoolPage d) ≠ 0 then return -3
    else
      let s ← get
      if (← vflWrite d s.cxt.ftlctrlpage 1 (fun _ => .ones) fun _ =>
          .meta s.cxt.usn 0xFFFF 0x47) = 0 then
        modify (State.modifyCxt fun c => { c with cleanFlag := 0 })
        return 0
      else markDirtyTries n

def markDirty : Op α Int := do
  let s ← get
  if s.cxt.cleanFlag = 1 then markDirtyTries d 3 else return 0

/-- What a turn of the loop in `ftl_write` ends in: a return code, or the log entry at hand and
the number of sectors done. -/
inductive Turn
  | stop (code : Int)
  | next (logentry cnt : Nat)

/-- The arguments of `ftl_write`. -/
structure Request (α : Type) where
  sector : Nat
  count : Nat
  buffer : Nat → α

variable (w : Request α)

/-- The turn for the pages from `j` of the loop in `ftl_write` that fills a whole block. -/
def writeGroup (vblock i : Nat) (j : Nat) : Op α Unit := do
  let s ← get
  let data := fun k => Payload.sector (w.buffer (i + j + k))
  let spare := fun k =>
    Spare.user (w.sector + i + j + k) s.cxt.nextblockusn (if j = d.ppb - 1 then 0x41 else 0x40)
      0xFF
  let rc ← vflWrite d (vblock * d.ppb + j) writespareSize data spare
  loop d.banks fun k => do
    if rc.testBit k then
      let rc ← vflWrite d (vblock * d.ppb + j + k) 1 (fun _ => data k) fun _ => spare k
      -- the code repeats this write for as long as it fails
      faultIf (rc ≠ 0) .endless

/-- The branch of the loop in `ftl_write` for a whole block. -/
def writeWhole (e i : Nat) : Op α Turn := do
  let s ← get
  let block := wrap (w.sector + i) / d.ppb
  let entry := s.log e
  modify (State.modifyLog e fun x => { x with scatteredvblock := 0xFFFF })
  let vblock ←
    if entry.pagesused ≠ 0 then do
      releasePoolBlock d entry.scatteredvblock
      allocatePoolBlock d
    else pure (some entry.scatteredvblock)
  match vblock with
  | none => return .stop (-6)
  | some vblock =>
    modify (State.modifyCxt fun c => { c with nextblockusn := c.nextblockusn + 1 })
    loop ((d.ppb + writespareSize - 1) / writespareSize) fun t =>
      writeGroup d w vblock i (t * writespareSize)
    releasePoolBlock d (← mapAt d block)
    setMap d block vblock
    return .next e d.ppb

/-- The other branch: some pages of a block go to its log entry `e`, which is not full. -/
def writePages (e i : Nat) : Op α Turn := do
  let s ← get
  let page := wrap (w.sector + i) % d.ppb
  let entry := s.log e
  let cnt := min (min (min writespareSize (w.count - i)) (d.ppb - entry.pagesused)) (d.ppb - page)
  let usn := s.cxt.nextblockusn
  modify (State.modifyCxt fun c => { c with nextblockusn := usn + UInt32.ofNat cnt })
  modify (State.modifyLog e fun x => { x with pagesused := x.pagesused + cnt })
  let rc ← vflWrite d (entry.scatteredvblock * d.ppb + entry.pagesused) cnt
    (fun j => .sector (w.buffer (i + j))) fun j =>
      .user (w.sector + i + j) (usn + UInt32.ofNat (j + 1))
        (if entry.pagesused + j = d.ppb - 1 ∧ entry.issequential ≠ 0 then 0x41 else 0x40) 0xFF
  faultIf (rc ≠ 0) .panic
  loop cnt fun j => modify (State.modifyLog e (LogEntry.noteWritten page cnt j))
  return .next e cnt

/-- That branch with its first lines, which make room in a full log entry. -/
def writePart (e i : Nat) : Op α Turn := do
  let s ← get
  if (s.log e).pagesused = d.ppb then
    let _ ← removeScatteredBlock d (some e)
    match ← allocateLogEntry d (wrap (w.sector + i) / d.ppb) with
    | none => return .stop (-7)
    | some e => writePages d w e i
  else writePages d w e i

/-- One turn of the loop in `ftl_write`, for the sectors from the `i`-th. -/
def writeTurn (i : Nat) : Op α Turn := do
  match ← allocateLogEntry d (wrap (w.sector + i) / d.ppb) with
  | none => return .stop (-5)
  | some e =>
    let turn ←
      if wrap (w.sector + i) % d.ppb = 0 ∧ d.ppb ≤ w.count - i then writeWhole d w e i
      else writePart d w e i
    match turn with
    | .stop code => return .stop code
    | .next e cnt =>
      let s ← get
      if (s.log e).pagesused = d.ppb then
        let _ ← removeScatteredBlock d (some e)
      return .next e cnt

/-- The loop, with less than `n` turns to go. -/
def writeLoop : Nat → Nat → Op α Int
  | 0, _ => throw .endless
  | n + 1, i => do
    if w.count ≤ i then return 0
    else
      match ← writeTurn d w i with
      | .stop code => return code
      | .next _ cnt => writeLoop n (i + cnt)

/-- `for (i = 0; i < 4; i++) if (ftl_swap_blocks() == 0) break;`, with `n` tries left: whether
one of them returned 0. -/
def swapTries : Nat → Op α Bool
  | 0 => return false
  | n + 1 => do
    if (← swapBlocks d) = 0 then return true else swapTries n

/-- What `ftl_write` does after its loop: wear levelling, and erase counter pages that changed
often. -/
def writeEpilogue : Op α Unit := do
  let s ← get
  if 300 ≤ s.cxt.swapcounter.toNat then
    set (s.modifyCxt fun c => { c with swapcounter := c.swapcounter - 20 })
    let _ ← swapTries d 4
  let s ← get
  if s.cxt.erasedirty = 1 then
    set (s.modifyCxt fun c => { c with erasedirty := 0 })
    loop 8 fun i => do
      let s ← get
      if 100 ≤ s.erasectrDirt i then
        let _ ← nextCtrlPoolPage d
        let _ ← saveErasectrPage d i

def ftlWrite : Op α Int := do
  if d.sectors < wrap (w.sector + w.count) then return -2
  else if w.count = 0 then return 0
  else
    let code ← markDirty d
    if code ≠ 0 then return code
    else
      let code ← writeLoop d w (w.count + 1) 0
      if code ≠ 0 then return code
      else
        writeEpilogue d
        return 0

/-! ## Syncing -/

/-- The turn for log entry `i` of the loop in `ftl_sync`, with the return code so far. -/
def syncEntry (i rc : Nat) : Op α Nat := do
  let s ← get
  if ¬ (s.log i).Used then return rc
  else
    modify (State.modifyCxt fun c => { c with nextblockusn := c.nextblockusn + 1 })
    let r ← if (s.log i).issequential = 1 then commitSequential d i else commitScattered d i
    return rc ||| r

/-- The first `n` turns of that loop. -/
def syncEntries : Nat → Op α Nat
  | 0 => return 0
  | n + 1 => do
    let rc ← syncEntries n
    syncEntry d n rc

/-- The last loop of `ftl_sync`, with `n` tries left. -/
def syncTries : Nat → Op α Int
  | 0 => return -2
  | n + 1 => do
    if (← commitCxt d) = 0 then return 0
    else
      modify (State.modifyCxt fun c => { c with ftlctrlpage := c.ftlctrlpage ||| (d.ppb - 1) })
      syncTries n

def ftlSync : Op α Int := do
  let s ← get
  if s.cxt.cleanFlag = 1 then return 0
  else
    if 20 ≤ s.cxt.swapcounter.toNat then
      if (← swapTries d 4) then
        modify (State.modifyCxt fun c => { c with swapcounter := c.swapcounter - 20 })
    if (← syncEntries d 0x11) ≠ 0 then return -1 else syncTries d 5

/-! ## Mounting -/

/-- What is left when the power is off. -/
structure Flash (α : Type) where
  nand : Nat → Option (Page α)
  vflStored : Nat → VflCxt

def State.flash (s : State α) : Flash α := ⟨s.nand, s.vflStored⟩

/-- `ftl_vfl_get_newest_cxt`, `n` turns of its loop: `maxusn` and the context. -/
def newestCxt (vfl : Nat → VflCxt) : Nat → UInt32 × VflCxt
  | 0 => (0, vfl 0)
  | n + 1 =>
    let r := newestCxt vfl n
    if r.1 ≤ (vfl n).usn then ((vfl n).usn, vfl n) else r

/-- `ftl_vfl_open`: `ftl_vfl_usn` and the contexts, all with the newest one's control blocks. -/
def vflOpen (f : Flash α) : UInt32 × (Nat → VflCxt) :=
  let newest := newestCxt f.vflStored d.banks
  (newest.1, fun i => { f.vflStored i with ftlctrlblocks := newest.2.ftlctrlblocks })

/-- The first loop of `ftl_open`, `n` turns of it: `ftlcxtblock` and `minusn`. -/
def cxtBlock (nand : Nat → Option (Page α)) (ctrlblocks : Nat → Nat) : Nat → Option Nat × UInt32
  | 0 => (none, 0xFFFFFFFF)
  | i + 1 =>
    let r := cxtBlock nand ctrlblocks i
    let p := vflRead d nand (d.ppb * ctrlblocks i) 0
    if p.1 &&& 0x11F ≠ 0 then r
    else if 0x43 + 4 < p.2.2.type then r
    else if r.1 ≠ none ∧ r.2 ≤ p.2.2.metaUsn then r
    else (some (ctrlblocks i), p.2.2.metaUsn)

/-- The second loop of `ftl_open`, over the pages of `block` from `n` down to 1. -/
def findCxt (nand : Nat → Option (Page α)) (block : Nat) : Nat → Option Cxt
  | 0 => none
  | n + 1 =>
    let p := vflRead d nand (d.ppb * block + (n + 1)) 0
    if p.1 &&& 0x11F ≠ 0 then findCxt nand block n
    else if p.2.2.type = 0x43 then
      match p.2.1 with
      | .cxt c => some c
      | _ => none
    else none

/-- The pages `pages i` for `i` below `n`, if all can be read. -/
def loadPages {β : Type} (nand : Nat → Option (Page α)) (pages : Nat → Nat)
    (entries : Payload α → Option (List β)) (n : Nat) : Option (List (List β)) :=
  (List.range n).mapM fun i =>
    let p := vflRead d nand (pages i) 1
    if p.1 &&& 0x11F ≠ 0 then none else entries p.2.1

namespace Payload

def mapEntries : Payload α → Option (List Nat)
  | .map l => some l
  | _ => none

def erasectrEntries : Payload α → Option (List UInt16)
  | .erasectr l => some l
  | _ => none

end Payload

/-- Entry `i` of an array that was loaded in pages of 1024. -/
def entryAt {β : Type} (pages : List (List β)) (default : β) (i : Nat) : β :=
  (pages.getD (i / 1024) []).getD (i % 1024) default

def LogEntry.unused : LogEntry :=
  ⟨0, 0xFFFF, 0xFFFF, fun _ => 0, 0, 0, 0⟩

/-- `ftl_vfl_open` and `ftl_open` after power on; `none` if the FTL cannot be mounted. -/
def mount (f : Flash α) : Option (State α) := do
  let vfl := vflOpen d f
  let ctrlblocks := (newestCxt vfl.2 d.banks).2.ftlctrlblocks
  let block ← (cxtBlock d f.nand ctrlblocks 3).1
  let cxt ← findCxt d f.nand block (d.ppb - 1)
  let map ← loadPages d f.nand cxt.ftlMapPages Payload.mapEntries d.mapPagestoread
  let ctr ← loadPages d f.nand cxt.ftlErasectrPages Payload.erasectrEntries d.ctrPagestoread
  return {
    cxt
    map := fun i => if i < d.type.userblocks then entryAt map 0 i else 0
    erasectr := fun i => if i < d.vblocks then entryAt ctr 0 i else 0
    erasectrDirt := fun _ => 0
    log := fun _ => LogEntry.unused
    vflUsn := vfl.1
    vflCxt := vfl.2
    nand := f.nand
    vflStored := f.vflStored }

end Ftl
end Freemyipod
