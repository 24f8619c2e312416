import Mathlib.Logic.Function.Basic
import Freemyipod.Lib.Runs

/-!
# Vfl.Model

The VFL contexts of the nano 2G: how `ftl.c` stores them to flash and finds them again.

A bank keeps its context in memory and in up to four context blocks of its flash. A commit writes
eight copies of it into the next group of eight pages of the active block, or starts another
block. Mounting looks the context up: the block whose first group has the lowest update counter,
and in it the last group before one that cannot be read.

* `Cxt`: a `struct ftl_vfl_cxt_type` as its halfwords, so that the checksums, the comparison and
  the copies of parts of it are over the same memory as in the source.
* `Cell`: what a page of the flash holds. A failed program leaves it unreadable; an erase that
  fails may leave any pages of the block as they were.
* `Luck`: which programs and erases of one commit succeed.
* `State`, `step`: all banks with their contexts, commits on them, and changes of a context in
  memory between commits.
-/

namespace Freemyipod.Vfl

/-! ## The context -/

/-- A `struct ftl_vfl_cxt_type`, halfword by halfword. -/
abbrev Cxt := Nat → BitVec 16

namespace Cxt

variable (c : Cxt)

def word (i : Nat) : BitVec 32 := c (2 * i + 1) ++ c (2 * i)

def setWord (i : Nat) (w : BitVec 32) : Cxt :=
  Function.update (Function.update c (2 * i) (w.extractLsb' 0 16)) (2 * i + 1)
    (w.extractLsb' 16 16)

def usn : BitVec 32 := c.word 0
def ftlctrlblocks (i : Nat) : BitVec 16 := c (2 + i)
def updatecount : BitVec 32 := c.word 3
def activecxtblock : BitVec 16 := c 8
def nextcxtpage : BitVec 16 := c 9
def vflcxtblocks (i : Nat) : BitVec 16 := c (0x3d1 + i)
def checksum1 : BitVec 32 := c.word 0x1fe
def checksum2 : BitVec 32 := c.word 0x1ff

@[grind =] def setUsn (v : BitVec 32) : Cxt := c.setWord 0 v
@[grind =] def setUpdatecount (v : BitVec 32) : Cxt := c.setWord 3 v
def setActivecxtblock (v : BitVec 16) : Cxt := Function.update c 8 v
@[grind =] def setNextcxtpage (v : BitVec 16) : Cxt := Function.update c 9 v
def setChecksum1 (v : BitVec 32) : Cxt := c.setWord 0x1fe v
def setChecksum2 (v : BitVec 32) : Cxt := c.setWord 0x1ff v

/-- The context with the three `ftlctrlblocks` of `d`. -/
def copyFtlctrlblocks (d : Cxt) : Cxt := fun i => if 2 ≤ i ∧ i < 5 then d i else c i

/-- `ftl_vfl_calculate_checksum`. -/
def calculateChecksum : BitVec 32 × BitVec 32 :=
  (List.range 0x1fe).foldl (fun s i => (s.1 + c.word i, s.2 ^^^ c.word i))
    (0xAABBCCDD, 0xAABBCCDD)

/-- `ftl_vfl_verify_checksum`, true for its 0. -/
def verifyChecksum : Bool :=
  let sum := c.calculateChecksum
  if sum.1 == c.checksum1 then true
  -- the comparison is the wrong way round here, as in Whimory
  else if sum.2 != c.checksum2 then true
  else false

/-- `ftl_vfl_update_checksum`. -/
def updateChecksum : Cxt :=
  let sum := c.calculateChecksum
  (c.setChecksum1 sum.1).setChecksum2 sum.2

/-- `memcmp(a, b, 0x7AC) == 0`. -/
def memcmp (d : Cxt) : Bool := (List.range 0x3d6).all fun i => c i == d i

end Cxt

/-! ## The flash -/

/-- The fields of `ftl_spare_data_meta_type` that the VFL uses. -/
structure Spare where
  usn : BitVec 32
  field_8 : BitVec 8
  type : BitVec 8
deriving DecidableEq

inductive Cell where
  | erased
  | unreadable
  | page (data : Cxt) (spare : Spare)

/-- The pages of one bank. -/
abbrev Flash := Nat → Cell

/-- `nand_read_page`, when the bits `0x11F` of its result are clear. -/
def Cell.read : Cell → Option (Cxt × Spare)
  | .page data spare => some (data, spare)
  | .erased => none
  | .unreadable => none

/-- Programming a page. One that was programmed before cannot be programmed again. -/
def Cell.program (data : Cxt) (spare : Spare) (succeeds : Bool) : Cell → Cell
  | .erased => if succeeds then .page data spare else .unreadable
  | .unreadable => .unreadable
  | .page _ _ => .unreadable

/-- `nand_write_page`. -/
def nandWritePage (flash : Flash) (page : Nat) (data : Cxt) (spare : Spare) (succeeds : Bool) :
    Flash :=
  Function.update flash page ((flash page).program data spare succeeds)

/-- `nand_block_erase` of the block that `page` lies in, when it succeeds. -/
def nandBlockErase (pagesperblock : Nat) (flash : Flash) (page : Nat) : Flash :=
  fun p => if p / pagesperblock = page / pagesperblock then .erased else flash p

/-- The same when it fails: some pages of the block stay readable. -/
def nandBlockEraseFailed (pagesperblock : Nat) (flash : Flash) (page : Nat)
    (survives : Nat → Bool) : Flash :=
  fun p =>
    if p / pagesperblock = page / pagesperblock && !survives p then .unreadable else flash p

/-! ## Committing a context -/

/-- What a commit works on: the bank's flash and context, and the usn that all banks share. -/
structure Bank where
  flash : Flash
  cxt : Cxt
  usn : BitVec 32

/-- Which operations of a commit succeed: the program of copy `k` into context block `i`, the
`j`-th erase of context block `i`; and the pages that survive that erase when it fails. -/
structure Luck where
  programs : Nat → Nat → Bool
  erases : Nat → Nat → Bool
  survives : Nat → Nat → Nat → Bool

section Store

variable (pagesperblock : Nat)

/-- The page of the `i`-th copy, counted from the end of the group. -/
def copyPage (c : Cxt) (i : Nat) : Nat :=
  (c.vflcxtblocks c.activecxtblock.toNat).toNat * pagesperblock + (c.nextcxtpage.toNat - i)

def storeSpare (c : Cxt) : Spare where
  usn := c.updatecount
  field_8 := 0
  type := 0x80

def writeCopies (c : Cxt) (programs : Nat → Bool) : List Nat → Flash → Flash
  | [], flash => flash
  | i :: is, flash =>
    writeCopies c programs is
      (nandWritePage flash (copyPage pagesperblock c i) c (storeSpare c) (programs i))

/-- The `i`-th copy reads back as it was written. -/
def goodCopy (flash : Flash) (c : Cxt) (i : Nat) : Bool :=
  match (flash (copyPage pagesperblock c i)).read with
  | none => false
  | some (data, spare) =>
    data.memcmp c && spare.usn == c.updatecount && spare.field_8 == 0 && spare.type == 0x80

/-- The context as `ftl_vfl_store_cxt` writes it. -/
@[grind =] def Bank.advance (b : Bank) : Bank :=
  let cxt := b.cxt.setUpdatecount (b.cxt.updatecount - 1)
  let cxt := cxt.setUsn (b.usn + 1)
  let cxt := cxt.setNextcxtpage (cxt.nextcxtpage + 8)
  { b with cxt := cxt.updateChecksum, usn := b.usn + 1 }

def ftlVflStoreCxt (programs : Nat → Bool) (b : Bank) : Bank × Nat :=
  let b := b.advance
  let flash := writeCopies pagesperblock b.cxt programs (List.range' 1 8) b.flash
  let good := ((List.range' 1 8).filter (goodCopy pagesperblock flash b.cxt)).length
  ({ b with flash := flash }, if 3 < good then 0 else 1)

/-- `for (j = 0; j < 4; j++) if (nand_block_erase(..) == 0) break;` for context block `i`, and
whether an erase succeeded. -/
def eraseTries (luck : Luck) (i page : Nat) : List Nat → Flash → Flash × Bool
  | [], flash => (flash, false)
  | j :: js, flash =>
    if luck.erases i j then (nandBlockErase pagesperblock flash page, true)
    else eraseTries luck i page js
      (nandBlockEraseFailed pagesperblock flash page (luck.survives i j))

/-- The loop of `ftl_vfl_commit_cxt` over the other context blocks; `none` when none of them takes
the context, and the thread is killed. -/
def commitLoop (luck : Luck) (current : Nat) : Nat → Nat → Bank → Option Bank
  | 0, _, _ => none
  | rounds + 1, i, b =>
    let i := (i + 1) &&& 3
    if i = current then none
    else if b.cxt.vflcxtblocks i = 0xFFFF then commitLoop luck current rounds i b
    else
      let (flash, erased) := eraseTries pagesperblock luck i
        ((b.cxt.vflcxtblocks i).toNat * pagesperblock) (List.range 4) b.flash
      if !erased then commitLoop luck current rounds i { b with flash := flash }
      else
        let cxt := (b.cxt.setActivecxtblock (BitVec.ofNat 16 i)).setNextcxtpage 0
        let (b, rc) := ftlVflStoreCxt pagesperblock (luck.programs i)
          { b with flash := flash, cxt := cxt }
        if rc = 0 then some b else commitLoop luck current rounds i b

/-- `ftl_vfl_commit_cxt`: the bank after it returned 0, or `none` when it panicked. The loop ends
after four rounds at most, where it is back at the current block. -/
def ftlVflCommitCxt (luck : Luck) (b : Bank) : Option Bank :=
  let (b, rc) :=
    if b.cxt.nextcxtpage.toNat + 8 ≤ pagesperblock then
      ftlVflStoreCxt pagesperblock (luck.programs b.cxt.activecxtblock.toNat) b
    else (b, 1)
  if rc = 0 then some b
  else commitLoop pagesperblock luck b.cxt.activecxtblock.toNat 4 b.cxt.activecxtblock.toNat b

end Store

/-! ## Mounting -/

/-- What does not change while the device runs: its size, and what `ftl_load_bbt` reads of each
bank. -/
structure Device where
  banks : Nat
  /-- 0x40 or 0x80 in the device table of `nand.c`: a whole number of groups, in an `uint16_t`. -/
  pagesperblock : Nat
  eight_le : 8 ≤ pagesperblock
  eight_dvd : 8 ∣ pagesperblock
  pagesperblock_lt : pagesperblock < 0x10000
  syshyperblocks : Nat
  bbt : Nat → Option (Nat → BitVec 8)

def Spare.isVfl (m : Spare) : Bool := m.field_8 == 0 && m.type == 0x80

/-- `ftl_vfl_read_page`: the first of eight pages that can be read and holds a VFL context. -/
def ftlVflReadPage (pagesperblock : Nat) (flash : Flash) (block startpage : Nat) :
    Option (Cxt × Spare) :=
  (List.range 8).findSome? fun i =>
    (flash (block * pagesperblock + startpage + i)).read.filter fun r => r.2.isVfl

def ftlIsGoodBlock (bbt : Nat → BitVec 8) (block : Nat) : Bool :=
  bbt (block >>> 3) &&& (1 <<< (block &&& 7)) != 0

/-- The loop over the context blocks: the lowest usn above 0, and the last index that has it. -/
def lowestUsn (candidate : Nat → Option (BitVec 32)) :
    List Nat → BitVec 32 × Nat → BitVec 32 × Nat
  | [], best => best
  | k :: ks, (minusn, vflcxtidx) =>
    lowestUsn candidate ks <|
      match candidate k with
      | some usn => if 0 < usn ∧ usn ≤ minusn then (usn, k) else (minusn, vflcxtidx)
      | none => (minusn, vflcxtidx)

/-- The loop over the later groups of the chosen block. -/
def lastGroup (readable : Nat → Bool) : List Nat → Nat → Nat
  | [], last => last
  | k :: ks, last => if readable k then lastGroup readable ks k else last

/-- What the mount does to one bank. -/
inductive Opened where
  /-- `ftl_vfl_open` returns 1, or panics. -/
  | failed
  /-- No context was found, and the bank's memory is left alone. -/
  | untouched
  | loaded (cxt : Cxt)

namespace Device

variable (d : Device)

/-- The usn of the first group of a listed context block. -/
def candidate (flash : Flash) (list : Nat → BitVec 16) (k : Nat) : Option (BitVec 32) :=
  if list k = 0xFFFF then none
  else (ftlVflReadPage d.pagesperblock flash (list k).toNat 0).map fun r => r.2.usn

/-- The context that the bank's context blocks `list` hold. -/
def loadFrom (flash : Flash) (list : Nat → BitVec 16) : Opened :=
  let (_, vflcxtidx) := lowestUsn (d.candidate flash list) (List.range 4) (0xFFFFFFFF, 4)
  if vflcxtidx = 4 then .failed
  else
    let read := ftlVflReadPage d.pagesperblock flash (list vflcxtidx).toNat
    let last := lastGroup (fun k => (read k).isSome)
      (List.range' 8 ((d.pagesperblock - 1) / 8) 8) 0
    match read last with
    | none => .failed
    | some (cxt, _) => if cxt.verifyChecksum then .loaded cxt else .failed

/-- The first context found in the system blocks, which tells the context blocks. -/
def findList (flash : Flash) (bbt : Nat → BitVec 8) : Option Cxt :=
  (List.range' 1 d.syshyperblocks).findSome? fun j =>
    if ftlIsGoodBlock bbt j then (ftlVflReadPage d.pagesperblock flash j 0).map fun r => r.1
    else none

/-- The body of the loop of `ftl_vfl_open` over the banks. -/
def openBank (flash : Nat → Flash) (i : Nat) : Opened :=
  match d.bbt i with
  | none => .failed
  | some bbt =>
    match d.findList (flash i) bbt with
    | none => .untouched
    | some cxt => d.loadFrom (flash i) cxt.vflcxtblocks

end Device

/-! ## All banks -/

structure State where
  flash : Nat → Flash
  cxt : Nat → Cxt
  /-- `ftl_vfl_usn`. -/
  usn : BitVec 32

/-- `ftl_vfl_get_newest_cxt`, as the bank it is of. -/
def newestCxt (cxt : Nat → Cxt) : List Nat → Nat × BitVec 32 → Nat × BitVec 32
  | [], best => best
  | i :: is, best =>
    newestCxt cxt is (if best.2 ≤ (cxt i).usn then (i, (cxt i).usn) else best)

namespace Device

variable (d : Device)

def openBanks : List Nat → State → Option State
  | [], s => some s
  | i :: is, s =>
    match d.openBank s.flash i with
    | .failed => none
    | .untouched => openBanks is s
    | .loaded cxt =>
      openBanks is { s with
        cxt := Function.update s.cxt i cxt
        usn := if s.usn < cxt.usn then cxt.usn else s.usn }

def newest (cxt : Nat → Cxt) : Nat := (newestCxt cxt (List.range d.banks) (0, 0)).1

/-- `ftl_vfl_open`, when it returns 0. -/
def ftlVflOpen (s : State) : Option State :=
  (d.openBanks (List.range d.banks) { s with usn := 0 }).map fun s =>
    { s with cxt := fun i =>
        if i < d.banks then (s.cxt i).copyFtlctrlblocks (s.cxt (d.newest s.cxt)) else s.cxt i }

end Device

/-! ## Runs -/

/-- What happens between two mounts. -/
inductive Action where
  | commit (bank : Nat) (luck : Luck)
  /-- The FTL changes a context in memory. -/
  | edit (bank : Nat) (cxt : Cxt)

def Action.bank : Action → Nat
  | .commit bank _ => bank
  | .edit bank _ => bank

def State.bank (s : State) (i : Nat) : Bank where
  flash := s.flash i
  cxt := s.cxt i
  usn := s.usn

def State.setBank (s : State) (i : Nat) (b : Bank) : State where
  flash := Function.update s.flash i b.flash
  cxt := Function.update s.cxt i b.cxt
  usn := b.usn

/-- One action. A commit that fails kills the thread with `ftl_initialized` cleared, so nothing
comes after it. -/
def Device.step (d : Device) (s : State) : Action → Option (State × Unit)
  | .commit i luck =>
    (ftlVflCommitCxt d.pagesperblock luck (s.bank i)).map fun b => (s.setBank i b, ())
  | .edit i cxt => some ({ s with cxt := Function.update s.cxt i cxt }, ())

end Freemyipod.Vfl
