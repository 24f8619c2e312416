import Mathlib
import Freemyipod.Lib.Effect

/-!
# Bbt.Model

The bad block table of the iPod classic: `tools/genbbt.c` makes it, `ata_bbt_translate` of
`target/ipodclassic/storage_ata.c` reads it.

The table has four levels of 16-bit cells. The cells of level 0 come in pairs, for 0x8000 sectors
each; a cell of level `k + 1` is for a 32nd of what a cell of level `k` is for. A cell below 0x8000
is the distance from the virtual to the physical sector, less the second cell of the level 0 pair
times 0x1000. Any other cell names the page of the next level.

`bbt[64 + p][i]` of the generator and `ata_bbt[p][i]` of the firmware are the cell `32 * p + i`.
-/

namespace Freemyipod
namespace Bbt

/-- How many sectors a cell of this level is for. -/
def span (level : Nat) : Nat := 2 ^ (15 - 5 * level)

/-! ## The generator -/

/-- How the generator ends if it does not write a table. -/
inductive Exit
  /-- It accesses memory that it does not have. -/
  | fault
  /-- `return 5` -/
  | tooFar
  /-- `return 1` -/
  | tooLarge
  /-- The table needs more pages: not an end, but a reason to try again. -/
  | full
  deriving DecidableEq

structure Bitmap where
  words : Nat
  word : Nat → BitVec 32

/-- `memset(bitmap, 0xff, bitmapsize)` -/
def Bitmap.filled (words : Nat) : Bitmap := ⟨words, fun _ => BitVec.allOnes 32⟩

def markBad (bitmap : Bitmap) (sector : Int) : Except Exit Bitmap :=
  if 0 ≤ sector ∧ sector < 32 * bitmap.words then
    let i := sector.toNat / 32
    .ok { bitmap with
      word := Function.update bitmap.word i
        (bitmap.word i &&& ~~~(1#32 <<< (sector.toNat % 32))) }
  else .error .fault

def isGood (bitmap : Bitmap) (sector : Nat) : Bool :=
  bitmap.word (sector / 32) &&& (1#32 <<< (sector % 32)) ≠ 0

/-- The lines of the input file. -/
def readBad : Bitmap → List Int → Except Exit Bitmap
  | bitmap, [] => .ok bitmap
  | bitmap, sector :: bad =>
    if sector ≠ 0 then (markBad bitmap sector).bind fun bitmap => readBad bitmap bad
    else readBad bitmap bad

/-- The good sectors that the table itself takes, and the sector after them: `n` sectors are left
in the bitmap from `physical` on. -/
def reserve (bitmap : Bitmap) (wanted : Nat) : Nat → Nat → List Nat → Except Exit (Nat × List Nat)
  | 0, physical, taken =>
    if taken.length < wanted then .error .fault else .ok (physical, taken)
  | n + 1, physical, taken =>
    if taken.length < wanted then
      if isGood bitmap physical then reserve bitmap wanted n (physical + 1) (taken ++ [physical])
      else reserve bitmap wanted n (physical + 1) taken
    else .ok (physical, taken)

/-- How many of the next `n` sectors come before the first bad one and the end of the disk. -/
@[grind =] def cleanRun (bitmap : Bitmap) (sectors physical : Nat) : Nat → Nat
  | 0 => 0
  | n + 1 =>
    if physical < sectors ∧ isGood bitmap physical then
      cleanRun bitmap sectors (physical + 1) n + 1
    else 0

structure Gen where
  cells : Nat → Nat
  bbtused : Nat
  logical : Nat
  /-- Never below `logical`. -/
  physical : Nat
  remapbase : Nat
  /-- `l1`, `l2` and `l3` -/
  page : Nat → Nat

/-- The level that `logical` starts a cell of. -/
def level (logical : Nat) : Nat :=
  if logical % 0x8000 = 0 then 0
  else if logical % 0x400 = 0 then 1
  else if logical % 0x20 = 0 then 2
  else 3

namespace Gen

variable (bbtpages : Nat) (g : Gen)

/-- The cell for `logical` in the table of this level. -/
def cell (k : Nat) : Nat :=
  if k = 0 then 2 * (g.logical / span 0)
  else 32 * (g.page k - 64) + g.logical / span k % 32

/-- An assignment to a 16-bit cell. -/
def store (i v : Nat) : Except Exit Gen :=
  if i < 32 * (bbtpages - 64) then
    .ok { g with cells := Function.update g.cells i (v % 0x10000) }
  else .error .fault

/-- `v` becomes the cell for `logical`; with a cell of level 0 goes the remap base. -/
def storeCell (k v : Nat) : Except Exit Gen :=
  (g.store bbtpages (g.cell k) v).bind fun g =>
    if k = 0 then g.store bbtpages (g.cell 0 + 1) (g.remapbase / 0x1000) else .ok g

/-- A new page for level `k + 1`. -/
def openPage (k : Nat) : Except Exit Gen :=
  if g.bbtused = bbtpages then .error .full
  else
    (g.storeCell bbtpages k (0x8000 ||| (g.bbtused - 64))).map fun g =>
      { g with page := Function.update g.page (k + 1) g.bbtused, bbtused := g.bbtused + 1 }

/-- New pages for the levels after `start`, up to `k`. -/
def openPages (start : Nat) : Nat → Gen → Except Exit Gen
  | 0, g => .ok g
  | k + 1, g =>
    if start ≤ k then (openPages start k g).bind fun g => g.openPage bbtpages k
    else .ok g

/-- The next `span k` sectors are all good. -/
def leaf (k : Nat) : Except Exit Gen :=
  (g.storeCell bbtpages k (g.physical - g.logical - g.remapbase)).map fun g =>
    { g with physical := g.physical + span k, logical := g.logical + span k }

end Gen

/-- The body of the loop over the sectors. -/
def turn (bitmap : Bitmap) (sectors bbtpages : Nat) (g : Gen) : Except Exit Gen :=
  let start := level g.logical
  let g : Gen :=
    if start = 0 then { g with remapbase := (g.physical - g.logical) / 0x1000 * 0x1000 } else g
  if 0x7fff < g.physical - g.logical - g.remapbase ∨ 0xffff < g.remapbase then .error .tooFar
  else
    let clean := cleanRun bitmap sectors g.physical (span start)
    if 32768 ≤ clean then g.leaf bbtpages 0
    else if 1024 ≤ clean then (g.openPages bbtpages start 1).bind fun g => g.leaf bbtpages 1
    else if 32 ≤ clean then (g.openPages bbtpages start 2).bind fun g => g.leaf bbtpages 2
    else if 1 ≤ clean then (g.openPages bbtpages start 3).bind fun g => g.leaf bbtpages 3
    else .ok { g with physical := g.physical + 1 }

/-- The loop over the sectors; at least one turn, and `n` at most. -/
def fill (bitmap : Bitmap) (sectors bbtpages : Nat) : Nat → Gen → Except Exit Gen
  | 0, _ => .error .fault
  | n + 1, g =>
    (turn bitmap sectors bbtpages g).bind fun g =>
      if sectors ≤ g.physical then .ok g else fill bitmap sectors bbtpages n g

/-- What the generator writes: the header, and the cells of all pages after it. -/
structure Table where
  /-- Word 0x1fc. -/
  virtualSectors : Nat
  /-- The words from 0x200 on, as many as word 0x1ff says. -/
  physicals : List Nat
  cells : Nat → Nat

/-- One attempt, with a table of `bbtpages` pages. -/
def attempt (bitmap : Bitmap) (sectors bbtpages : Nat) : Except Exit Table :=
  let bbtsize := bbtpages * 64
  let l0count := (sectors + 0xfffff - (bbtsize + 0xfff) / 0x1000) / 0x80000
  (reserve bitmap (bbtpages / 64 - 1) (32 * bitmap.words) 1 []).bind fun r =>
    (fill bitmap sectors bbtpages (sectors + 1) ⟨fun _ => 0, 64 + l0count, 0, r.1, 0, fun _ => 0⟩).map
      fun g => ⟨g.logical, r.2, g.cells⟩

/-- `while (bbtpages <= 32832)`: after `n` turns there is no other. -/
def attempts (bitmap : Bitmap) (sectors : Nat) : Nat → Nat → Except Exit Table
  | 0, _ => .error .tooLarge
  | n + 1, bbtpages =>
    if bbtpages ≤ 32832 then
      match attempt bitmap sectors bbtpages with
      | .error .full => attempts bitmap sectors n (bbtpages + 64)
      | r => r
    else .error .tooLarge

/-- `main`: `sectors` from the command line, `bad` from the input file. -/
def genbbt (sectors : Nat) (bad : List Int) : Except Exit Table :=
  if 2 ^ 31 ≤ sectors + 0xfffff then .error .fault -- `int` overflows
  else
    (readBad (.filled ((sectors + 65535) / 0x10000 * 0x10000 / 32)) bad).bind fun bitmap =>
      let l0count := (sectors + 0xfffff) / 0x80000
      attempts bitmap sectors 514 (64 + (l0count + 0x3f) / 0x40 * 0x40)

/-! ## The translator -/

namespace Table

variable (t : Table)

/-- `ata_bbt[page][i]`, from the sectors that the header lists. -/
def read (page i : Nat) : Option Nat :=
  if 32 * page + i < 2048 * t.physicals.length then some (t.cells (32 * page + i)) else none

/-- The length of the run of equal cells from `l3idx + n` on, `k` turns left. -/
@[grind =] def sameRun (page l3idx l3data : Nat) : Nat → Nat → Option Nat
  | 0, n => some n
  | k + 1, n =>
    if l3idx + n < 0x20 then
      (t.read page (l3idx + n)).bind fun v =>
        if v ≠ l3data then some n else sameRun page l3idx l3data k (n + 1)
    else some n

end Table

/-- `ata_bbt_translate` with the table `t` loaded: `phys` and `physcount`. -/
def ataBbtTranslate (t : Table) (sector count : Nat) : Option (Nat × Nat) := do
  if t.virtualSectors < sector + count then none
  else if count = 0 then some (0, 0)
  else
    let l0idx := sector / 0x8000
    let l0data ← t.read 0 (2 * l0idx)
    let base := (← t.read 0 (2 * l0idx + 1)) * 0x1000
    if l0data < 0x8000 then some (sector + (l0data + base), min count (0x8000 - sector % 0x8000))
    else
      let l1data ← t.read (l0data % 0x8000) (sector / 0x400 % 0x20)
      if l1data < 0x8000 then some (sector + (l1data + base), min count (0x400 - sector % 0x400))
      else
        let l2data ← t.read (l1data % 0x8000) (sector / 0x20 % 0x20)
        if l2data < 0x8000 then some (sector + (l2data + base), min count (0x20 - sector % 0x20))
        else
          let l3idx := sector % 0x20
          let l3data ← t.read (l2data % 0x8000) l3idx
          let physcount ← t.sameRun (l2data % 0x8000) l3idx l3data (count - 1) 1
          some (sector + (l3data + base), physcount)

end Bbt
end Freemyipod
