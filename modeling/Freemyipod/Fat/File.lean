import Freemyipod.Fat.Table
import Freemyipod.Lib.Effect

/-!
# Fat.File

`struct fat_file` and the functions of `fat.c` that move along a cluster chain: `fat_readwrite`,
`fat_seek`, `fat_truncate`.

A `long` is an `Int`; where the source computes with `unsigned long`s the value is brought back to
32 bits. What the storage holds is not modelled, only which sectors are transferred, and from or to
which sector of the caller's buffer. FAT sectors can be read and written; the storage says of each
transfer whether it worked.
-/

namespace Freemyipod
namespace Fat

open Effect

/-- `struct bpb`, as far as the data area and the root directory of a FAT16 volume go. -/
structure Geometry extends Bpb where
  secperclus : Nat
  firstdatasector : Nat
  rootdirsector : Nat
  rootdiroffset : Nat
  totalsectors : Nat

/-- Conversion to `long`. -/
def long (x : Int) : Int := x.bmod (2 ^ 32)

/-- Conversion to `unsigned long`. -/
def unsigned (x : Int) : Nat := (x % 2 ^ 32).toNat

/-- `struct fat_file` -/
structure FatFile where
  firstcluster : Int
  lastcluster : Int
  lastsector : Int
  clusternum : Int
  sectornum : Int
  eof : Bool
  deriving DecidableEq

/-- A call of the storage driver: `count` sectors from sector `start` of the volume on, from or to
sector `buf` of the caller's buffer. -/
structure Transfer where
  start : Int
  count : Int
  buf : Int
  write : Bool
  deriving DecidableEq

inductive Panic
  | badUpdate
  | beforeData
  | afterData
  deriving DecidableEq

/-- The FAT, one open file, and the transfers made so far. -/
structure Access where
  table : Table
  file : FatFile
  transfers : List Transfer

abbrev Prog := StateT Access (Except Panic)

variable (g : Geometry) (rc : Nat → Int)

namespace Geometry

/-- `cluster2sec` -/
def cluster2sec (cluster : Int) : Int :=
  let zerocluster := if cluster < 0 then 0 else 2
  if long (g.dataclusters + 1) < cluster then -1
  else long ((cluster - zerocluster) * g.secperclus + g.firstdatasector)

/-- `get_next_cluster` -/
def getNextCluster (t : Table) (cluster : Int) : Int :=
  if g.isFat16 ∧ cluster < 0 then cluster + 1
  else Fat.getNextCluster g.toBpb t (unsigned cluster)

end Geometry

/-- `update_fat_entry` on sectors that can be written. -/
def update (entry val : Nat) : Prog Unit := do
  let s ← get
  match updateFatEntry g.toBpb s.table true entry val with
  | .panic => throw .badUpdate
  | .failed => pure ()
  | .stored t => set { s with table := t }

/-- `find_free_cluster` on sectors that can be read. -/
def findFree (startcluster : Nat) : Prog Nat := do
  let s ← get
  let r := findFreeCluster g.toBpb s.table (fun _ => true) startcluster
  set { s with table := r.2 }
  pure r.1

/-- The end of `next_write_cluster`: the cluster and its sector. -/
def foundCluster (cluster : Int) : Option (Int × Int) :=
  if g.cluster2sec cluster < 0 then none else some (cluster, g.cluster2sec cluster)

/-- `next_write_cluster` -/
def nextWriteCluster (oldcluster : Int) : Prog (Option (Int × Int)) := do
  let s ← get
  let cluster := if oldcluster ≠ 0 then g.getNextCluster s.table oldcluster else 0
  if cluster ≠ 0 then pure (foundCluster g cluster)
  else if oldcluster < 0 then pure none -- pseudo-cluster of the root directory
  else
    let c ← findFree g (if 0 < oldcluster then unsigned (oldcluster + 1) else s.table.nextfree)
    if c = 0 then pure none -- the disk is full
    else
      if oldcluster ≠ 0 then update g (unsigned oldcluster) c
      else modify fun s => { s with file := { s.file with firstcluster := c } }
      update g c 0x0ffffff8
      pure (foundCluster g c)

/-- `transfer` -/
def transfer (start count buf : Int) (write : Bool) : Prog Int := do
  let firstallowed := if g.isFat16 then g.rootdirsector else g.firstdatasector
  if write = true ∧ unsigned start < firstallowed then throw .beforeData
  else if write = true ∧ g.totalsectors < unsigned (start + count) then throw .afterData
  else
    let s ← get
    let t : Transfer := { start, count, buf, write }
    set { s with transfers := s.transfers ++ [t] }
    pure (if rc s.transfers.length < 0 then rc s.transfers.length else 0)

/-! ## `fat_readwrite` -/

/-- The local variables of `fat_readwrite`. -/
structure Cursor where
  cluster : Int
  sector : Int
  clusternum : Int
  numsec : Int
  eof : Bool
  first : Int
  last : Int
  buf : Int

def FatFile.cursor (f : FatFile) : Cursor where
  cluster := f.lastcluster
  sector := f.lastsector
  clusternum := f.clusternum
  numsec := f.sectornum
  eof := f.eof
  first := 0
  last := 0
  buf := 0

/-- The first half of a turn of the loop. -/
inductive Advanced
  | there (c : Cursor)
  /-- There is no cluster to write to: `break`. -/
  | full (c : Cursor)

/-- To the next sector of the file. -/
def advance (write : Bool) (c : Cursor) : Prog Advanced := do
  let s ← get
  let numsec := c.numsec + 1
  if g.secperclus < numsec ∨ c.cluster = 0 then
    if write then
      match ← nextWriteCluster g c.cluster with
      | some (cluster, sector) =>
        pure (.there { c with cluster, sector, clusternum := c.clusternum + 1, numsec := 1,
                              eof := false })
      | none => pure (.full { c with numsec, eof := true })
    else
      let cluster := g.getNextCluster s.table c.cluster
      pure (.there { c with cluster, sector := g.cluster2sec cluster,
                            clusternum := c.clusternum + 1, numsec := 1, eof := cluster = 0 })
  else if c.sector ≠ 0 then pure (.there { c with sector := c.sector + 1, numsec })
  else
    -- the first sector of the file
    let rootdiroffset : Int := if s.file.firstcluster < 0 then g.rootdiroffset else 0
    pure (.there { c with sector := g.cluster2sec s.file.firstcluster + rootdiroffset,
                          numsec := 1 + rootdiroffset })

/-- The second half of a turn. -/
inductive Moved
  | ok (c : Cursor)
  | failed (rc : Int)

/-- Transfer the run of sectors before this one, if it does not go on here. -/
def moveRun (write : Bool) (c : Cursor) : Prog Moved := do
  let c := if c.first = 0 then { c with first := c.sector } else c
  if c.sector ≠ c.first ∧ c.sector ≠ c.last + 1 ∨ c.last - c.first + 1 = 256 then
    let count := c.last - c.first + 1
    let r ← transfer g rc c.first count c.buf write
    if r < 0 then pure (.failed (r * 10 - 1))
    else pure (.ok { c with buf := c.buf + count, first := c.sector })
  else pure (.ok c)

/-- Transfer the run that ends with the last sector requested. -/
def moveLast (write : Bool) (lastTurn : Bool) (c : Cursor) : Prog Moved := do
  if lastTurn = true ∧ c.eof = false then
    let r ← transfer g rc c.first (c.sector - c.first + 1) c.buf write
    if r < 0 then pure (.failed (r * 10 - 2))
    else pure (.ok { c with last := c.sector })
  else pure (.ok { c with last := c.sector })

/-- How the loop ends. -/
inductive Looped
  | done (i : Int) (c : Cursor)
  | failed (rc : Int)

/-- The loop from turn `i` on, `k` turns left at most. -/
@[grind =] def readwriteLoop (write : Bool) : (k : Nat) → (i : Int) → Cursor → Prog Looped
  | 0, i, c => pure (.done i c)
  | k + 1, i, c => do
    if -1 < c.sector then
      match ← advance g write c with
      | .full c => pure (.done (-1) c)
      | .there c =>
        match ← moveRun g rc write c with
        | .failed r => pure (.failed r)
        | .ok c =>
          match ← moveLast g rc write (k = 0) c with
          | .failed r => pure (.failed r)
          | .ok c => readwriteLoop write k (i + 1) c
    else pure (.done i c)

/-- What is stored back into the file. -/
def FatFile.store (f : FatFile) (c : Cursor) : FatFile where
  firstcluster := f.firstcluster
  lastcluster := c.cluster
  lastsector := c.sector
  clusternum := c.clusternum
  sectornum := c.numsec
  eof := c.eof

/-- The end of `fat_readwrite`, which is not reached when a transfer fails. -/
def finish : Looped → Prog Int
  | .failed r => pure r
  | .done i c => do
    modify fun s => { s with file := s.file.store c }
    pure (if c.eof then i - 1 else i) -- if eof, don't report last block as read/written

/-- `fat_readwrite` -/
def fatReadwrite (sectorcount : Nat) (write : Bool) : Prog Int := do
  let s ← get
  if s.file.eof = true ∧ write = false then pure 0
  else finish (← readwriteLoop g rc write sectorcount 0 s.file.cursor)

/-! ## `fat_open`, `fat_seek`, `fat_truncate` -/

/-- `fat_open`, without the place of the directory entry. -/
def fatOpen (startcluster : Int) : FatFile where
  firstcluster := startcluster
  lastcluster := startcluster
  lastsector := 0
  clusternum := 0
  sectornum := 0
  eof := false

/-- The loop of `fat_seek`: `n` clusters on from `cluster`. -/
def walk (t : Table) : (n : Nat) → (cluster : Int) → Option Int
  | 0, cluster => some cluster
  | n + 1, cluster =>
    if g.getNextCluster t cluster = 0 then none else walk t n (g.getNextCluster t cluster)

/-- The sector sought for, counted from the first cluster. -/
def seekSector (f : FatFile) (seeksector : Nat) : Nat :=
  if f.firstcluster < 0 then unsigned (seeksector + g.rootdiroffset) else seeksector

/-- The sector `sectornum` of cluster `clusternum`, which is `start.2` clusters on from `start.1`. -/
def seekFrom (t : Table) (f : FatFile) (clusternum : Int) (sectornum : Nat) (start : Int × Int) :
    Int × FatFile :=
  match walk g t start.2.toNat start.1 with
  | none => (-1, f)
  | some cluster =>
    (0, { f with lastcluster := cluster, lastsector := g.cluster2sec cluster + sectornum,
                 clusternum, sectornum := sectornum + 1 })

/-- `fat_seek`, with the cluster to start from and the number of clusters to go from there as
`start` chooses them for cluster `clusternum` of the file. -/
def seekWith (start : FatFile → (clusternum : Int) → Int × Int) (t : Table) (f : FatFile)
    (seeksector : Nat) : Int × FatFile :=
  let seeksector := seekSector g f seeksector
  let f := { f with eof := false }
  if seeksector ≠ 0 then
    -- the sector before the requested: the file has the last accessed sector
    let clusternum := long ((seeksector - 1) / g.secperclus : Nat)
    seekFrom g t f clusternum ((seeksector - 1) % g.secperclus) (start f clusternum)
  else
    (0, { f with lastcluster := f.firstcluster, lastsector := 0, clusternum := 0, sectornum := 0 })

/-- From the cluster that the file has stored, where that is not too far. -/
def cachedStart (f : FatFile) (clusternum : Int) : Int × Int :=
  if f.clusternum ≠ 0 ∧ f.clusternum ≤ clusternum then
    (f.lastcluster, long (clusternum - f.clusternum))
  else (f.firstcluster, clusternum)

/-- `fat_seek` -/
def fatSeek (seeksector : Nat) : Prog Int := do
  let s ← get
  let r := seekWith g cachedStart s.table s.file seeksector
  set { s with file := r.2 }
  pure r.1

/-- The loop of `fat_truncate` from `last` on, in at most `k` turns. -/
@[grind =] def freeChain : (k : Nat) → (last : Int) → Prog Unit
  | 0, _ => pure ()
  | k + 1, last => do
    if last = 0 then pure ()
    else
      let s ← get
      update g (unsigned last) 0
      freeChain k (g.getNextCluster s.table last)

/-- `fat_truncate`; a freed entry is zero, so no chain takes more turns than there are entries. -/
def fatTruncate : Prog Int := do
  let s ← get
  freeChain g (2 ^ 32) (g.getNextCluster s.table s.file.lastcluster)
  if s.file.lastcluster ≠ 0 then update g (unsigned s.file.lastcluster) 0x0ffffff8
  pure 0

end Fat
end Freemyipod
