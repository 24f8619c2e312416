import Freemyipod.Fat.Table
import Freemyipod.Lib.Runs

/-!
# Fat.Cache

The cache for sectors of the FAT, `fat_cache`, and the calls that use it, by any number of threads.

A call takes one step for each of: `cache_fat_sector`, an access to the buffer that it returns,
`unlock_fat_sector`, the locking of `cache_mutex` by `flush_fat`, a turn of its loop, and its end.
The disk decides in each step which accesses to it succeed. The FSInfo sector that `flush_fat` writes
at its end is not in the FAT, and left out.
-/

namespace Freemyipod
namespace Fat
namespace Caching

/-- `struct bpb`, with what tells where the FAT is. -/
structure Volume extends Bpb where
  startsector : Nat
  rsvdseccnt : Nat
  numfats : Nat

/-- The entries of a sector of the FAT; those of a FAT16 have 16 bits. -/
abbrev Buf := Nat → BitVec 32

namespace Volume

variable (b : Volume)

/-- The bits of an entry that are a cluster number. -/
def bits : BitVec 32 := if b.isFat16 then 0xffff else 0x0fffffff

/-- Where copy `k` of the FAT has its sector `s` on the disk. -/
def address (k s : Nat) : Nat := b.startsector + b.rsvdseccnt + k * b.fatsize + s

/-- The sector of an entry. -/
def sectorOf (entry : Nat) : Nat := entry / b.perSector

def offsetOf (entry : Nat) : Nat := entry % b.perSector

end Volume

/-- `struct fat_cache_entry`, and its row of `fat_cache_sectors` -/
structure Slot where
  secnum : Nat
  valid : Bool
  locked : Int
  dirty : Bool
  buf : Buf

/-- Which accesses to the disk succeed: one read, and a write for each copy of the FAT. -/
structure Io where
  read : Bool
  write : Bool
  write2 : Bool

structure Cache where
  slots : Nat → Slot
  disk : Nat → Buf

variable (b : Volume)

namespace Cache

/-- `cache_index` of a sector of the FAT -/
def index (s : Nat) : Nat := (s + b.rsvdseccnt) % 4

def setSlot (c : Cache) (i : Nat) (e : Slot) : Cache :=
  { c with slots := Function.update c.slots i e }

/-- `flush_fat_sector`: `none` if it panics. -/
def flushFatSector (c : Cache) (i : Nat) (io : Io) : Option Cache :=
  let fce := c.slots i
  let secnum := fce.secnum + b.startsector
  if io.write then
    let disk := Function.update c.disk secnum fce.buf
    if 1 < b.numfats then
      if io.write2 then
        some ⟨Function.update c.slots i { fce with dirty := false },
          Function.update disk (secnum + b.fatsize) fce.buf⟩
      else none
    else some ⟨Function.update c.slots i { fce with dirty := false }, disk⟩
  else none

/-- What `cache_fat_sector` does with another sector in its slot. -/
def evict (c : Cache) (i secnum : Nat) (io : Io) : Option Cache :=
  let fce := c.slots i
  if fce.valid ∧ fce.secnum ≠ secnum then
    if fce.dirty then
      (c.flushFatSector b i io).map fun c => c.setSlot i { c.slots i with valid := false }
    else some (c.setSlot i { fce with valid := false })
  else some c

/-- What it does with an empty slot: `false` if it returns `NULL`. -/
def load (c : Cache) (i secnum : Nat) (io : Io) : Cache × Bool :=
  let fce := c.slots i
  if fce.valid then (c, true)
  else if io.read then
    (c.setSlot i { fce with valid := true, secnum, buf := c.disk (secnum + b.startsector) }, true)
  else (c, false)

/-- The end of `cache_fat_sector` -/
def hold (c : Cache) (i : Nat) (dirty : Bool) : Cache :=
  let fce := c.slots i
  c.setSlot i { fce with locked := fce.locked + 1, dirty := dirty || fce.dirty }

/-- `cache_fat_sector`: `none` if it panics. -/
def cacheFatSector (c : Cache) (fatsector : Nat) (dirty : Bool) (io : Io) :
    Option (Cache × Bool) :=
  let secnum := fatsector + b.rsvdseccnt
  let i := secnum % 4
  (c.evict b i secnum io).map fun c =>
    match c.load b i secnum io with
    | (c, true) => (c.hold i dirty, true)
    | (c, false) => (c, false)

/-- `unlock_fat_sector` -/
def unlockFatSector (c : Cache) (fatsector : Nat) : Cache :=
  let i := index b fatsector
  c.setSlot i { c.slots i with locked := (c.slots i).locked - 1 }

/-- `sec[offset]` -/
def get (c : Cache) (entry : Nat) : BitVec 32 :=
  (c.slots (index b (b.sectorOf entry))).buf (b.offsetOf entry)

def set (c : Cache) (entry : Nat) (v : BitVec 32) : Cache :=
  let i := index b (b.sectorOf entry)
  c.setSlot i { c.slots i with buf := Function.update (c.slots i).buf (b.offsetOf entry) v }

end Cache

/-! ## Calls -/

inductive Call
  | readFatEntry (entry : Nat)
  | updateFatEntry (entry val : Nat)
  | findFreeCluster (startcluster : Nat)
  | flushFat (force : Bool)

/-- Where a thread is. -/
inductive Doing
  | idle
  /-- `read_fat_entry`: before `cache_fat_sector`, before the access, before `unlock_fat_sector` -/
  | readCache (entry : Nat)
  | readLoad (entry : Nat)
  | readUnlock (entry : Nat) (val : BitVec 32)
  | updateCache (entry val : Nat)
  /-- `update_fat_entry`, before it looks whether the entry was free -/
  | updateLoad (entry val : Nat)
  /-- `sec[offset] = htole16(val)` -/
  | updateAssign (entry val : Nat)
  /-- `sec[offset] &= htole32(0xf0000000)` -/
  | updateAnd (entry val : Nat)
  /-- `sec[offset] |= htole32(val & 0x0fffffff)` -/
  | updateOr (entry val : Nat)
  | updateUnlock (entry : Nat)
  /-- `find_free_cluster`, in turn `i` of the loop over the sectors -/
  | findCache (startcluster i : Nat)
  /-- turn `j` over the entries of the sector -/
  | findLoad (startcluster i j : Nat)
  | findUnlock (startcluster i : Nat) (found : Option Nat)
  | flushLock
  /-- `flush_fat`, in turn `i` of its loop, with `cache_mutex` locked -/
  | flushSlot (i : Nat)

structure State (T : Type) where
  cache : Cache
  /-- The thread that is in the loop of `flush_fat`, if there is one. -/
  mutex : Option T
  freecount : Nat
  nextfree : Nat
  /-- `flush_fat_disabled` -/
  disabled : Bool
  threads : T → Doing

inductive Action (T : Type)
  | call (t : T) (c : Call)
  | step (t : T) (io : Io)

/-- What a step shows. -/
inductive Output
  | nothing
  /-- `read_fat_entry` returns, with -1 if there is no value. -/
  | read (entry : Nat) (val : Option (BitVec 32))
  /-- `update_fat_entry` has stored the value. -/
  | stored (entry val : Nat)
  /-- `update_fat_entry` returns 0 or -1. -/
  | updated (entry : Nat) (ok : Bool)
  /-- `find_free_cluster` returns, with 0 if there is no cluster. -/
  | found (cluster : Option Nat)
  | flushed

variable {T : Type} [DecidableEq T]

namespace State

/-- Thread `t` gets to `d`, with the cache `c`. -/
def goto (σ : State T) (t : T) (c : Cache) (d : Doing) : State T :=
  { σ with cache := c, threads := Function.update σ.threads t d }

/-- The cluster that turn `j` over the entries looks at. -/
def findEntry (startcluster i j : Nat) : Nat :=
  (i + startcluster / b.perSector) % b.fatsize * b.perSector +
    (j + if i = 0 then startcluster % b.perSector else 0) % b.perSector

/-- The sector of turn `i`. -/
def findSector (startcluster i : Nat) : Nat := (i + startcluster / b.perSector) % b.fatsize

/-- A call begins. `update_fat_entry` panics for a loop and for a reserved entry. -/
def call (σ : State T) (t : T) : Call → Option (State T × Output)
  | .readFatEntry entry => some (σ.goto t σ.cache (.readCache entry), .nothing)
  | .updateFatEntry entry val =>
    let val := if b.isFat16 then val % 0x10000 else val
    if entry = val ∨ entry < 2 then none
    else some (σ.goto t σ.cache (.updateCache entry val), .nothing)
  | .findFreeCluster startcluster =>
    if 0 < b.fatsize then some (σ.goto t σ.cache (.findCache startcluster 0), .nothing)
    else some (σ, .found none)
  | .flushFat force =>
    if σ.disabled ∧ ¬ force then some (σ, .nothing) else some (σ.goto t σ.cache .flushLock, .nothing)

/-- `cache_fat_sector`, once `cache_mutex` is free: `d` comes next if it returns a buffer. -/
def enter (σ : State T) (t : T) (fatsector : Nat) (dirty : Bool) (io : Io) (d : Doing)
    (failed : Output) : Option (State T × Output) :=
  if σ.mutex.isSome then none
  else
    (σ.cache.cacheFatSector b fatsector dirty io).map fun r =>
      if r.2 then (σ.goto t r.1 d, .nothing) else (σ.goto t r.1 .idle, failed)

/-- `fsinfo.freecount` after an entry `old` was replaced. -/
def newFreecount (σ : State T) (old : BitVec 32) (val : Nat) : Nat :=
  if val ≠ 0 then
    if old &&& b.bits = 0 ∧ 0 < σ.freecount then σ.freecount - 1 else σ.freecount
  else if old &&& b.bits ≠ 0 then σ.freecount + 1
  else σ.freecount

/-- A thread goes on. There is no step for a thread that is idle, that waits for `cache_mutex`, or
that panics. -/
@[grind =] def advance (σ : State T) (t : T) (io : Io) : Option (State T × Output) :=
  match σ.threads t with
  | .idle => none
  | .readCache e => σ.enter b t (b.sectorOf e) false io (.readLoad e) (.read e none)
  | .readLoad e => some (σ.goto t σ.cache (.readUnlock e (σ.cache.get b e &&& b.bits)), .nothing)
  | .readUnlock e v =>
    some (σ.goto t (σ.cache.unlockFatSector b (b.sectorOf e)) .idle, .read e (some v))
  | .updateCache e v => σ.enter b t (b.sectorOf e) true io (.updateLoad e v) (.updated e false)
  | .updateLoad e v =>
    let σ := { σ with freecount := σ.newFreecount b (σ.cache.get b e) v }
    some (σ.goto t σ.cache (if b.isFat16 then .updateAssign e v else .updateAnd e v), .nothing)
  | .updateAssign e v =>
    some (σ.goto t (σ.cache.set b e (BitVec.ofNat 32 v &&& b.bits)) (.updateUnlock e), .stored e v)
  | .updateAnd e v =>
    some (σ.goto t (σ.cache.set b e (σ.cache.get b e &&& ~~~ b.bits)) (.updateOr e v), .nothing)
  | .updateOr e v =>
    some (σ.goto t (σ.cache.set b e (σ.cache.get b e ||| BitVec.ofNat 32 v &&& b.bits))
      (.updateUnlock e), .stored e v)
  | .updateUnlock e =>
    some (σ.goto t (σ.cache.unlockFatSector b (b.sectorOf e)) .idle, .updated e true)
  | .findCache s i =>
    σ.enter b t (findSector b s i) false io
      (if 0 < b.perSector then .findLoad s i 0 else .findUnlock s i none) (.found none)
  | .findLoad s i j =>
    let c := findEntry b s i j
    if σ.cache.get b c &&& b.bits = 0 ∧ b.Data c then
      some (σ.goto t σ.cache (.findUnlock s i (some c)), .nothing)
    else if j + 1 < b.perSector then some (σ.goto t σ.cache (.findLoad s i (j + 1)), .nothing)
    else some (σ.goto t σ.cache (.findUnlock s i none), .nothing)
  | .findUnlock s i found =>
    let c := σ.cache.unlockFatSector b (findSector b s i)
    match found with
    | some r => some ({ σ.goto t c .idle with nextfree := r }, .found (some r))
    | none =>
      if i + 1 < b.fatsize then some (σ.goto t c (.findCache s (i + 1)), .nothing)
      else some (σ.goto t c .idle, .found none)
  | .flushLock =>
    if σ.mutex.isSome then none
    else some ({ σ.goto t σ.cache (.flushSlot 0) with mutex := some t }, .nothing)
  | .flushSlot i =>
    if i < 4 then
      if (σ.cache.slots i).valid ∧ (σ.cache.slots i).dirty then
        (σ.cache.flushFatSector b i io).map fun c => (σ.goto t c (.flushSlot (i + 1)), .nothing)
      else some (σ.goto t σ.cache (.flushSlot (i + 1)), .nothing)
    else some ({ σ.goto t σ.cache .idle with mutex := none }, .flushed)

end State

/-- A call gets at entries of the FAT. -/
def Call.InFat : Call → Prop
  | .readFatEntry entry => b.sectorOf entry < b.fatsize
  | .updateFatEntry entry _ => b.sectorOf entry < b.fatsize
  | .findFreeCluster _ => True
  | .flushFat _ => True

/-- One step of the system. A thread that is idle may begin a call. -/
def step (σ : State T) : Action T → Option (State T × Output)
  | .call t c =>
    match σ.threads t with
    | .idle => σ.call b t c
    | _ => none
  | .step t io => σ.advance b t io

/-- `fat_init`, with any disk -/
def init (disk : Nat → Buf) (freecount nextfree : Nat) (disabled : Bool) : State T where
  cache := ⟨fun _ => ⟨0, false, 0, false, fun _ => 0⟩, disk⟩
  mutex := none
  freecount
  nextfree
  disabled
  threads := fun _ => .idle

end Caching
end Fat
end Freemyipod
