import Freemyipod.Lib.Effect
import Freemyipod.Lib.Intrusive

/-!
# File.Model

The open files of `file.c`: `fsync` and `close_all_of_process`.

The descriptors are threaded through their link `next`; a `struct filedesc *` is an
`Option α`. What the functions of `fat.c` do to the `struct fat_file` of a descriptor and to the
volume is a parameter, with any result and any effect: `file.c` hands them the descriptor's fields
and looks at the sign of the result. `errno` is left out, and `file_mutex`, which the function
holds throughout.
-/

namespace Freemyipod
namespace File

open Effect

variable {α P F C D : Type}

/-- `struct filedesc`, without its link. -/
structure Filedesc (P F C : Type) where
  cache : C
  cacheoffset : Int
  fileoffset : Int
  size : Int
  attr : Nat
  fatfile : F
  process : P
  write : Bool
  dirty : Bool
  trunc : Bool

/-- The functions of `fat.c` on a file of a volume `D`. -/
structure FatOps (F C D : Type) where
  seek : F → (sector : Int) → D → Int × F × D
  /-- `fat_readwrite(file, 1, cache, true)` -/
  writeSector : F → C → D → Int × F × D
  truncate : F → D → Int × D
  closewrite : F → (size : Int) → (attr : Nat) → D → Int × F × D

/-- The result of a call on a descriptor, with the descriptor and the volume afterwards. -/
structure Result (P F C D : Type) where
  rc : Int
  desc : Filedesc P F C
  disk : D

variable (fat : FatOps F C D)

/-- `flush_cache` -/
def flushCache (f : Filedesc P F C) (d : D) : Result P F C D :=
  let s := fat.seek f.fatfile (f.fileoffset.tdiv 512) d
  let f := { f with fatfile := s.2.1 }
  if s.1 < 0 then ⟨s.1 * 10 - 3, f, s.2.2⟩
  else
    let r := fat.writeSector f.fatfile f.cache s.2.2
    let f := { f with fatfile := r.2.1 }
    if r.1 < 0 then ⟨r.1 * 10 - 2, f, r.2.2⟩
    else ⟨0, { f with dirty := false }, r.2.2⟩

/-- `ftruncate` -/
def ftruncate (f : Filedesc P F C) (size : Int) (d : D) : Result P F C D :=
  let sector := size.tdiv 512 + if size.tmod 512 ≠ 0 then 1 else 0
  let s := fat.seek f.fatfile sector d
  let f := { f with fatfile := s.2.1 }
  if s.1 < 0 then ⟨s.1 * 10 - 1, f, s.2.2⟩
  else
    let r := fat.truncate f.fatfile s.2.2
    if r.1 < 0 then ⟨r.1 * 10 - 2, f, r.2⟩
    else ⟨0, { f with size }, r.2⟩

/-- `fat_closewrite` on the descriptor -/
def closewrite (f : Filedesc P F C) (d : D) : Result P F C D :=
  let r := fat.closewrite f.fatfile f.size f.attr d
  ⟨r.1, { f with fatfile := r.2.1 }, r.2.2⟩

/-- `fsync` of an open file -/
def fsyncFile (f : Filedesc P F C) (d : D) : Result P F C D :=
  if f.write then
    let c := if f.dirty then flushCache fat f d else ⟨0, f, d⟩
    if c.rc < 0 then { closewrite fat c.desc c.disk with rc := c.rc * 10 - 3 }
    else
      let t := if c.desc.trunc then ftruncate fat c.desc c.desc.size c.disk else ⟨0, c.desc, c.disk⟩
      if t.rc < 0 then { closewrite fat t.desc t.disk with rc := t.rc * 10 - 4 }
      else
        let r := closewrite fat t.desc t.disk
        { r with rc := if r.rc < 0 then r.rc * 10 - 5 else 0 }
  else ⟨0, f, d⟩

/-- What happens to a descriptor. -/
inductive Event (α : Type)
  | fsync (fd : α)
  | free (fd : α)
  deriving DecidableEq

/-- The descriptors in memory, the list of those that are open, the volume, and what has happened
so far. -/
structure World (α P F C D : Type) where
  openfiles : Option α
  next : α → Option α
  desc : α → Filedesc P F C
  disk : D
  log : List (Event α)

inductive Fault
  /-- A field of `NULL` is read. -/
  | nullPointer
  | outOfFuel
  deriving DecidableEq

abbrev Prog (α P F C D : Type) := StateT (World α P F C D) (Except Fault)

namespace World

variable [DecidableEq α]

def fsync (w : World α P F C D) (fd : α) : World α P F C D :=
  let r := fsyncFile fat (w.desc fd) w.disk
  { w with desc := Function.update w.desc fd r.desc, disk := r.disk, log := w.log ++ [.fsync fd] }

def free (w : World α P F C D) (fd : α) : World α P F C D :=
  { w with log := w.log ++ [.free fd] }

def setNext (w : World α P F C D) (fd : α) (p : Option α) : World α P F C D :=
  { w with next := Function.update w.next fd p }

end World

variable [DecidableEq α] [DecidableEq P] (process : P)

/-- The first loop of `close_all_of_process`, and how many files it closes. -/
@[grind =] def closeHead : (fuel : Nat) → Prog α P F C D Nat
  | 0 => throw .outOfFuel
  | k + 1 => do
    let w ← get
    match w.openfiles with
    | none => pure 0
    | some prev =>
      if (w.desc prev).process = process then
        set { w with openfiles := w.next prev }
        match w.next prev with
        | none => throw .nullPointer -- openfiles->write
        | some f =>
          if (w.desc f).write then modify fun w => w.fsync fat f
          modify fun w => w.free prev
          let closed ← closeHead k
          pure (closed + 1)
      else pure 0

/-- The two loops after it, from the file `f` on. -/
def closeRest : (fuel : Nat) → (f : Option α) → Prog α P F C D Nat
  | 0, _ => throw .outOfFuel
  | _ + 1, none => pure 0
  | k + 1, some f => do
    let w ← get
    match w.next f with
    | none => closeRest k none
    | some prev =>
      if (w.desc prev).process = process then
        set (w.setNext f (w.next prev))
        modify fun w => w.free prev
        let closed ← closeRest k (some f)
        pure (closed + 1)
      else closeRest k (some prev)

/-- `close_all_of_process` -/
def closeAllOfProcess (fuel : Nat) : Prog α P F C D Nat := do
  let closed ← closeHead fat process fuel
  let w ← get
  let closed' ← closeRest process fuel w.openfiles
  pure (closed + closed')

end File
end Freemyipod
