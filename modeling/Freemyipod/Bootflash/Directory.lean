import Freemyipod.Lib.Bytes
import Freemyipod.Lib.Memory

/-!
# Bootflash.Directory

The directory of the boot flash of the iPod nano 3G and iPod classic (`findflashfile`,
`bootflash_filesize` and `bootflash_attributes` of `emcore/target/ipodnano3g/bootflash.c`).

* `Entry`: a name of eight bytes, and two words.
* `findflashfile_entries`: if the directory starts with some entries of different names, each of
  them is found.
-/

namespace Freemyipod
namespace Bootflash

open Bytes
open Memory (word ofBytes)

structure Entry where
  name : List UInt8
  file : BitVec 32
  size : BitVec 32
  name_length : name.length = 8

def Entry.bytes (e : Entry) : List UInt8 := e.name ++ word e.file ++ word e.size

/-- The words that are returned and stored to `*size`, for the eight bytes at `filename` -/
def findflashfile (nor : Memory) (filename : List UInt8) (size : BitVec 32) :
    BitVec 32 × BitVec 32 :=
  match (List.range 0x100).find? fun i => bytes nor (0x1000 + 16 * i) 8 = filename with
  | some i =>
    (ofBytes (bytes nor (0x1000 + 16 * i + 8) 4), ofBytes (bytes nor (0x1000 + 16 * i + 12) 4))
  | none => (0, size)

/-- `bootflash_filesize`, where `size` is what its variable holds at first -/
def filesize (nor : Memory) (filename : List UInt8) (size : BitVec 32) : Int :=
  let found := findflashfile nor filename size
  if found.1 ≠ 0 then (found.2 &&& 0xfffff).toNat else -1

def attributes (nor : Memory) (filename : List UInt8) (size : BitVec 32) : Int :=
  let found := findflashfile nor filename size
  if found.1 ≠ 0 then (found.2 >>> 20).toNat else -1

variable {nor : Memory} {a : Nat} {es : List Entry}

@[simp] theorem Entry.length_bytes (e : Entry) : e.bytes.length = 16 := by
  simp [Entry.bytes, e.name_length]

theorem length_entries (es : List Entry) : (es.flatMap Entry.bytes).length = 16 * es.length := by
  induction es with
  | nil => rfl
  | cons e es ih =>
    rw [List.flatMap_cons, List.length_append, ih, e.length_bytes, List.length_cons]
    omega

/-- What the sixteen bytes of an entry are read as -/
theorem Entry.read {e : Entry} (h : Bytes.bytes nor a 16 = e.bytes) :
    Bytes.bytes nor a 8 = e.name ∧ ofBytes (Bytes.bytes nor (a + 8) 4) = e.file ∧
      ofBytes (Bytes.bytes nor (a + 12) 4) = e.size := by
  rw [show 16 = 8 + 4 + 4 from rfl, bytes_add, bytes_add, Entry.bytes] at h
  obtain ⟨hfront, hsize⟩ := List.append_inj h (by simp [e.name_length])
  obtain ⟨hname, hfile⟩ := List.append_inj hfront (by simp [e.name_length])
  rw [show a + 12 = a + (8 + 4) from rfl, hfile, hsize, Memory.ofBytes_word, Memory.ofBytes_word]
  exact ⟨hname, rfl, rfl⟩

theorem entry_at (h : bytes nor a (16 * es.length) = es.flatMap Entry.bytes) {i : Nat}
    (hi : i < es.length) : bytes nor (a + 16 * i) 16 = es[i].bytes := by
  induction es generalizing a i with
  | nil => simp at hi
  | cons e es ih =>
    rw [List.length_cons, Nat.mul_succ, Nat.add_comm (16 * es.length), bytes_add,
      List.flatMap_cons] at h
    obtain ⟨hfirst, hrest⟩ := List.append_inj h (by simp)
    cases i with
    | zero => exact hfirst
    | succ i =>
      have hnext := ih hrest (Nat.lt_of_succ_lt_succ hi)
      rwa [show a + 16 + 16 * i = a + 16 * (i + 1) by omega] at hnext

theorem findflashfile_entries (hlen : es.length ≤ 0x100)
    (h : bytes nor 0x1000 (16 * es.length) = es.flatMap Entry.bytes)
    (hnames : (es.map Entry.name).Nodup) {e : Entry} (he : e ∈ es) (size : BitVec 32) :
    findflashfile nor e.name size = (e.file, e.size) := by
  obtain ⟨i, hi, rfl⟩ := List.getElem_of_mem he
  have hread : ∀ j (hj : j < es.length), bytes nor (0x1000 + 16 * j) 8 = es[j].name := fun j hj =>
    (Entry.read (entry_at h hj)).1
  have hfind : (List.range 0x100).find?
      (fun j => bytes nor (0x1000 + 16 * j) 8 = es[i].name) = some i := by
    rw [List.find?_range_eq_some]
    refine ⟨by simp [hread i hi], List.mem_range.2 (by omega), fun j hj => ?_⟩
    -- an entry in front of it has another name
    have hne : es[j].name ≠ es[i].name := by
      intro heq
      have hlen' : (es.map Entry.name).length = es.length := List.length_map _
      have heq' : (es.map Entry.name)[j] = (es.map Entry.name)[i] := by simpa using heq
      have hsame := (List.Nodup.getElem_inj_iff hnames).1 heq'
      omega
    simpa [hread j (by omega)] using hne
  obtain ⟨-, hfile, hsize⟩ := Entry.read (entry_at h hi)
  rw [findflashfile, hfind]
  simp only [hfile, hsize]

end Bootflash
end Freemyipod
