import Mathlib.Data.List.GetD
import Mathlib.Algebra.Ring.Nat

/-!
# Lib.Bytes

Memory as bytes at numbered places.

* `put mem addr bs`, `bytes mem addr n`: writing and reading the bytes from `addr` on.
* `put_inside`, `put_outside`: what a write changes and what it leaves.
* `bytes_put`, `bytes_put_disjoint`: what is read after it.
* `SameOutside`: what several writes to one range leave.
-/

namespace Bytes

abbrev Memory := Nat → UInt8

/-- Memory after `bs` have been written to `addr`. -/
def put (mem : Memory) (addr : Nat) (bs : List UInt8) : Memory :=
  fun x => if addr ≤ x then bs.getD (x - addr) (mem x) else mem x

def bytes (mem : Memory) (addr n : Nat) : List UInt8 := (List.range n).map fun i => mem (addr + i)

variable {mem mem' : Memory} {addr n : Nat} {data bs : List UInt8}

@[simp] theorem length_bytes (n : Nat) : (bytes mem addr n).length = n := by
  simp [bytes]

theorem put_inside {j : Nat} (hj : j < bs.length) : put mem addr bs (addr + j) = bs.getD j 0 := by
  rw [put, if_pos (Nat.le_add_right _ _), Nat.add_sub_cancel_left]
  simp [List.getD_eq_getElem?_getD, hj]

theorem put_outside {x : Nat} (hx : x < addr ∨ addr + bs.length ≤ x) :
    put mem addr bs x = mem x := by
  unfold put
  split
  · rw [List.getD_eq_default _ _ (by omega)]
  · rfl

theorem bytes_add (a n k : Nat) : bytes mem a (n + k) = bytes mem a n ++ bytes mem (a + n) k := by
  simp only [bytes, List.range_add, List.map_append, List.map_map]
  congr 1
  refine List.map_congr_left fun i _ => ?_
  simp only [Function.comp_apply, Nat.add_assoc]

theorem bytes_eq_iff (a : Nat) :
    bytes mem a data.length = data ↔ ∀ j < data.length, mem (a + j) = data.getD j 0 := by
  constructor
  · intro h j hj
    have hbyte : (bytes mem a data.length).getD j 0 = data.getD j 0 := by rw [h]
    rw [← hbyte]
    simp [bytes, List.getD_eq_getElem?_getD, hj]
  · intro h
    refine List.ext_getElem (by simp [bytes]) fun j hj hj' => ?_
    have hbyte := h j hj'
    rw [List.getD_eq_getElem _ _ hj'] at hbyte
    simpa [bytes] using hbyte

theorem bytes_congr {a : Nat} (h : ∀ x, a ≤ x → x < a + n → mem' x = mem x) :
    bytes mem' a n = bytes mem a n := by
  refine List.map_congr_left fun i hi => ?_
  have := List.mem_range.1 hi
  exact h (a + i) (by omega) (by omega)

@[simp] theorem bytes_put : bytes (put mem addr bs) addr bs.length = bs :=
  (bytes_eq_iff addr).2 fun _ hj => put_inside hj

theorem bytes_put_disjoint {a : Nat} (h : a + n ≤ addr ∨ addr + bs.length ≤ a) :
    bytes (put mem addr bs) a n = bytes mem a n :=
  bytes_congr fun _ _ _ => put_outside (by omega)

/-- Only the bytes from `lo` up to `hi` may differ. -/
def SameOutside (lo hi : Nat) (mem mem' : Memory) : Prop := ∀ x, x < lo ∨ hi ≤ x → mem' x = mem x

namespace SameOutside

variable {lo hi : Nat} {mem'' : Memory}

theorem put (hlo : lo ≤ addr) (hhi : addr + bs.length ≤ hi) :
    SameOutside lo hi mem (put mem addr bs) := fun _ _ => put_outside (by omega)

theorem trans (h : SameOutside lo hi mem mem') (h' : SameOutside lo hi mem' mem'') :
    SameOutside lo hi mem mem'' := fun x hx => (h' x hx).trans (h x hx)

/-- Another write to both does not matter. -/
theorem put_congr (h : SameOutside lo hi mem mem') (a : Nat) (bs : List UInt8) :
    SameOutside lo hi (Bytes.put mem a bs) (Bytes.put mem' a bs) := by
  intro x hx
  simp only [Bytes.put, h x hx]

theorem bytes_eq {a : Nat} (h : SameOutside lo hi mem mem') (ha : a + n ≤ lo ∨ hi ≤ a) :
    bytes mem' a n = bytes mem a n := bytes_congr fun x _ _ => h x (by omega)

end SameOutside

end Bytes
