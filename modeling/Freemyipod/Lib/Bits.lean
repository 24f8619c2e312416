import Mathlib.Data.BitVec
import Mathlib.Tactic.IntervalCases
import Freemyipod.Lib.Bytes

/-!
# Lib.Bits

Memory as bits, the highest one of a byte first, and words of four bytes in it.

* `bit`, `memory_ext`, `ofBits`: a memory is its bits.
* `load32`, `store32`, `swap32`: little-endian words. Swapped, their bits have the order of the memory.
* `Painted P f mem mem'`: `f` where `P` holds, unchanged elsewhere; `Painted.trans`, `Painted.unique`.
* `times`, `times_invariant`: a counted loop that can fail.
* `painted_rows`: rows of bits, one after the other.
-/

namespace Bits

open Bytes

variable {mem mem' mem'' : Memory} {a : Nat}

def bit (mem : Memory) (i : Nat) : Bool := (mem (i / 8)).toBitVec.getMsbD (i % 8)

theorem bit_add {r : Nat} (hr : r < 8) : bit mem (8 * a + r) = (mem a).toBitVec.getMsbD r := by
  have hdiv : (8 * a + r) / 8 = a := by omega
  have hmod : (8 * a + r) % 8 = r := by omega
  rw [bit, hdiv, hmod]

theorem memory_ext (h : ∀ i, bit mem i = bit mem' i) : mem = mem' := by
  funext x
  apply UInt8.eq_of_toBitVec_eq
  apply BitVec.eq_of_getMsbD_eq
  intro r hr
  have hbit := h (8 * x + r)
  rwa [bit_add hr, bit_add hr] at hbit

/-- The memory of given bits. -/
def ofBits (f : Nat → Bool) : Memory := fun x =>
  UInt8.ofBitVec (BitVec.ofBoolListBE ([0, 1, 2, 3, 4, 5, 6, 7].map fun r => f (8 * x + r)))

@[simp] theorem bit_ofBits {f : Nat → Bool} {i : Nat} : bit (ofBits f) i = f i := by
  obtain ⟨x, r, hr, rfl⟩ : ∃ x r, r < 8 ∧ i = 8 * x + r :=
    ⟨i / 8, i % 8, Nat.mod_lt i (by decide), by omega⟩
  rw [bit_add hr]
  change (BitVec.ofBoolListBE ([0, 1, 2, 3, 4, 5, 6, 7].map fun r => f (8 * x + r))).getMsbD r = _
  rw [BitVec.getMsbD_ofBoolListBE]
  interval_cases r <;> rfl

/-! ## Writing -/

theorem bit_put_inside {bs : List UInt8} {j r : Nat} (hj : j < bs.length) (hr : r < 8) :
    bit (put mem a bs) (8 * (a + j) + r) = (bs.getD j 0).toBitVec.getMsbD r := by
  rw [bit_add hr, put_inside hj]

theorem bit_put_outside {bs : List UInt8} {i : Nat} (h : i < 8 * a ∨ 8 * (a + bs.length) ≤ i) :
    bit (put mem a bs) i = bit mem i := by
  rw [bit, bit, put_outside (by omega)]

/-- The lowest `n` bytes of a word, the lowest one first. -/
def le (n : Nat) (v : BitVec 32) : List UInt8 :=
  (List.range n).map fun j => UInt8.ofBitVec (v.extractLsb' (8 * j) 8)

@[simp] theorem length_le {n : Nat} {v : BitVec 32} : (le n v).length = n := by
  simp [le]

theorem getMsbD_le {n j r : Nat} {v : BitVec 32} (hj : j < n) (hr : r < 8) :
    ((le n v).getD j 0).toBitVec.getMsbD r = v.getLsbD (8 * j + (7 - r)) := by
  have hlt : 7 - r < 8 := by omega
  simp [le, hj, hr, BitVec.getMsbD_eq_getLsbD, hlt]

def load32 (mem : Memory) (a : Nat) : BitVec 32 :=
  (mem (a + 3)).toBitVec ++ (mem (a + 2)).toBitVec ++ (mem (a + 1)).toBitVec ++ (mem a).toBitVec

def store32 (mem : Memory) (a : Nat) (v : BitVec 32) : Memory := put mem a (le 4 v)

def swap32 (x : BitVec 32) : BitVec 32 :=
  (x &&& 0xff000000) >>> 24 ||| (x &&& 0xff0000) >>> 8 ||| (x &&& 0xff00) <<< 8 |||
    (x &&& 0xff) <<< 24

theorem getLsbD_swap32 {x : BitVec 32} {i : Nat} (hi : i < 32) :
    (swap32 x).getLsbD i = x.getLsbD (8 * (3 - i / 8) + i % 8) := by
  unfold swap32
  interval_cases i <;> simp

theorem getLsbD_load32 {j r : Nat} (hj : j < 4) (hr : r < 8) :
    (load32 mem a).getLsbD (8 * j + r) = bit mem (8 * (a + j) + (7 - r)) := by
  have hback : 8 - 1 - (7 - r) = r := by omega
  have hlt : 7 - r < 8 := by omega
  rw [bit_add hlt, BitVec.getMsbD_eq_getLsbD, hback, decide_eq_true hlt, Bool.true_and, load32]
  obtain rfl | rfl | rfl | rfl : j = 0 ∨ j = 1 ∨ j = 2 ∨ j = 3 := by omega
  all_goals
    simp (disch := omega) only [BitVec.getLsbD_append, if_pos, if_neg]
    congr 1
    omega

/-- Swapped, the bits of a word are those of the memory, one after the other. -/
theorem getMsbD_load32 {j : Nat} (hj : j < 32) :
    (swap32 (load32 mem a)).getMsbD j = bit mem (8 * a + j) := by
  have hlt : j / 8 < 4 := by omega
  have hr : 7 - j % 8 < 8 := by omega
  have hi : 8 * (3 - (32 - 1 - j) / 8) + (32 - 1 - j) % 8 = 8 * (j / 8) + (7 - j % 8) := by omega
  have hback : 8 * (a + j / 8) + (7 - (7 - j % 8)) = 8 * a + j := by omega
  rw [BitVec.getMsbD_eq_getLsbD, decide_eq_true hj, Bool.true_and, getLsbD_swap32 (by omega), hi,
    getLsbD_load32 hlt hr, hback]

theorem bit_store32 {v : BitVec 32} {j : Nat} (hj : j < 32) :
    bit (store32 mem a v) (8 * a + j) = v.getLsbD (8 * (j / 8) + (7 - j % 8)) := by
  have hlt : j / 8 < 4 := by omega
  have hr : j % 8 < 8 := by omega
  have hi : 8 * a + j = 8 * (a + j / 8) + j % 8 := by omega
  rw [hi, store32, bit_put_inside (by simpa using hlt) hr, getMsbD_le hlt hr]

theorem bit_store32_swap32 {v : BitVec 32} {j : Nat} (hj : j < 32) :
    bit (store32 mem a (swap32 v)) (8 * a + j) = v.getMsbD j := by
  have hi : 8 * (3 - (8 * (j / 8) + (7 - j % 8)) / 8) + (8 * (j / 8) + (7 - j % 8)) % 8 =
      32 - 1 - j := by omega
  rw [bit_store32 hj, getLsbD_swap32 (by omega), hi, BitVec.getMsbD_eq_getLsbD, decide_eq_true hj,
    Bool.true_and]

theorem bit_store32_outside {v : BitVec 32} {i : Nat} (h : i < 8 * a ∨ 8 * a + 32 ≤ i) :
    bit (store32 mem a v) i = bit mem i := by
  apply bit_put_outside
  rw [length_le]
  omega

/-- A word is written back. -/
theorem store32_load32 : store32 mem a (swap32 (swap32 (load32 mem a))) = mem := by
  apply memory_ext
  intro i
  by_cases hi : 8 * a ≤ i ∧ i < 8 * a + 32
  · obtain ⟨j, hj, rfl⟩ : ∃ j, j < 32 ∧ i = 8 * a + j := ⟨i - 8 * a, by omega, by omega⟩
    rw [bit_store32_swap32 hj, getMsbD_load32 hj]
  · exact bit_store32_outside (by omega)

/-! ## What is painted -/

/-- `f` where `P` holds, and unchanged elsewhere. -/
structure Painted (P : Nat → Prop) (f : Nat → Bool) (mem mem' : Memory) : Prop where
  inside : ∀ i, P i → bit mem' i = f i
  outside : ∀ i, ¬ P i → bit mem' i = bit mem i

def Span (lo hi i : Nat) : Prop := lo ≤ i ∧ i < hi

/-- `h` rows of `n` bits, each `s` bits behind the one before. -/
def Rows (lo s n h i : Nat) : Prop := ∃ r < h, Span (lo + r * s) (lo + r * s + n) i

namespace Painted

variable {P Q R : Nat → Prop} {f : Nat → Bool}

theorem refl (h : ∀ i, ¬ P i) : Painted P f mem mem := ⟨fun i hi => absurd hi (h i), fun _ _ => rfl⟩

/-- First one part, then the other. -/
theorem trans (h : Painted P f mem mem') (h' : Painted Q f mem' mem'')
    (hR : ∀ i, R i ↔ P i ∨ Q i) : Painted R f mem mem'' := by
  constructor
  · intro i hi
    by_cases hq : Q i
    · exact h'.inside i hq
    · rw [h'.outside i hq]
      exact h.inside i (((hR i).1 hi).resolve_right hq)
  · intro i hi
    rw [h'.outside i fun hq => hi ((hR i).2 (.inr hq)), h.outside i fun hp => hi ((hR i).2 (.inl hp))]

theorem congr (h : Painted P f mem mem') (hQ : ∀ i, Q i ↔ P i) : Painted Q f mem mem' :=
  ⟨fun i hi => h.inside i ((hQ i).1 hi), fun i hi => h.outside i (mt (hQ i).2 hi)⟩

theorem unique (h : Painted P f mem mem') (h' : Painted P f mem mem'') : mem' = mem'' := by
  apply memory_ext
  intro i
  by_cases hi : P i
  · rw [h.inside i hi, h'.inside i hi]
  · rw [h.outside i hi, h'.outside i hi]

end Painted

/-! ## Rows -/

variable {lo s n h i : Nat}

theorem not_rows_zero : ¬ Rows lo s n 0 i := by
  rintro ⟨r, hr, -⟩
  exact Nat.not_lt_zero r hr

theorem rows_succ :
    Rows lo s n (h + 1) i ↔ Rows lo s n h i ∨ Span (lo + h * s) (lo + h * s + n) i := by
  constructor
  · rintro ⟨r, hr, hi⟩
    obtain hlt | rfl := Nat.lt_succ_iff_lt_or_eq.1 hr
    · exact .inl ⟨r, hlt, hi⟩
    · exact .inr hi
  · rintro (⟨r, hr, hi⟩ | hi)
    · exact ⟨r, Nat.lt_succ_of_lt hr, hi⟩
    · exact ⟨h, Nat.lt_succ_self h, hi⟩

/-- Rows without a gap between them. -/
theorem rows_iff_span : Rows lo s s h i ↔ Span lo (lo + h * s) i := by
  induction h with
  | zero =>
    rw [Nat.zero_mul, Span]
    exact iff_of_false not_rows_zero (by omega)
  | succ h ih =>
    rw [rows_succ, ih, Nat.succ_mul]
    simp only [Span]
    omega

/-! ## Counted loops -/

/-- `n` turns of a loop, if none of them fails. -/
def times {σ : Type*} (f : σ → Option σ) : Nat → σ → Option σ
  | 0, x => some x
  | n + 1, x => (f x).bind (times f n)

theorem times_invariant {σ : Type*} {f : σ → Option σ} {n : Nat} {I : Nat → σ → Prop} {x : σ}
    (hx : I 0 x) (hstep : ∀ r x, r < n → I r x → ∃ y, f x = some y ∧ I (r + 1) y) :
    ∃ y, times f n x = some y ∧ I n y := by
  induction n generalizing I x with
  | zero => exact ⟨x, rfl, hx⟩
  | succ n ih =>
    obtain ⟨y, hy, hinv⟩ := hstep 0 x (Nat.succ_pos n) hx
    rw [times, hy, Option.bind_some]
    exact ih hinv fun r x hr => hstep (r + 1) x (Nat.succ_lt_succ hr)

end Bits
