import Freemyipod.Framebuffer.Pixels

/-!
# Framebuffer.Packing

How `framebuffer_fill` and `framebuffer_blit` write narrow pixels into words, one after the other.

* `Cursor`, `writePixel`: where the loops are, and one turn of them.
* `writePixel_painted`: what a turn writes, counting what is still in a variable.
* `advance`: from the end of a row to the next one.
-/

namespace Freemyipod
namespace Framebuffer

open Bits Bytes

/-- At the bit `bit` of the word at `out`, of which `data` is to be written. -/
structure Cursor where
  mem : Memory
  data : BitVec 32
  out : Nat
  bit : Nat

def writePixel (wsize : Nat) (color : BitVec 32) (s : Cursor) : Option Cursor := do
  let data := if s.bit = 0 then swap32 (load32 s.mem s.out) else s.data
  let sh ← shift (32 - s.bit - wsize)
  let data := insert data (mask wsize) color sh
  let bit := s.bit + wsize
  some (if bit = 32 then ⟨store32 s.mem s.out (swap32 data), data, s.out + 4, 0⟩
    else ⟨s.mem, data, s.out, bit⟩)

namespace Cursor

/-- `if (bit) *out = swap32(data)` -/
def flush (s : Cursor) : Memory :=
  if s.bit = 0 then s.mem else store32 s.mem s.out (swap32 s.data)

/-- The word at `out` with what is to be written of it. -/
def current (s : Cursor) : BitVec 32 :=
  if s.bit = 0 then swap32 (load32 s.mem s.out) else s.data

theorem flush_eq (s : Cursor) : s.flush = store32 s.mem s.out (swap32 s.current) := by
  unfold flush current
  split_ifs
  · rw [store32_load32]
  · rfl

theorem flush_load (s : Cursor) : flush { s with data := swap32 (load32 s.mem s.out) } = s.mem := by
  rw [flush]
  split_ifs
  · rfl
  · exact store32_load32

end Cursor

theorem dvd_32 {k : Nat} (h : k ∣ 32) : k = 1 ∨ k = 2 ∨ k = 4 ∨ k = 8 ∨ k = 16 ∨ k = 32 := by
  have hle := Nat.le_of_dvd (by decide) h
  interval_cases k <;> revert h <;> decide

theorem writePixel_painted {k : Nat} {c : BitVec 32} {f : Nat → Bool} {s : Cursor} (hpos : 0 < k)
    (hbit : s.bit + k ≤ 32) (hc : ∀ i, k ≤ i → c.getLsbD i = false)
    (hf : ∀ j < k, c.getLsbD (k - 1 - j) = f (8 * s.out + s.bit + j)) :
    ∃ s', writePixel k c s = some s' ∧ 8 * s'.out + s'.bit = 8 * s.out + s.bit + k ∧
      s'.bit < 32 ∧ s'.out % 4 = s.out % 4 ∧ (s'.mem = s.mem ∨ s'.mem = s'.flush) ∧
      Painted (Span (8 * s.out + s.bit) (8 * s.out + s.bit + k)) f s.flush s'.flush := by
  have hpaint := insert_painted s.mem s.out s.current hbit hc hf
  rw [← Cursor.flush_eq] at hpaint
  have hstep : writePixel k c s = some (if s.bit + k = 32
      then ⟨store32 s.mem s.out (swap32 (insert s.current (mask k) c (32 - s.bit - k))),
        insert s.current (mask k) c (32 - s.bit - k), s.out + 4, 0⟩
      else ⟨s.mem, insert s.current (mask k) c (32 - s.bit - k), s.out, s.bit + k⟩) := by
    simp only [writePixel, bind, (shift_eq_some hpos).2 ⟨hbit, rfl⟩, Option.bind_some]
    rfl
  generalize insert s.current (mask k) c (32 - s.bit - k) = d at *
  refine ⟨_, hstep, ?_⟩
  by_cases hend : s.bit + k = 32
  · rw [if_pos hend]
    exact ⟨by dsimp only; omega, Nat.succ_pos 31, by dsimp only; omega, .inr rfl, hpaint⟩
  · have hflush : Cursor.flush ⟨s.mem, d, s.out, s.bit + k⟩ = store32 s.mem s.out (swap32 d) :=
      if_neg (by dsimp only; omega)
    rw [if_neg hend, hflush]
    exact ⟨(Nat.add_assoc _ _ _).symm, by dsimp only; omega, rfl, .inl rfl, hpaint⟩

/-- A pixel does not cross the end of its word. -/
theorem bit_add_le {k out bit : Nat} (hk : k ∣ 32) (hbit : bit < 32) (hout : out % 4 = 0)
    (halign : (8 * out + bit) % k = 0) : bit + k ≤ 32 := by
  obtain ⟨a, ha⟩ : ∃ a, 8 * out = 32 * a := ⟨out / 4, by omega⟩
  have hdvd : k ∣ bit := by
    rw [ha] at halign
    exact (Nat.dvd_add_right (hk.mul_right a)).1 (Nat.dvd_of_mod_eq_zero halign)
  obtain ⟨n, rfl⟩ := hdvd
  have hle := mod_add_le (n := n) hk
  rwa [Nat.mul_comm n k, Nat.mod_eq_of_lt hbit] at hle

/-- The pointer to the next row. -/
theorem advance {out bit pos S W : Nat} {t : Int} (hout : out % 4 = 0)
    (hpos : 8 * out + bit = pos + W) (ht : t = bit + ((S : Int) - W)) :
    8 * (out + 4 * (t / 32)).toNat + (t % 32).toNat = pos + S ∧ (t % 32).toNat < 32 ∧
      (out + 4 * (t / 32)).toNat % 4 = 0 := by
  omega

end Framebuffer
end Freemyipod
