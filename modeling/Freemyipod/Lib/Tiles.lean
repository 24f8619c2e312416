import Mathlib.Algebra.Ring.Nat
import Mathlib.Data.List.Basic

/-!
# Lib.Tiles

Chunks of an address range that follow each other without a gap or an overlap.
-/

namespace Tiling

structure Chunk where
  offset : Nat
  size : Nat
  deriving DecidableEq, Repr

/-- `l` covers the addresses from `lo` up to `hi`, each once and in order. -/
def Tiles : Nat → Nat → List Chunk → Prop
  | lo, hi, [] => lo = hi
  | lo, hi, c :: l => c.offset = lo ∧ Tiles (lo + c.size) hi l

theorem Tiles.le {lo hi : Nat} {l : List Chunk} (h : Tiles lo hi l) : lo ≤ hi := by
  induction l generalizing lo with
  | nil => exact Nat.le_of_eq h
  | cons c l ih =>
    have := ih h.2
    omega

/-- No chunk leaves the range. -/
theorem Tiles.inside {lo hi : Nat} {l : List Chunk} (h : Tiles lo hi l) :
    ∀ c ∈ l, lo ≤ c.offset ∧ c.offset + c.size ≤ hi := by
  induction l generalizing lo with
  | nil => intro c hc; cases hc
  | cons c l ih =>
    obtain ⟨hc, hl⟩ := h
    have hle := hl.le
    intro b hb
    obtain rfl | hb := List.mem_cons.1 hb
    · omega
    · have := ih hl b hb
      omega

/-- The sizes add up to the length of the range. -/
theorem Tiles.sum {lo hi : Nat} {l : List Chunk} (h : Tiles lo hi l) :
    lo + (l.map Chunk.size).sum = hi := by
  induction l generalizing lo with
  | nil => exact h
  | cons c l ih =>
    have := ih h.2
    rw [List.map_cons, List.sum_cons]
    omega

end Tiling
