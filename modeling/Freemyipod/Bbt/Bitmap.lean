import Freemyipod.Bbt.Model

/-!
# Bbt.Bitmap

The bitmap of the generator, and the sectors that are left for data.

* `readBad_isGood`: the good sectors of the bitmap are those that the input file does not list.
* `Usable`: the sectors that are neither bad nor part of the table.
* `reserve_spec`: they are the good ones from where the table ends.
-/

namespace Freemyipod
namespace Bbt

variable {bitmap bitmap' : Bitmap} {bad : List Int} {sectors : Nat}

/-! ## Bad sectors -/

theorem isGood_eq_getLsbD (bitmap : Bitmap) (p : Nat) :
    isGood bitmap p = (bitmap.word (p / 32)).getLsbD (p % 32) := by
  have hlt : p % 32 < 32 := Nat.mod_lt _ (by omega)
  have hbit : (bitmap.word (p / 32) &&& 1#32 <<< (p % 32)) =
      if (bitmap.word (p / 32)).getLsbD (p % 32) then 1#32 <<< (p % 32) else 0 := by
    apply BitVec.eq_of_getLsbD_eq
    intro i hi
    by_cases hp : i = p % 32
    · subst hp
      cases h : (bitmap.word (p / 32)).getLsbD (p % 32) <;> simp [h]
    · have hone : (1#32 <<< (p % 32)).getLsbD i = false := by
        simp only [BitVec.getLsbD_shiftLeft, BitVec.getLsbD_one]
        have : ¬ (i < p % 32) → ¬ (i - p % 32 = 0) := by omega
        by_cases hlt' : i < p % 32
        · simp [hlt']
        · simp [this hlt']
      rw [BitVec.getLsbD_and, hone]
      split <;> simp [hone]
  have hne : (1#32 <<< (p % 32)) ≠ 0 := by
    intro h
    have := congrArg (fun w => BitVec.getLsbD w (p % 32)) h
    simp [hlt] at this
  unfold isGood
  rw [hbit]
  cases (bitmap.word (p / 32)).getLsbD (p % 32) with
  | true => simpa using hne
  | false => simp

theorem markBad_isGood {sector : Int} (h : markBad bitmap sector = .ok bitmap') (p : Nat) :
    isGood bitmap' p = (isGood bitmap p && decide ((p : Int) ≠ sector)) := by
  unfold markBad at h
  split at h
  · rename_i hs
    cases h
    obtain ⟨n, rfl⟩ := Int.eq_ofNat_of_zero_le hs.1
    rw [isGood_eq_getLsbD, isGood_eq_getLsbD]
    dsimp only [Int.toNat_natCast]
    by_cases hi : p / 32 = n / 32
    · have hn : n % 32 < 32 := Nat.mod_lt _ (by omega)
      have hp : p % 32 < 32 := Nat.mod_lt _ (by omega)
      rw [hi, Function.update_self, BitVec.getLsbD_and, BitVec.getLsbD_not]
      congr 1
      by_cases he : p = n
      · subst he
        simp [hp]
      · have hne : ¬ (p : Int) = n := by omega
        have hlt : p % 32 < n % 32 ∨ p % 32 - n % 32 ≠ 0 := by omega
        rcases hlt with hlt | hlt <;> simp [hp, hne, hlt]
    · have hne : ¬ (p : Int) = n := by
        intro hc
        exact hi (by rw [Int.ofNat_inj.1 hc])
      rw [Function.update_of_ne hi]
      simp [hne]
  · cases h

theorem markBad_words {sector : Int} (h : markBad bitmap sector = .ok bitmap') :
    bitmap'.words = bitmap.words := by
  unfold markBad at h
  split at h <;> cases h
  rfl

/-- Sector 0 cannot be marked. -/
theorem readBad_isGood (h : readBad bitmap bad = .ok bitmap') {p : Nat} (hp : p ≠ 0) :
    isGood bitmap' p = (isGood bitmap p && decide ((p : Int) ∉ bad)) := by
  induction bad generalizing bitmap with
  | nil =>
    cases h
    simp
  | cons sector bad ih =>
    rw [readBad] at h
    split at h
    · cases hm : markBad bitmap sector with
      | error e =>
        rw [hm] at h
        cases h
      | ok b =>
        rw [hm] at h
        rw [ih h, markBad_isGood hm]
        simp [Bool.and_assoc]
    · rename_i h0
      have h0 : sector = 0 := not_not.1 h0
      rw [ih h]
      simp [h0, hp]

/-! ## The sectors that the table takes -/

/-- A sector for data: on the disk, not listed as bad, and not one of the table's. -/
def Usable (sectors : Nat) (bad : List Int) (physicals : List Nat) (p : Nat) : Prop :=
  p < sectors ∧ (p : Int) ∉ bad ∧ p ≠ 0 ∧ p ∉ physicals

instance (sectors : Nat) (bad : List Int) (physicals : List Nat) :
    DecidablePred (Usable sectors bad physicals) := by
  intro p
  unfold Usable
  infer_instance

/-- The sectors taken so far are the good ones below `physical`. -/
structure Taken (bitmap : Bitmap) (physical : Nat) (taken : List Nat) : Prop where
  pos : 0 < physical
  lt : ∀ q ∈ taken, q < physical
  good : ∀ q, 0 < q → q < physical → isGood bitmap q = true → q ∈ taken
  length : taken.length < physical

theorem reserve_spec {wanted n physical : Nat} {taken : List Nat} {r : Nat × List Nat}
    (h : reserve bitmap wanted n physical taken = .ok r) (ht : Taken bitmap physical taken)
    (hle : taken.length ≤ wanted) : Taken bitmap r.1 r.2 ∧ r.2.length = wanted := by
  induction n generalizing physical taken with
  | zero =>
    rw [reserve] at h
    split at h
    · cases h
    · cases h
      exact ⟨ht, by dsimp only; omega⟩
  | succ n ih =>
    rw [reserve] at h
    split at h
    · rename_i hlt
      split at h
      · rename_i hgood
        refine ih h ⟨by omega, ?_, ?_, ?_⟩ (by simpa using hlt)
        · intro q hq
          rcases List.mem_append.1 hq with hq | hq
          · have := ht.lt q hq
            omega
          · rw [List.mem_singleton.1 hq]
            omega
        · intro q h0 hq hg
          by_cases hqp : q = physical
          · simp [hqp]
          · exact List.mem_append_left _ (ht.good q h0 (by omega) hg)
        · have := ht.length
          simp only [List.length_append, List.length_singleton]
          omega
      · rename_i hgood
        refine ih h ⟨by omega, ?_, ?_, ?_⟩ hle
        · intro q hq
          have := ht.lt q hq
          omega
        · intro q h0 hq hg
          refine ht.good q h0 ?_ hg
          by_contra hqp
          have : q = physical := by omega
          rw [this] at hg
          exact hgood hg
        · have := ht.length
          omega
    · cases h
      exact ⟨ht, by dsimp only; omega⟩

/-! ## Runs of good sectors -/

theorem cleanRun_le (physical n : Nat) : cleanRun bitmap sectors physical n ≤ n := by
  induction n generalizing physical with
  | zero => exact le_rfl
  | succ n ih =>
    rw [cleanRun]
    split
    · have := ih (physical + 1)
      omega
    · omega

theorem cleanRun_good {physical n j : Nat} (h : j < cleanRun bitmap sectors physical n) :
    physical + j < sectors ∧ isGood bitmap (physical + j) = true := by
  induction n generalizing physical j with
  | zero => exact absurd h (Nat.not_lt_zero _)
  | succ n ih =>
    rw [cleanRun] at h
    split at h
    · rename_i hgood
      cases j with
      | zero => exact hgood
      | succ j =>
        have := @ih (physical + 1) j (by omega)
        rwa [show physical + 1 + j = physical + (j + 1) by omega] at this
    · omega

theorem cleanRun_zero {physical n : Nat} (h : cleanRun bitmap sectors physical (n + 1) = 0) :
    ¬ (physical < sectors ∧ isGood bitmap physical = true) := by
  intro hg
  rw [cleanRun, if_pos hg] at h
  omega

end Bbt
end Freemyipod
