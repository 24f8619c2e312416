import Mathlib.Algebra.Order.Group.Unbundled.Int
import Mathlib.Tactic.Linarith
import Mathlib.Tactic.Ring

/-!
# Lib.Loop

A `while` loop over a state, without a bound on its turns.

* `Ends cond body s t`: the loop ends, and `t` is the state it leaves behind.
* `run`: the loop as a function with fuel, `ends_iff_run`.
* `Ends.invariant`, `not_ends`, `Ends.simulated`: the rules the proofs about a loop use.
* `settles_iff`: the loop that repeats `x := 1 + (n - x) / d` until `x` stays as it is.
* `ends_iff_share`: the same for a loop over other states that computes this map.
-/

namespace While

variable {σ τ : Type*} {cond : σ → Bool} {body : σ → σ} {s t : σ}

inductive Ends (cond : σ → Bool) (body : σ → σ) : σ → σ → Prop where
  | done {s : σ} : cond s = false → Ends cond body s s
  | turn {s t : σ} : cond s = true → Ends cond body (body s) t → Ends cond body s t

/-- `none` when the fuel is used up first. -/
def run (cond : σ → Bool) (body : σ → σ) : Nat → σ → Option σ
  | 0, _ => none
  | fuel + 1, s => if cond s then run cond body fuel (body s) else some s

theorem ends_of_run : ∀ {fuel : Nat} {s t : σ}, run cond body fuel s = some t → Ends cond body s t := by
  intro fuel
  induction fuel with
  | zero => intro s t h; simp [run] at h
  | succ fuel ih =>
    intro s t h
    simp only [run] at h
    split at h
    · exact .turn ‹_› (ih h)
    · cases h
      exact .done (Bool.eq_false_iff.2 ‹¬_›)

theorem ends_iff_run : Ends cond body s t ↔ ∃ fuel, run cond body fuel s = some t := by
  constructor
  · intro h
    induction h with
    | done hc => exact ⟨1, by simp [run, hc]⟩
    | turn hc _ ih =>
      obtain ⟨fuel, hf⟩ := ih
      exact ⟨fuel + 1, by simp [run, hc, hf]⟩
  · intro h
    obtain ⟨fuel, hf⟩ := h
    exact ends_of_run hf

theorem Ends.unique {t' : σ} (h : Ends cond body s t) (h' : Ends cond body s t') : t = t' := by
  induction h with
  | done hc =>
    cases h' with
    | done _ => rfl
    | turn hc' _ => rw [hc] at hc'; cases hc'
  | turn hc _ ih =>
    cases h' with
    | done hc' => rw [hc] at hc'; cases hc'
    | turn _ h' => exact ih h'

theorem Ends.invariant {I : σ → Prop} (h : Ends cond body s t) (h0 : I s)
    (hturn : ∀ x, I x → cond x = true → I (body x)) : I t ∧ cond t = false := by
  induction h with
  | done hc => exact ⟨h0, hc⟩
  | turn hc _ ih => exact ih (hturn _ h0 hc)

/-- An invariant under which the condition holds: the loop has no last turn. -/
theorem not_ends {I : σ → Prop} (h0 : I s) (hturn : ∀ x, I x → cond x = true ∧ I (body x)) :
    ¬ ∃ t, Ends cond body s t := by
  rintro ⟨t, h⟩
  obtain ⟨ht, hc⟩ := h.invariant h0 fun x hx _ => (hturn x hx).2
  rw [(hturn t ht).1] at hc
  cases hc

/-- Two loops that go in step: what one ends in, the other ends in. -/
theorem Ends.simulated {cond' : τ → Bool} {body' : τ → τ} {R : σ → τ → Prop} {x : τ}
    (h : Ends cond body s t) (hR : R s x) (hcond : ∀ a b, R a b → cond' b = cond a)
    (hbody : ∀ a b, R a b → cond a = true → R (body a) (body' b)) :
    ∃ y, R t y ∧ Ends cond' body' x y := by
  induction h generalizing x with
  | done hc => exact ⟨x, hR, .done (by rw [hcond _ _ hR, hc])⟩
  | turn hc _ ih =>
    obtain ⟨y, hy, he⟩ := ih (hbody _ _ hR hc)
    exact ⟨y, hy, .turn (by rw [hcond _ _ hR, hc]) he⟩

/-! ### Repeating a map until its argument stays as it is -/

/-- The argument of the turn before is kept beside the present one. -/
@[grind =] def changed [DecidableEq σ] (p : σ × σ) : Bool := p.1 != p.2

def next (f : σ → σ) (p : σ × σ) : σ × σ := (f p.1, p.1)

variable [DecidableEq σ] {f : σ → σ}

theorem ends_of_fixed {x y : σ} (h : f x = x) : ∃ t, Ends changed (next f) (x, y) t := by
  by_cases hxy : x = y
  · exact ⟨_, .done (by simp [changed, hxy])⟩
  · exact ⟨_, .turn (by simp [changed, hxy]) (.done (by simp [changed, next, h]))⟩

theorem ends_of_next {x y : σ} (h : ∃ t, Ends changed (next f) (f x, x) t) :
    ∃ t, Ends changed (next f) (x, y) t := by
  obtain ⟨t, ht⟩ := h
  by_cases hxy : x = y
  · exact ⟨_, .done (by simp [changed, hxy])⟩
  · exact ⟨t, .turn (by simp [changed, hxy]) ht⟩

theorem not_ends_of_ne {x y : σ} (hxy : x ≠ y) (h : ∀ z, f z ≠ z) :
    ¬ ∃ t, Ends changed (next f) (x, y) t := by
  apply not_ends (I := fun p : σ × σ => p.1 ≠ p.2) hxy
  intro p hp
  exact ⟨by simpa [changed] using hp, h p.1⟩

/-- What the repetition ends with is a fixed point. -/
theorem Ends.fixed {x y : σ} {p : σ × σ} (h : Ends changed (next f) (x, y) p) (hxy : x ≠ y) :
    f p.1 = p.1 := by
  have hinv := h.invariant (I := fun p => p.1 ≠ p.2 ∨ p.1 = f p.2) (.inl hxy)
    fun _ _ _ => .inr rfl
  obtain ⟨hp, hc⟩ := hinv
  have heq : p.1 = p.2 := by simpa [changed] using hc
  obtain hp | hp := hp
  · exact absurd heq hp
  · rw [← heq] at hp
    exact hp.symm

/-! ### The map `x ↦ 1 + (n - x) / d` -/

variable {n d : Int}

def share (n d x : Int) : Int := 1 + (n - x) / d

theorem share_le (hd : 0 < d) {x y : Int} (h : x ≤ y) : share n d y ≤ share n d x := by
  have := Int.ediv_le_ediv hd (show n - y ≤ n - x by omega)
  unfold share
  omega

theorem share_add_mul (hd : 0 < d) (k x : Int) : share (n + k * d) d x = share n d x + k := by
  unfold share
  rw [show n + k * d - x = n - x + k * d by ring, Int.add_mul_ediv_right _ _ (by omega)]
  ring

theorem share_eq_iff (hd : 0 < d) {x y : Int} :
    share n d x = y ↔ d * (y - 1) ≤ n - x ∧ n - x < d * y := by
  have hmod := Int.emod_add_mul_ediv (n - x) d
  have hlo := Int.emod_nonneg (n - x) (show d ≠ 0 by omega)
  have hhi := Int.emod_lt_of_pos (n - x) hd
  unfold share
  constructor
  · intro h
    subst h
    constructor <;> nlinarith
  · rintro ⟨h1, h2⟩
    have : (n - x) / d = y - 1 := by
      rw [Int.ediv_eq_iff_of_pos hd]
      constructor <;> nlinarith
    omega

theorem share_fixed_iff (hd : 0 < d) {x : Int} :
    share n d x = x ↔ (d + 1) * (x - 1) < n ∧ n < (d + 1) * x := by
  rw [share_eq_iff hd]
  constructor
  · rintro ⟨h1, h2⟩
    constructor <;> nlinarith
  · rintro ⟨h1, h2⟩
    constructor <;> nlinarith

theorem exists_share_fixed (hd : 0 < d) : (∃ x, share n d x = x) ↔ ¬ (d + 1) ∣ n := by
  have hmod := Int.emod_add_mul_ediv n (d + 1)
  have hlo := Int.emod_nonneg n (show d + 1 ≠ 0 by omega)
  have hhi := Int.emod_lt_of_pos n (show 0 < d + 1 by omega)
  constructor
  · rintro ⟨x, hx⟩ ⟨k, rfl⟩
    rw [share_fixed_iff hd] at hx
    have h1 : x - 1 < k := Int.lt_of_mul_lt_mul_left hx.1 (by omega)
    have h2 : k < x := Int.lt_of_mul_lt_mul_left hx.2 (by omega)
    omega
  · intro h
    rw [Int.dvd_iff_emod_eq_zero] at h
    refine ⟨n / (d + 1) + 1, (share_fixed_iff hd).2 ?_⟩
    constructor <;> nlinarith [show 0 < n % (d + 1) by omega]

/-- A step from further off than next to the fixed point `e` comes nearer to it. -/
theorem share_near (hd : 2 ≤ d) {e x : Int} (he : share n d e = e) (hx : 2 ≤ |x - e|) :
    |share n d x - e| < |x - e| := by
  rw [share_eq_iff (by omega)] at he
  have hy := (share_eq_iff (n := n) (x := x) (by omega : 0 < d)).1 rfl
  rcases le_total x e with h | h
  · rw [abs_of_nonpos (by omega : x - e ≤ 0)] at hx ⊢
    have h1 : share n d x - e < e - x := by nlinarith
    have h2 : 0 ≤ share n d x - e := by nlinarith
    rw [abs_of_nonneg h2]
    omega
  · rw [abs_of_nonneg (by omega : 0 ≤ x - e)] at hx ⊢
    have h1 : -(x - e) < share n d x - e := by nlinarith
    have h2 : share n d x - e ≤ 0 := by nlinarith
    rw [abs_of_nonpos h2]
    omega

/-- Next to the fixed point a step may jump over it, but not two of them in a row. -/
theorem share_near_one (hd : 2 ≤ d) {e x : Int} (he : share n d e = e) (hx : |x - e| < 2) :
    share n d (share n d x) = e := by
  have hpos : 0 < d := by omega
  have heq := (share_eq_iff hpos).1 he
  obtain rfl | rfl | rfl : x = e ∨ x = e - 1 ∨ x = e + 1 := by
    have := abs_lt.1 hx
    omega
  · rw [he, he]
  · by_cases h : n - (e - 1) < d * e
    · have : share n d (e - 1) = e := (share_eq_iff hpos).2 ⟨by omega, h⟩
      rw [this, he]
    · have : share n d (e - 1) = e + 1 := (share_eq_iff hpos).2 ⟨by
        rw [Int.add_sub_cancel]; omega, by rw [mul_add]; omega⟩
      rw [this]
      exact (share_eq_iff hpos).2 ⟨by rw [mul_sub] at heq ⊢; omega, by omega⟩
  · by_cases h : d * (e - 1) ≤ n - (e + 1)
    · have : share n d (e + 1) = e := (share_eq_iff hpos).2 ⟨h, by omega⟩
      rw [this, he]
    · have : share n d (e + 1) = e - 1 := (share_eq_iff hpos).2 ⟨by
        rw [mul_sub, mul_sub] at *; omega, by omega⟩
      rw [this]
      exact (share_eq_iff hpos).2 ⟨by omega, by rw [mul_sub] at h; omega⟩

theorem ends_of_fixed_point (hd : 2 ≤ d) {e : Int} (he : share n d e = e) (m : Nat) :
    ∀ {x y : Int}, |x - e| ≤ m + 1 → ∃ t, Ends changed (next (share n d)) (x, y) t := by
  induction m with
  | zero =>
    intro x y hx
    have h2 := share_near_one hd he (x := x) (by simp only [Nat.cast_zero] at hx; omega)
    refine ends_of_next (ends_of_next (ends_of_fixed ?_))
    rw [h2, he]
  | succ m ih =>
    intro x y hx
    rw [Nat.cast_add, Nat.cast_one] at hx
    by_cases h : 2 ≤ |x - e|
    · have := share_near hd he h
      exact ends_of_next (ih (by omega))
    · exact ih (by omega)

theorem settles_iff (hd : 2 ≤ d) {x y : Int} (hxy : x ≠ y) :
    (∃ t, Ends changed (next (share n d)) (x, y) t) ↔ ¬ (d + 1) ∣ n := by
  rw [← exists_share_fixed (show 0 < d by omega)]
  constructor
  · intro h
    by_contra hfix
    exact not_ends_of_ne hxy (fun z hz => hfix ⟨z, hz⟩) h
  · rintro ⟨e, he⟩
    exact ends_of_fixed_point hd he (x - e).natAbs (by rw [Int.abs_eq_natAbs]; omega)

/-! ### What the map goes through from 1 on -/

/-- Either the values from 1 to the first one, or 0 and 1. -/
def Orbit (n d z : Int) : Prop :=
  if 1 ≤ share n d 1 then 1 ≤ z ∧ z ≤ share n d 1 else z = 0 ∨ z = 1

theorem Orbit.one : Orbit n d 1 := by
  unfold Orbit
  split <;> omega

theorem Orbit.nonneg {z : Int} (h : Orbit n d z) : 0 ≤ z := by
  unfold Orbit at h
  split at h <;> omega

theorem Orbit.le {z : Int} (h : Orbit n d z) : z ≤ 1 ∨ z ≤ share n d 1 := by
  unfold Orbit at h
  split at h <;> omega

theorem Orbit.of_zero (h : Orbit n d 0) : share n d 1 ≤ 0 := by
  unfold Orbit at h
  split at h <;> omega

theorem Orbit.step (hd : 2 ≤ d) (h0 : 0 ≤ share n d 1) {z : Int} (h : Orbit n d z) :
    Orbit n d (share n d z) := by
  have hfirst : share n d 1 = 1 + (n - 1) / d := rfl
  unfold Orbit at h ⊢
  split at h
  · rename_i h1
    rw [if_pos h1]
    have hn : 0 ≤ n - 1 := (Int.ediv_nonneg_iff_of_pos (show 0 < d by omega)).1 (by omega)
    have hle : (n - 1) / d ≤ n - 1 := Int.ediv_le_self _ hn
    have hlow : 0 ≤ (n - z) / d := Int.ediv_nonneg (by omega) (by omega)
    exact ⟨by unfold share; omega, share_le (by omega) h.1⟩
  · rename_i h1
    rw [if_neg h1]
    have hzero : share n d 1 = 0 := by omega
    have heq := (share_eq_iff (by omega)).1 hzero
    obtain rfl | rfl := h
    · by_cases hn : n = 0
      · exact .inr ((share_eq_iff (by omega)).2 (by omega))
      · exact .inl ((share_eq_iff (by omega)).2 (by omega))
    · exact .inl hzero

section Simulation

variable {ρ : Type*} {test : ρ → Bool} {once : ρ → ρ} {r : ρ} {val : ρ → Int × Int} {y : Int}

/-- The state of the loop and its numbers, which have not left the orbit. -/
def InOrbit (n d : Int) (val : ρ → Int × Int) (a : ρ) (p : Int × Int) : Prop :=
  val a = p ∧ Orbit n d p.1

variable (hturn : ∀ a, Orbit n d (val a).1 → val (once a) = next (share n d) (val a))
  (hd : 2 ≤ d) (h0 : 0 ≤ share n d 1) (htest : ∀ a, changed (val a) = test a)

include hturn hd h0

theorem InOrbit.turn {a : ρ} {p : Int × Int} (h : InOrbit n d val a p) :
    InOrbit n d val (once a) (next (share n d) p) := by
  obtain ⟨rfl, h2⟩ := h
  exact ⟨hturn a h2, h2.step hd h0⟩

include htest

theorem ends_iff_share (hr : val r = (1, y)) (hy : y ≠ 1) :
    (∃ t, Ends test once r t) ↔ ¬ (d + 1) ∣ n := by
  rw [← settles_iff hd hy.symm]
  have hinit : InOrbit n d val r (1, y) := ⟨hr, Orbit.one⟩
  constructor
  · rintro ⟨t, ht⟩
    have hsim : ∃ p, InOrbit n d val t p ∧ Ends changed (next (share n d)) (1, y) p :=
      ht.simulated hinit (fun a _ h => by rw [← h.1, htest]) fun _ _ h _ => h.turn hturn hd h0
    obtain ⟨p, _, hp⟩ := hsim
    exact ⟨p, hp⟩
  · rintro ⟨t, ht⟩
    obtain ⟨a, _, ha⟩ := ht.simulated (R := fun p a => InOrbit n d val a p) hinit
      (fun _ a h => by rw [← h.1, htest]) fun _ _ h _ => h.turn hturn hd h0
    exact ⟨a, ha⟩

theorem ends_share_fixed (hr : val r = (1, y)) (hy : y ≠ 1) {t : ρ} (ht : Ends test once r t) :
    share n d (val t).1 = (val t).1 ∧ Orbit n d (val t).1 := by
  have hinit : InOrbit n d val r (1, y) := ⟨hr, Orbit.one⟩
  have hsim : ∃ p, InOrbit n d val t p ∧ Ends changed (next (share n d)) (1, y) p :=
    ht.simulated hinit (fun a _ h => by rw [← h.1, htest]) fun _ _ h _ => h.turn hturn hd h0
  obtain ⟨p, hp, hends⟩ := hsim
  rw [hp.1]
  exact ⟨hends.fixed hy.symm, hp.2⟩

end Simulation

end While
