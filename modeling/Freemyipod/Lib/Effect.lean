import Mathlib.Init

/-!
# Lib.Effect

Total correctness of programs that carry a state and may stop on a fault: `StateT σ (Except ε) α`.

* `Wp p s Q`: from `s` the program `p` does not stop on a fault, and its result and final state
  meet `Q`.
* `wp_pure`, `wp_bind`, `wp_get`, ...: one rule for each way to build a program.
* `loop`, `loopUntil`: counting loops, without and with an early way out, and their invariant
  rules `wp_loop` and `wp_loopUntil`.
* `Reads p`: `p` only looks at the state.
* `Ends E p s Q`: from `s` the program `p` stops on a fault that meets `E`, or its result and final
  state meet `Q`. There is one rule for each way to build a program again.
* `Keeps E P p`: from every state with `P` the program `p` ends in one, or stops on a fault that
  meets `E`; closed under each way to build a program.
-/

namespace Effect

variable {σ ε α β : Type}

/-- From `s`, `p` ends without a fault, in a result and a state that meet `Q`. -/
def Wp (p : StateT σ (Except ε) α) (s : σ) (Q : α → σ → Prop) : Prop :=
  ∃ a t, p.run s = .ok (a, t) ∧ Q a t

theorem Wp.mono {p : StateT σ (Except ε) α} {s : σ} {Q R : α → σ → Prop} (h : Wp p s Q)
    (hqr : ∀ a t, Q a t → R a t) : Wp p s R := by
  obtain ⟨a, t, hrun, hq⟩ := h
  exact ⟨a, t, hrun, hqr a t hq⟩

/-- A program has one outcome, so two things proved about it hold of the same outcome. -/
theorem Wp.and {p : StateT σ (Except ε) α} {s : σ} {Q R : α → σ → Prop} (h : Wp p s Q)
    (h' : Wp p s R) : Wp p s fun a t => Q a t ∧ R a t := by
  obtain ⟨a, t, hrun, hq⟩ := h
  obtain ⟨a', t', hrun', hr⟩ := h'
  rw [hrun] at hrun'
  cases hrun'
  exact ⟨a, t, hrun, hq, hr⟩

theorem wp_of_run {p : StateT σ (Except ε) α} {s t : σ} {a : α} {Q : α → σ → Prop}
    (hrun : p.run s = .ok (a, t)) : Wp p s Q ↔ Q a t := by
  constructor
  · rintro ⟨a', t', hrun', hq⟩
    rw [hrun] at hrun'
    cases hrun'
    exact hq
  · intro hq
    exact ⟨a, t, hrun, hq⟩

@[simp] theorem wp_pure (a : α) (s : σ) (Q : α → σ → Prop) :
    Wp (ε := ε) (pure a) s Q ↔ Q a s := wp_of_run rfl

@[simp] theorem wp_get (s : σ) (Q : σ → σ → Prop) :
    Wp (ε := ε) get s Q ↔ Q s s := wp_of_run rfl

@[simp] theorem wp_set (s t : σ) (Q : PUnit → σ → Prop) :
    Wp (ε := ε) (set t) s Q ↔ Q ⟨⟩ t := wp_of_run rfl

@[simp] theorem wp_modify (f : σ → σ) (s : σ) (Q : PUnit → σ → Prop) :
    Wp (ε := ε) (modify f) s Q ↔ Q ⟨⟩ (f s) := wp_of_run rfl

@[simp] theorem wp_throw (e : ε) (s : σ) (Q : α → σ → Prop) :
    ¬ Wp (throw e : StateT σ (Except ε) α) s Q := by
  rintro ⟨a, t, hrun, -⟩
  cases hrun

@[simp] theorem wp_bind (p : StateT σ (Except ε) α) (f : α → StateT σ (Except ε) β) (s : σ)
    (Q : β → σ → Prop) : Wp (p >>= f) s Q ↔ Wp p s fun a t => Wp (f a) t Q := by
  constructor
  · rintro ⟨b, u, hrun, hq⟩
    rw [StateT.run_bind] at hrun
    cases hp : p.run s with
    | error e => rw [hp] at hrun; cases hrun
    | ok r =>
      rw [hp] at hrun
      exact ⟨r.1, r.2, hp, b, u, hrun, hq⟩
  · rintro ⟨a, t, hrun, b, u, hrun', hq⟩
    refine ⟨b, u, ?_, hq⟩
    rw [StateT.run_bind, hrun]
    exact hrun'

theorem wp_ite {c : Prop} [Decidable c] {p q : StateT σ (Except ε) α} {s : σ}
    {Q : α → σ → Prop} :
    Wp (if c then p else q) s Q ↔ (c → Wp p s Q) ∧ (¬ c → Wp q s Q) := by
  by_cases h : c
  · simp [h]
  · simp [h]

/-! ## Loops -/

/-- `for (i = 0; i < n; i++) body(i);` -/
def loop (n : Nat) (body : Nat → StateT σ (Except ε) Unit) : StateT σ (Except ε) Unit :=
  match n with
  | 0 => pure ()
  | n + 1 => do
    loop n body
    body n

/-- `I` holds before every turn of the loop, and after the last. -/
theorem wp_loop {body : Nat → StateT σ (Except ε) Unit} (I : Nat → σ → Prop) {n : Nat} {s : σ}
    (h0 : I 0 s) (hstep : ∀ i t, i < n → I i t → Wp (body i) t fun _ u => I (i + 1) u) :
    Wp (loop n body) s fun _ t => I n t := by
  induction n with
  | zero => exact (wp_pure _ _ _).2 h0
  | succ n ih =>
    rw [loop, wp_bind]
    refine (ih fun i t hi => hstep i t (by omega)).mono fun _ t ht => ?_
    exact hstep n t (by omega) ht

/-- `for (; i < n; i++) if ((r = body(i)) says so) return r;` with `k` turns left. -/
@[grind =] def loopUntil (k i : Nat) (body : Nat → StateT σ (Except ε) (Option β)) :
    StateT σ (Except ε) (Option β) :=
  match k with
  | 0 => pure none
  | k + 1 => do
    match ← body i with
    | some r => pure (some r)
    | none => loopUntil k (i + 1) body

/-- A loop none of whose turns takes the early way out: `I` holds before every turn. -/
theorem wp_loopUntil {body : Nat → StateT σ (Except ε) (Option β)} (I : Nat → σ → Prop)
    {k i : Nat} {s : σ} (h0 : I i s)
    (hstep : ∀ j t, i ≤ j → j < i + k → I j t →
      Wp (body j) t fun r u => r = none ∧ I (j + 1) u) :
    Wp (loopUntil k i body) s fun r t => r = none ∧ I (i + k) t := by
  induction k generalizing i s with
  | zero => exact (wp_pure _ _ _).2 ⟨rfl, h0⟩
  | succ k ih =>
    rw [loopUntil, wp_bind]
    refine (hstep i s (by omega) (by omega) h0).mono fun r t ht => ?_
    obtain ⟨rfl, ht⟩ := ht
    have hk := ih ht fun j u hij hj => hstep j u (by omega) (by omega)
    rw [show i + (k + 1) = i + 1 + k by omega]
    exact hk

/-- A loop that only looks at the state. -/
theorem wp_loopUntil_same {body : Nat → StateT σ (Except ε) (Option β)} {k i : Nat} {s : σ}
    (hstep : ∀ j, i ≤ j → j < i + k → Wp (body j) s fun _ u => u = s) :
    Wp (loopUntil k i body) s fun _ t => t = s := by
  induction k generalizing i with
  | zero => exact (wp_pure _ _ _).2 rfl
  | succ k ih =>
    rw [loopUntil, wp_bind]
    refine (hstep i (by omega) (by omega)).mono fun r t ht => ?_
    subst ht
    cases r with
    | some b => exact (wp_pure _ _ _).2 rfl
    | none => exact ih fun j hij hj => hstep j (by omega) (by omega)

/-! ## Programs that only look at the state -/

/-- If `p` ends without a fault, it leaves the state as it was. -/
def Reads (p : StateT σ (Except ε) α) : Prop :=
  ∀ s Q, Wp p s Q → ∃ a, Q a s

namespace Reads

theorem pure (a : α) : Reads (Pure.pure a : StateT σ (Except ε) α) :=
  fun _ _ h => ⟨a, (wp_pure _ _ _).1 h⟩

theorem get : Reads (MonadState.get : StateT σ (Except ε) σ) :=
  fun s _ h => ⟨s, (wp_get _ _).1 h⟩

theorem throw (e : ε) : Reads (MonadExcept.throw e : StateT σ (Except ε) α) :=
  fun _ _ h => absurd h (wp_throw _ _ _)

theorem bind {p : StateT σ (Except ε) α} {f : α → StateT σ (Except ε) β} (hp : Reads p)
    (hf : ∀ a, Reads (f a)) : Reads (p >>= f) := by
  intro s Q h
  obtain ⟨a, ha⟩ := hp s _ ((wp_bind _ _ _ _).1 h)
  exact hf a s Q ha

theorem loopUntil {body : Nat → StateT σ (Except ε) (Option β)} (h : ∀ i, Reads (body i))
    (k i : Nat) : Reads (Effect.loopUntil k i body) := by
  induction k generalizing i with
  | zero => exact pure none
  | succ k ih =>
    rw [Effect.loopUntil]
    refine (h i).bind fun r => ?_
    cases r with
    | some b => exact pure (some b)
    | none => exact ih (i + 1)

end Reads

/-! ## Programs that may stop -/

/-- From `s`, `p` stops on a fault that meets `E`, or ends in a result and a state that meet `Q`. -/
def Ends (E : ε → Prop) (p : StateT σ (Except ε) α) (s : σ) (Q : α → σ → Prop) : Prop :=
  (∀ a t, p.run s = .ok (a, t) → Q a t) ∧ ∀ e, p.run s = .error e → E e

section

variable {E F : ε → Prop} {p : StateT σ (Except ε) α} {s t : σ} {Q R : α → σ → Prop}

theorem Ends.ok (h : Ends E p s Q) {a : α} (hr : p.run s = .ok (a, t)) : Q a t := h.1 a t hr

theorem Ends.error (h : Ends E p s Q) {e : ε} (hr : p.run s = .error e) : E e := h.2 e hr

theorem Ends.mono (h : Ends E p s Q) (hq : ∀ a t, Q a t → R a t) : Ends E p s R :=
  ⟨fun a t hr => hq a t (h.1 a t hr), h.2⟩

theorem Ends.faults (h : Ends E p s Q) (he : ∀ e, E e → F e) : Ends F p s Q :=
  ⟨h.1, fun e hr => he e (h.2 e hr)⟩

theorem Ends.and (h : Ends E p s Q) (h' : Ends F p s R) : Ends E p s fun a t => Q a t ∧ R a t :=
  ⟨fun a t hr => ⟨h.1 a t hr, h'.1 a t hr⟩, h.2⟩

theorem Wp.ends (h : Wp p s Q) : Ends E p s Q := by
  obtain ⟨a, t, hrun, hq⟩ := h
  refine ⟨fun b u hr => ?_, fun e hr => ?_⟩
  · rw [hrun] at hr
    cases hr
    exact hq
  · rw [hrun] at hr
    cases hr

theorem ends_of_run {a : α} (hrun : p.run s = .ok (a, t)) : Ends E p s Q ↔ Q a t := by
  constructor
  · exact fun h => h.1 a t hrun
  · refine fun hq => ⟨fun b u hr => ?_, fun e hr => ?_⟩
    · rw [hrun] at hr
      cases hr
      exact hq
    · rw [hrun] at hr
      cases hr

@[simp] theorem ends_pure (a : α) : Ends E (pure a) s Q ↔ Q a s := ends_of_run rfl

@[simp] theorem ends_get {Q : σ → σ → Prop} : Ends E get s Q ↔ Q s s := ends_of_run rfl

@[simp] theorem ends_set {Q : PUnit → σ → Prop} : Ends E (set t) s Q ↔ Q ⟨⟩ t := ends_of_run rfl

@[simp] theorem ends_modify {f : σ → σ} {Q : PUnit → σ → Prop} :
    Ends E (modify f) s Q ↔ Q ⟨⟩ (f s) := ends_of_run rfl

@[simp] theorem ends_throw {e : ε} :
    Ends E (throw e : StateT σ (Except ε) α) s Q ↔ E e := by
  constructor
  · exact fun h => h.2 e rfl
  · refine fun he => ⟨fun a t hr => ?_, fun e' hr => ?_⟩
    · cases hr
    · cases hr
      exact he

@[simp] theorem ends_bind {f : α → StateT σ (Except ε) β} {Q : β → σ → Prop} :
    Ends E (p >>= f) s Q ↔ Ends E p s fun a t => Ends E (f a) t Q := by
  simp only [Ends, StateT.run_bind]
  cases hp : p.run s with
  | error e => simp [Bind.bind, Except.bind]
  | ok r => simp [Bind.bind, Except.bind, Prod.ext_iff]

theorem ends_ite {c : Prop} [Decidable c] {q : StateT σ (Except ε) α} :
    Ends E (if c then p else q) s Q ↔ (c → Ends E p s Q) ∧ (¬ c → Ends E q s Q) := by
  by_cases h : c
  · simp [h]
  · simp [h]

end

/-! ## Programs that keep a property of the state -/

/-- From a state with `P`, `p` ends in one or stops on a fault that meets `E`. -/
def Keeps (E : ε → Prop) (P : σ → Prop) (p : StateT σ (Except ε) α) : Prop :=
  ∀ s, P s → Ends E p s fun _ t => P t

namespace Keeps

variable {E : ε → Prop} {P : σ → Prop}

theorem pure (a : α) : Keeps E P (Pure.pure a : StateT σ (Except ε) α) :=
  fun _ hs => (ends_pure a).2 hs

theorem throw {e : ε} (he : E e) : Keeps E P (MonadExcept.throw e : StateT σ (Except ε) α) :=
  fun _ _ => ends_throw.2 he

theorem modify {f : σ → σ} (hf : ∀ s, P s → P (f s)) :
    Keeps E P (modify f : StateT σ (Except ε) PUnit) :=
  fun s hs => ends_modify.2 (hf s hs)

theorem set {t : σ} (ht : P t) : Keeps E P (MonadStateOf.set t : StateT σ (Except ε) PUnit) :=
  fun _ _ => ends_set.2 ht

theorem bind {p : StateT σ (Except ε) α} {f : α → StateT σ (Except ε) β} (hp : Keeps E P p)
    (hf : ∀ a, Keeps E P (f a)) : Keeps E P (p >>= f) := by
  intro s hs
  rw [ends_bind]
  exact (hp s hs).mono fun a t ht => hf a t ht

/-- The state that is read has the property. -/
theorem get {f : σ → StateT σ (Except ε) β} (hf : ∀ s, P s → Keeps E P (f s)) :
    Keeps E P (MonadState.get >>= f) := by
  intro s hs
  rw [ends_bind, ends_get]
  exact hf s hs s hs

theorem ite {c : Prop} [Decidable c] {p q : StateT σ (Except ε) α} (hp : c → Keeps E P p)
    (hq : ¬ c → Keeps E P q) : Keeps E P (if c then p else q) := by
  intro s hs
  rw [ends_ite]
  exact ⟨fun h => hp h s hs, fun h => hq h s hs⟩

theorem loop {n : Nat} {body : Nat → StateT σ (Except ε) Unit} (h : ∀ i < n, Keeps E P (body i)) :
    Keeps E P (Effect.loop n body) := by
  induction n with
  | zero => exact pure ()
  | succ n ih =>
    rw [Effect.loop]
    exact (ih fun i hi => h i (by omega)).bind fun _ => h n (by omega)

theorem loopUntil {body : Nat → StateT σ (Except ε) (Option β)} {k i : Nat}
    (h : ∀ j, i ≤ j → j < i + k → Keeps E P (body j)) : Keeps E P (Effect.loopUntil k i body) := by
  induction k generalizing i with
  | zero => exact pure none
  | succ k ih =>
    rw [Effect.loopUntil]
    refine (h i (by omega) (by omega)).bind fun r => ?_
    cases r with
    | some b => exact pure (some b)
    | none => exact ih fun j hij hj => h j (by omega) (by omega)

end Keeps

end Effect
