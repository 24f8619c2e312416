import Freemyipod.Thread.Suspend

/-!
# Thread.Wakeup

Wakeup objects lose and invent no signal.

A run is a list of steps. `Pending w` says of the steps so far that `w` was signalled after the
last wait for it came back with `THREAD_OK`; the field `signalled` says the same in every state
(`signalled_iff_pending`), although it is set and cleared in several steps of `wakeup_wait`.
-/

set_option linter.unusedSectionVars false

namespace Freemyipod
namespace Thread

section Defs

variable {τ μ ω : Type}

/-- A step of a run: the state before it, what was done, and what came of it. -/
abbrev Entry (τ μ ω : Type) := Sys τ μ ω × Action τ μ ω × Out μ ω

def Entry.signal (w : ω) (e : Entry τ μ ω) : Prop := e.2.1.signals = some w

def Entry.calls (w : ω) (e : Entry τ μ ω) : Prop := ∃ timeout, e.2.1 = .call (.wakeupWait w timeout)

def Entry.returns (w : ω) (code : Int) (e : Entry τ μ ω) : Prop := e.2.2 = .wait w code

/-- `w` was signalled, and no wait for it has come back with `THREAD_OK` since. -/
def Pending (w : ω) (es : List (Entry τ μ ω)) : Prop :=
  ∃ pre e post, es = pre ++ e :: post ∧ Entry.signal w e ∧ ∀ x ∈ post, ¬ Entry.returns w threadOk x

/-- Nobody calls `wakeup_wait w` while another thread is in it. -/
def OneWaiter (w : ω) (z : Sys τ μ ω) (a : Action τ μ ω) : Prop :=
  (∃ timeout, a = .call (.wakeupWait w timeout)) →
    ∀ t, t ≠ z.sched.currentThread → ¬ Inside w (z.pc t)

/-- No thread is in `wakeup_wait w`. -/
def Unawaited (w : ω) (z : Sys τ μ ω) : Prop := ∀ t, ¬ Inside w (z.pc t)

end Defs

variable {τ μ ω : Type} [DecidableEq τ] [DecidableEq μ] [DecidableEq ω] [Fintype τ] [Fintype μ]
  {mc : Machine τ ω} {z z₀ z' : Sys τ μ ω} {w : ω} {a : Action τ μ ω} {o : Out μ ω}
  {es : List (Entry τ μ ω)}

theorem not_pending_nil : ¬ Pending w ([] : List (Entry τ μ ω)) := by
  rintro ⟨pre, e, post, h, -⟩
  simp at h

theorem pending_concat {e : Entry τ μ ω} :
    Pending w (es ++ [e]) ↔ Entry.signal w e ∨ Pending w es ∧ ¬ Entry.returns w threadOk e := by
  constructor
  · rintro ⟨pre, f, post, h, hf, hpost⟩
    rcases List.eq_nil_or_concat post with rfl | ⟨post, g, rfl⟩
    · obtain ⟨-, h2⟩ := List.append_inj' h rfl
      cases h2
      exact .inl hf
    · rw [List.concat_eq_append] at h hpost
      rw [← List.cons_append, ← List.append_assoc] at h
      obtain ⟨h1, h2⟩ := List.append_inj' h rfl
      cases h2
      exact .inr ⟨⟨pre, f, post, h1, hf, fun x hx => hpost x (List.mem_append_left _ hx)⟩,
        hpost _ (List.mem_append_right _ List.mem_cons_self)⟩
  · rintro (he | ⟨⟨pre, f, post, rfl, hf, hpost⟩, he⟩)
    · exact ⟨es, e, [], rfl, he, fun _ hx => nomatch hx⟩
    · refine ⟨pre, f, post ++ [e], by simp, hf, fun x hx => ?_⟩
      rcases List.mem_append.mp hx with hx | hx
      · exact hpost x hx
      · rw [List.mem_singleton] at hx
        rw [hx]
        exact he

/-- What relates the fields of `w` and the points of the threads to the steps so far. -/
structure WakeInv (mc : Machine τ ω) (w : ω) (es : List (Entry τ μ ω)) (z : Sys τ μ ω) : Prop where
  inv : ∃ W O, Inv mc z W O
  pending : (z.sched.wkp w).signalled = true ↔ Pending w es
  alone : ∀ t u, Inside w (z.pc t) → Inside w (z.pc u) → t = u
  reset : ∀ t, z.pc t = .waitReset w → (z.sched.wkp w).signalled = true

theorem WakeInv.step (h : WakeInv mc w es z) (hok : OneWaiter w z a)
    (hr : step mc z a = some (z', o)) : WakeInv mc w (es ++ [(z, a, o)]) z' := by
  obtain ⟨W, O, hi⟩ := h.inv
  have hs := step_facts hi hr
  have hw := hs.wake w
  refine ⟨hs.inv, ?_, fun t u ht hu => ?_, fun t ht => ?_⟩
  · rw [pending_concat, ← h.pending]
    by_cases hsig : a.signals = some w
    · exact iff_of_true (hw.signal hsig).1 (.inl hsig)
    · by_cases hret : o = .wait w threadOk
      · rw [(hw.ok hret).1]
        refine iff_of_false (by simp) ?_
        rintro (h1 | ⟨-, h1⟩)
        · exact hsig h1
        · exact h1 hret
      · have hsame : (z'.sched.wkp w).signalled = (z.sched.wkp w).signalled := by
          by_cases hto : o = .wait w threadTimeout
          · obtain ⟨h1, h2⟩ := hw.timeout hto
            rw [h1, h2]
          · refine hw.quiet hsig fun c hc => ?_
            rcases hw.code c hc with rfl | rfl
            · exact hret hc
            · exact hto hc
        rw [hsame]
        constructor
        · exact fun h1 => .inr ⟨h1, hret⟩
        · rintro (h1 | ⟨h1, -⟩)
          · exact absurd h1 hsig
          · exact h1
  · rcases hw.enter t ht with h1 | ⟨h1, hc⟩ <;> rcases hw.enter u hu with h2 | ⟨h2, hc'⟩
    · exact h.alone t u h1 h2
    · by_contra hne
      exact hok hc' t (fun he => hne (he.trans h2.symm)) h1
    · by_contra hne
      exact hok hc u (fun he => hne (h1.trans he.symm)) h2
    · exact h1.trans h2.symm
  · rcases hw.reset t ht with h1 | h1
    · have hin : Inside w (z.pc t) := .inr (.inr (.inr h1))
      have hsig := h.reset t h1
      by_cases hs' : a.signals = some w
      · exact (hw.signal hs').1
      rw [hw.quiet hs' fun c hc => ?_]
      · exact hsig
      rcases hw.code c hc with rfl | rfl
      · -- the wait that came back is the one that is about to reset the flag
        have hback := hw.returned _ hc
        have htc : t = z.sched.currentThread := by
          rcases (hw.ok hc).2 with ⟨-, hcall⟩ | hpc
          · by_contra hne
            exact hok hcall t hne hin
          · exact h.alone _ _ hin (.inr (.inr (.inr hpc)))
        rw [htc, hback] at ht
        cases ht
      · rw [(hw.timeout hc).1] at hsig
        cases hsig
    · exact h1

theorem wakeInv_reachable (h₀ : Initial mc z₀)
    (hr : Lts.Runs (step mc) (OneWaiter w) z₀ es z) : WakeInv mc w es z := by
  refine hr.invariant_trace (I := WakeInv mc w) ⟨⟨_, _, h₀.inv⟩, ?_, ?_, ?_⟩
    fun l x b y p hx hb hs => hx.step hb hs
  · rw [h₀.wakeups]
    exact iff_of_false (by simp) not_pending_nil
  · intro t u ht
    rw [h₀.pc] at ht
    exact absurd ht (not_inside_user w)
  · intro t ht
    rw [h₀.pc] at ht
    cases ht

/-- The field `signalled` counts the signals that no wait has consumed, up to one. -/
theorem signalled_iff_pending (h₀ : Initial mc z₀)
    (hr : Lts.Runs (step mc) (OneWaiter w) z₀ es z) :
    (z.sched.wkp w).signalled = true ↔ Pending w es :=
  (wakeInv_reachable h₀ hr).pending

/-- A wait that comes back with `THREAD_OK` has a signal to consume. -/
theorem pending_of_ok {pre post : List (Entry τ μ ω)} {e : Entry τ μ ω} (h₀ : Initial mc z₀)
    (hr : Lts.Runs (step mc) (OneWaiter w) z₀ es z) (he : es = pre ++ e :: post)
    (hret : Entry.returns w threadOk e) : Pending w pre := by
  obtain ⟨y, a, o⟩ := e
  obtain ⟨hpre, -, v, hstep, -⟩ := hr.split he
  have hinv := wakeInv_reachable h₀ hpre
  obtain ⟨W, O, hi⟩ := hinv.inv
  rw [← hinv.pending]
  rcases (((step_facts hi hstep).wake w).ok hret).2 with ⟨hsig, -⟩ | hpc
  · exact hsig
  · exact hinv.reset _ hpc

/-- A wait comes back with `THREAD_TIMEOUT` only if there is no signal to consume. -/
theorem not_pending_of_timeout {pre post : List (Entry τ μ ω)} {e : Entry τ μ ω}
    (h₀ : Initial mc z₀) (hr : Lts.Runs (step mc) (OneWaiter w) z₀ es z)
    (he : es = pre ++ e :: post) (hret : Entry.returns w threadTimeout e) : ¬ Pending w pre := by
  obtain ⟨y, a, o⟩ := e
  obtain ⟨hpre, -, v, hstep, -⟩ := hr.split he
  have hinv := wakeInv_reachable h₀ hpre
  obtain ⟨W, O, hi⟩ := hinv.inv
  rw [← hinv.pending, (((step_facts hi hstep).wake w).timeout hret).1]
  simp

/-- As long as nobody waits for a signalled wakeup, it stays signalled. -/
theorem signalled_step (hi : ∃ W O, Inv mc z W O) (hr : step mc z a = some (z', o))
    (hcall : ¬ ∃ timeout, a = .call (.wakeupWait w timeout)) (hu : Unawaited w z) :
    Unawaited w z' ∧ ((z.sched.wkp w).signalled = true ∨ a.signals = some w →
      (z'.sched.wkp w).signalled = true) := by
  obtain ⟨W, O, hi⟩ := hi
  have hw := (step_facts hi hr).wake w
  refine ⟨fun t ht => ?_, fun hsig => ?_⟩
  · rcases hw.enter t ht with h1 | ⟨-, h1⟩
    · exact hu t h1
    · exact hcall h1
  · by_cases hs : a.signals = some w
    · exact (hw.signal hs).1
    have hsig := hsig.resolve_right hs
    rw [hw.quiet hs fun c hc => ?_]
    · exact hsig
    rcases hw.code c hc with rfl | rfl
    · rcases (hw.ok hc).2 with ⟨-, h1⟩ | h1
      · exact hcall h1
      · exact hu _ (.inr (.inr (.inr h1)))
    · rw [(hw.timeout hc).1] at hsig
      cases hsig

/-- The next wait after a signal that nobody was waiting for comes back at once. -/
theorem next_wait_ok {pre mid post : List (Entry τ μ ω)} {e f : Entry τ μ ω}
    (h₀ : Initial mc z₀) (hr : Lts.Runs (step mc) (OneWaiter w) z₀ es z)
    (hes : es = pre ++ e :: (mid ++ f :: post)) (he : Entry.signal w e) (hu : Unawaited w e.1)
    (hmid : ∀ x ∈ mid, ¬ Entry.calls w x) (hf : Entry.calls w f) :
    Entry.returns w threadOk f := by
  obtain ⟨y, a, o⟩ := e
  obtain ⟨x, b, p⟩ := f
  obtain ⟨hpre, -, v, hstep, hpost⟩ := hr.split hes
  obtain ⟨hrun, -, v', hstep', -⟩ := hpost.split rfl
  have hcall : ¬ ∃ timeout, a = .call (.wakeupWait w timeout) := by
    rintro ⟨timeout, rfl⟩
    cases he
  have hiy := (wakeInv_reachable h₀ hpre).inv
  obtain ⟨hu', hsig'⟩ := signalled_step hiy hstep hcall hu
  obtain ⟨W, O, hi⟩ := hiy
  have hx : (∃ W O, Inv mc x W O) ∧ Unawaited w x ∧ (x.sched.wkp w).signalled = true := by
    have hrun' : Lts.Runs (step mc)
        (fun _ b => ¬ ∃ timeout, b = .call (.wakeupWait w timeout)) v mid x :=
      hrun.of_forall fun g hg _ => hmid g hg
    refine hrun'.invariant
      (I := fun x => (∃ W O, Inv mc x W O) ∧ Unawaited w x ∧ (x.sched.wkp w).signalled = true)
      ⟨(step_facts hi hstep).inv, hu', hsig' (.inr he)⟩ ?_
    rintro x b x' q ⟨hix, hux, hsx⟩ hb hs
    obtain ⟨h1, h2⟩ := signalled_step hix hs hb hux
    obtain ⟨W, O, hi⟩ := hix
    exact ⟨(step_facts hi hs).inv, h1, h2 (.inl hsx)⟩
  obtain ⟨⟨W', O', hi'⟩, -, hsx⟩ := hx
  obtain ⟨timeout, rfl⟩ := hf
  exact ((step_facts hi' hstep').wake w).call timeout rfl hsx

/-- Wakeup objects lose and invent no signal, as long as one thread at a time waits. -/
theorem wakeup_signals (h₀ : Initial mc z₀)
    (hr : Lts.Runs (step mc) (OneWaiter w) z₀ es z) :
    (∀ pre e post, es = pre ++ e :: post → Entry.returns w threadOk e → Pending w pre) ∧
    (∀ pre e post, es = pre ++ e :: post → Entry.returns w threadTimeout e → ¬ Pending w pre) ∧
    (∀ pre e mid f post, es = pre ++ e :: (mid ++ f :: post) → Entry.signal w e →
      Unawaited w e.1 → (∀ x ∈ mid, ¬ Entry.calls w x) → Entry.calls w f →
      Entry.returns w threadOk f) :=
  ⟨fun _ _ _ => pending_of_ok h₀ hr, fun _ _ _ => not_pending_of_timeout h₀ hr,
    fun _ _ _ _ _ => next_wait_ok h₀ hr⟩

/-- The second thread waits for the wakeup with a timeout, and the first signals it in time. -/
theorem wakeup_signals_run : ∃ (z₁ z₂ z₃ : Sys Trio Unit Unit) (o : Out Unit Unit)
    (es : List (Entry Trio Unit Unit)),
    Lts.exec (step bench) (booted bench [.idle, .first, .second]) [.irq .timer, .call .yield, .run] = some z₁ ∧
      step bench z₁ (.call (.wakeupWait () 500)) = some (z₂, o) ∧
      Lts.exec (step bench) z₂ [.run, .call (.wakeupSignal ()), .call .yield, .run, .run, .run,
        .run] = some z₃ ∧
      Lts.Runs (step bench) (OneWaiter ()) (booted bench [.idle, .first, .second]) es z₃ ∧
      ∀ pre e post, es = pre ++ e :: post → Entry.returns () threadOk e → Pending () pre := by
  have hex : (Lts.exec (step bench) (booted bench [.idle, .first, .second])
      [.irq .timer, .call .yield, .run]).any (fun z₁ : Sys Trio Unit Unit =>
        decide (∀ t, z₁.pc t = .user) &&
        (step bench z₁ (.call (.wakeupWait () 500))).any fun r =>
          (Lts.exec (step bench) r.1 [.run, .call (.wakeupSignal ()), .call .yield, .run, .run,
            .run, .run]).isSome) = true := by decide +kernel
  obtain ⟨z₁, hz₁, hb⟩ := Option.any_eq_true _ _ |>.mp hex
  simp only [Bool.and_eq_true, decide_eq_true_eq, Option.any_eq_true, Prod.exists,
    Option.isSome_iff_exists] at hb
  obtain ⟨hpc, z₂, o, hs, z₃, hz₃⟩ := hb
  obtain ⟨es₁, hes₁, hr₁⟩ := Lts.exec_runs hz₁
  obtain ⟨es₂, hes₂, hr₂⟩ := Lts.exec_runs hz₃
  have hquiet : ∀ (l : List (Action Trio Unit Unit)) (es : List (Entry Trio Unit Unit)),
      l.all (fun a => match a with | .call (.wakeupWait _ _) => false | _ => true) = true →
      es.map (fun e => e.2.1) = l →
      ∀ e ∈ es, OneWaiter () e.1 e.2.1 := by
    rintro l es hl rfl e he ⟨timeout, hc⟩
    have := List.all_eq_true.mp hl _ (List.mem_map_of_mem he)
    simp [hc] at this
  have hrun : Lts.Runs (step bench) (OneWaiter ()) (booted bench [.idle, .first, .second])
      (es₁ ++ [(z₁, .call (.wakeupWait () 500), o)] ++ es₂) z₃ := by
    refine ((hr₁.of_forall fun e he _ => hquiet _ _ rfl hes₁ e he).trans
      (.single (fun _ t _ => ?_) hs)).trans (hr₂.of_forall fun e he _ => hquiet _ _ rfl hes₂ e he)
    rw [hpc]
    exact not_inside_user ()
  exact ⟨z₁, z₂, z₃, o, _, hz₁, hs, hz₃, hrun, (wakeup_signals (booted_initial _ _) hrun).1⟩

end Thread
end Freemyipod
