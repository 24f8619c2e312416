import Freemyipod.Thread.Calls

/-!
# Thread.Steps

One step of the whole system: `StepFacts` says what a step keeps and what it can change, and
`step_facts` that every step is so.
-/

set_option linter.unusedSectionVars false

namespace Freemyipod
namespace Thread

section Defs

variable {τ μ ω : Type}

namespace Action

/-- The wakeup that a step signals. -/
def signals : Action τ μ ω → Option ω
  | .call (.wakeupSignal w) => some w
  | .irq (.wakeupSignal w) => some w
  | _ => none

/-- The thread that a step suspends, called by `cur`. -/
def suspends (cur : τ) : Action τ μ ω → Option τ
  | .call (.threadSuspend t) => some (t.getD cur)
  | .irq (.threadSuspend t) => some (t.getD cur)
  | _ => none

/-- The thread that a step resumes, called by `cur`. -/
def resumes (cur : τ) : Action τ μ ω → Option τ
  | .call (.threadResume t) => some (t.getD cur)
  | .irq (.threadResume t) => some (t.getD cur)
  | _ => none

end Action

/-- What a wait for `w` gives back that leaves its critical section so. -/
def Leave.waitOut (w : ω) : Leave → Out μ ω
  | .ret code => .wait w code
  | .yield => .none

/-- The points of `wakeup_wait w` behind its critical section. -/
def Inside (w : ω) (p : Pc μ ω) : Prop :=
  p = .yield (.waitClear w) ∨ p = .waitClear w ∨ p = .waitTest w ∨ p = .waitReset w

/-- If `t` still runs although it is suspended, it is about to yield. -/
def Away (z : Sys τ μ ω) (t : τ) : Prop :=
  t = z.sched.currentThread → (z.sched.thr t).state = .suspended → ∃ p, z.pc t = .yield p

/-- What a step does to one wakeup object and the threads waiting for it. -/
structure WakeFacts (z : Sys τ μ ω) (a : Action τ μ ω) (z' : Sys τ μ ω) (o : Out μ ω) (w : ω) :
    Prop where
  signal : a.signals = some w → (z'.sched.wkp w).signalled = true ∧ ∀ c, o ≠ .wait w c
  quiet : a.signals ≠ some w → (∀ c, o ≠ .wait w c) →
    (z'.sched.wkp w).signalled = (z.sched.wkp w).signalled
  code : ∀ c, o = .wait w c → c = threadOk ∨ c = threadTimeout
  ok : o = .wait w threadOk → (z'.sched.wkp w).signalled = false ∧
    ((z.sched.wkp w).signalled = true ∧ (∃ timeout, a = .call (.wakeupWait w timeout)) ∨
      z.pc z.sched.currentThread = .waitReset w)
  timeout : o = .wait w threadTimeout →
    (z.sched.wkp w).signalled = false ∧ (z'.sched.wkp w).signalled = false
  returned : ∀ c, o = .wait w c → z'.pc z.sched.currentThread = .user
  call : ∀ timeout, a = .call (.wakeupWait w timeout) → (z.sched.wkp w).signalled = true →
    o = .wait w threadOk
  enter : ∀ t, Inside w (z'.pc t) → Inside w (z.pc t) ∨
    t = z.sched.currentThread ∧ ∃ timeout, a = .call (.wakeupWait w timeout)
  reset : ∀ t, z'.pc t = .waitReset w → z.pc t = .waitReset w ∨ (z'.sched.wkp w).signalled = true

/-- What a step keeps. -/
structure StepFacts (mc : Machine τ ω) (z : Sys τ μ ω) (a : Action τ μ ω) (z' : Sys τ μ ω)
    (o : Out μ ω) : Prop where
  inv : ∃ W O, Inv mc z' W O
  suspended : ∀ t, (z.sched.thr t).state = .suspended → t ≠ mc.idleThread →
    (t = z.sched.currentThread → ∃ p, z.pc t = .yield p) →
    a.resumes z.sched.currentThread ≠ some t →
    (∀ w, a.signals = some w → (z.sched.wkp w).waiter ≠ some t) →
    Kept (z.sched.thr t) (z'.sched.thr t)
  stopped : ∀ t, a.suspends z.sched.currentThread = some t →
    (z.sched.thr t).state ≠ .suspended → t ≠ mc.idleThread →
    Stopped z.sched.usecTimer (z.sched.thr t) (z'.sched.thr t)
  resumed : ∀ t, a.resumes z.sched.currentThread = some t → (z.sched.thr t).state = .suspended →
    Resumed z.sched.usecTimer (z.sched.thr t) (z'.sched.thr t) ∧
      z'.sched.usecTimer = z.sched.usecTimer ∧
      ∀ m, (z'.sched.mtx m).count = (z.sched.mtx m).count
  away : ∀ t, Away z t → (a.suspends z.sched.currentThread = some t →
    t = z.sched.currentThread → (z.sched.thr t).state = .running ∨ ∃ p, z.pc t = .yield p) →
    Away z' t
  unwaited : (∀ t m, a.resumes z.sched.currentThread = some t →
    (z.sched.thr t).state = .suspended → (z.sched.thr t).blockType = .mutex →
    (z.sched.thr t).blockedBy = some (.mutex m) → (z.sched.mtx m).count ≠ 0) →
    Unwaited z.sched → Unwaited z'.sched
  wake : ∀ w, WakeFacts z a z' o w

theorem SameBlock.stopped {x y y' : SchedulerThread τ μ ω} {usec : U32} (h : SameBlock x y)
    (h' : Stopped usec y y') : Stopped usec x y' := by
  obtain ⟨h1, h2, h3, h4, h5⟩ := h'
  refine ⟨h1, h2.trans h.blockType, h3.trans h.blockedBy, h4.trans h.blockedSince, ?_⟩
  rw [h5, h.state, h.timeout, h.blockedSince]

theorem Stopped.kept {x y y' : SchedulerThread τ μ ω} {usec : U32} (h : Stopped usec x y)
    (h' : Kept y y') : Stopped usec x y' := by
  refine ⟨?_, h'.blockType.trans h.blockType, h'.blockedBy.trans h.blockedBy,
    h'.blockedSince.trans h.blockedSince, h'.timeout.trans h.timeout⟩
  rcases h'.state with h1 | ⟨h1, -⟩
  · exact h1.trans h.state
  · exact absurd (h.state.symm.trans h1) (by decide)

theorem SameBlock.resumed {x y y' y'' : SchedulerThread τ μ ω} {usec : U32} (h : SameBlock x y)
    (h' : Resumed usec y y') (h'' : SameBlock y' y'') : Resumed usec x y'' := by
  obtain ⟨h1, h2, h3, h4, h5⟩ := h'
  refine ⟨?_, h''.blockType.trans (h2.trans h.blockType),
    h''.blockedBy.trans (h3.trans h.blockedBy), h''.timeout.trans (h4.trans h.timeout),
    fun hb => h''.blockedSince.trans (h5 ?_)⟩
  · rw [h''.state, h1, h.blockType]
  · rwa [h.blockType]

end Defs

variable {τ μ ω : Type} [DecidableEq τ] [DecidableEq μ] [DecidableEq ω] [Fintype τ] [Fintype μ]
  {mc : Machine τ ω} {z z' : Sys τ μ ω} {W : μ → List τ} {O : τ → List μ} {o : Out μ ω}

/-- The running thread, outside of the functions of `thread.c`, may call one. -/
theorem Inv.caller (h : Inv mc z W O) (hu : z.pc z.sched.currentThread = .user)
    (hi : z.sched.currentThread ≠ mc.idleThread) : Caller mc z.sched where
  notBlocked := by
    by_contra hn
    obtain ⟨p, hp⟩ := h.current hn
    rw [hu] at hp
    cases hp
  noWaiter w hw := by
    rcases h.base.waiter w _ hw with hp | hp <;> rw [hu] at hp <;> cases hp
  notIdle := hi

/-- A step that touches no wakeup object and leaves the running thread outside of all waits. -/
theorem wakeFacts_goto {s : Sched τ μ ω} {p : Pc μ ω} {a : Action τ μ ω} {w : ω}
    (hw : s.wkp w = z.sched.wkp w) (ha : a.signals ≠ some w)
    (hc : ∀ timeout, a ≠ .call (.wakeupWait w timeout)) (ho : ∀ c, o ≠ .wait w c)
    (hp : ¬ Inside w p) : WakeFacts z a (z.goto s p) o w where
  signal h := absurd h ha
  quiet _ _ := congrArg Wakeup.signalled hw
  code c h := absurd h (ho c)
  ok h := absurd h (ho _)
  timeout h := absurd h (ho _)
  returned c h := absurd h (ho c)
  call timeout h := absurd h (hc timeout)
  enter t ht := by
    simp only [Sys.goto, Function.update_apply] at ht
    split at ht
    · exact absurd ht hp
    · exact .inl ht
  reset t ht := by
    simp only [Sys.goto, Function.update_apply] at ht
    split at ht
    · exact absurd (.inr (.inr (.inr ht))) hp
    · exact .inl ht

/-- A step that moves no thread. -/
theorem wakeFacts_stay {s : Sched τ μ ω} {a : Action τ μ ω} {w : ω}
    (hs : a.signals = some w → (s.wkp w).signalled = true)
    (hq : a.signals ≠ some w → (s.wkp w).signalled = (z.sched.wkp w).signalled)
    (hc : ∀ timeout, a ≠ .call (.wakeupWait w timeout)) (ho : ∀ c, o ≠ .wait w c) :
    WakeFacts z a ⟨s, z.pc⟩ o w where
  signal h := ⟨hs h, ho⟩
  quiet h _ := hq h
  code c h := absurd h (ho c)
  ok h := absurd h (ho _)
  timeout h := absurd h (ho _)
  returned c h := absurd h (ho c)
  call timeout h := absurd h (hc timeout)
  enter _ ht := .inl ht
  reset _ ht := .inl ht

/-- A call that is not about wakeups, and does not suspend or resume. -/
theorem StepFacts.of_frame {s : Sched τ μ ω} {p : Pc μ ω} {a : Action τ μ ω}
    (hu : z.pc z.sched.currentThread = .user) (hf : Frame mc z.sched s)
    (hcur : s.currentThread = z.sched.currentThread)
    (hb : ∃ W O, Base mc s (Function.update z.pc z.sched.currentThread p) W O)
    (hc : (∀ q, p ≠ .yield q) → (s.thr z.sched.currentThread).blockType = .notBlocked)
    (hs : a.signals = none) (hsu : a.suspends z.sched.currentThread = none)
    (hre : a.resumes z.sched.currentThread = none)
    (hcall : ∀ w timeout, a ≠ .call (.wakeupWait w timeout)) (ho : ∀ w c, o ≠ .wait w c)
    (hp : ∀ w, ¬ Inside w p) : StepFacts mc z a (z.goto s p) o where
  inv := by
    obtain ⟨W, O, hb⟩ := hb
    refine ⟨W, O, hb, fun hn => ?_⟩
    simp only [Sys.goto, hcur, Function.update_self] at hn ⊢
    by_contra hq
    exact hn (hc fun q he => hq ⟨q, he⟩)
  suspended t ht hi hcu _ _ := by
    refine hf.suspended t ht ?_ hi
    rintro rfl
    obtain ⟨q, hq⟩ := hcu rfl
    rw [hu] at hq
    cases hq
  stopped t ht := by rw [hsu] at ht; cases ht
  resumed t ht := by rw [hre] at ht; cases ht
  away t haw _ htc hst := by
    have htc : t = z.sched.currentThread := htc.trans hcur
    obtain ⟨q, hq⟩ := haw htc (hf.fresh _ hst)
    rw [htc, hu] at hq
    cases hq
  unwaited _ := hf.unwaited
  wake w := wakeFacts_goto (congrFun hf.wkp w) (by rw [hs]; exact fun h => nomatch h) (hcall w)
    (ho w) (hp w)

/-! ## Calls -/

theorem not_inside_user (w : ω) : ¬ Inside w (.user : Pc μ ω) := by
  rintro (h | h | h | h) <;> cases h

theorem not_inside_yield {p : After μ ω} {w : ω} (hp : p ≠ .waitClear w) :
    ¬ Inside w (.yield p) := by
  rintro (h | h | h | h) <;> cases h
  exact hp rfl

theorem mutexLock_facts (h : Inv mc z W O) (hu : z.pc z.sched.currentThread = .user)
    (hi : z.sched.currentThread ≠ mc.idleThread) {m : μ} {timeout : U32}
    (hr : stepCall mc z (.mutexLock m timeout) = some (z', o)) :
    StepFacts mc z (.call (.mutexLock m timeout)) z' o := by
  simp only [stepCall, Option.bind_eq_bind, Option.bind_eq_some_iff, Prod.exists] at hr
  obtain ⟨s, l, hl, hr⟩ := hr
  obtain ⟨hf, hcur, hb, hn⟩ := mutexLock_base h.base (h.caller hu hi) hl
  cases l with
  | ret code =>
    cases hr
    exact .of_frame hu hf hcur hb (fun _ => hn nofun) rfl rfl rfl (fun _ _ => nofun)
      (fun _ _ => nofun) not_inside_user
  | yield =>
    cases hr
    exact .of_frame hu hf hcur hb (fun hq => absurd rfl (hq _)) rfl rfl rfl (fun _ _ => nofun)
      (fun _ _ => nofun) fun _ => not_inside_yield nofun

theorem mutexUnlock_facts (h : Inv mc z W O) (hu : z.pc z.sched.currentThread = .user)
    (hi : z.sched.currentThread ≠ mc.idleThread) {m : μ}
    (hr : stepCall mc z (.mutexUnlock m) = some (z', o)) :
    StepFacts mc z (.call (.mutexUnlock m)) z' o := by
  simp only [stepCall, Option.bind_eq_bind, Option.bind_eq_some_iff, Prod.exists,
    Option.some.injEq, Prod.mk.injEq] at hr
  obtain ⟨s, code, hl, rfl, rfl⟩ := hr
  obtain ⟨hf, hcur, hb, hn⟩ := mutexUnlock_base h.base (h.caller hu hi) hl
  exact .of_frame hu hf hcur hb (fun _ => hn) rfl rfl rfl (fun _ _ => nofun)
    (fun _ _ => nofun) not_inside_user

theorem sleep_facts (h : Inv mc z W O) (hu : z.pc z.sched.currentThread = .user)
    (hi : z.sched.currentThread ≠ mc.idleThread) {usecs : U32}
    (hr : stepCall mc z (.sleep usecs) = some (z', o)) :
    StepFacts mc z (.call (.sleep usecs)) z' o := by
  cases hr
  obtain ⟨hf, hcur, hb⟩ := sleep_base h.base (h.caller hu hi) usecs
  exact .of_frame hu hf hcur ⟨W, O, hb⟩ (fun hq => absurd rfl (hq _)) rfl rfl rfl
    (fun _ _ => nofun) (fun _ _ => nofun) fun _ => not_inside_yield nofun

theorem yield_facts (h : Inv mc z W O) (hu : z.pc z.sched.currentThread = .user)
    (hi : z.sched.currentThread ≠ mc.idleThread)
    (hr : stepCall mc z .yield = some (z', o)) : StepFacts mc z (.call .yield) z' o := by
  cases hr
  have hc := h.caller hu hi
  have hb := h.base.goto (p := .yield .user) (by rw [hc.notBlocked]; decide) hc.noWaiter
  exact .of_frame hu (Frame.refl mc _) rfl ⟨W, O, hb⟩ (fun hq => absurd rfl (hq _)) rfl rfl rfl
    (fun _ _ => nofun) (fun _ _ => nofun) fun _ => not_inside_yield nofun

theorem threadSetPriority_facts (h : Inv mc z W O) (hu : z.pc z.sched.currentThread = .user)
    (hi : z.sched.currentThread ≠ mc.idleThread) {t : Option τ} {p : BitVec 8}
    (hr : stepCall mc z (.threadSetPriority t p) = some (z', o)) :
    StepFacts mc z (.call (.threadSetPriority t p)) z' o := by
  cases hr
  have hc := h.caller hu hi
  have hb := h.base.goto (p := .user) (by rw [hc.notBlocked]; decide) hc.noWaiter
  obtain ⟨hs, hb'⟩ := threadSetPriority_base hb t p
  exact .of_frame hu ⟨fun u _ _ _ => (hs u).kept, fun u => (hs u).fresh, id, rfl⟩ rfl ⟨W, O, hb'⟩
    (fun _ => (hs _).blockType.trans hc.notBlocked) rfl rfl rfl (fun _ _ => nofun)
    (fun _ _ => nofun) not_inside_user

theorem wakeupWait_facts (h : Inv mc z W O) (hu : z.pc z.sched.currentThread = .user)
    (hi : z.sched.currentThread ≠ mc.idleThread) {w : ω} {timeout : U32}
    (hr : stepCall mc z (.wakeupWait w timeout) = some (z', o)) :
    StepFacts mc z (.call (.wakeupWait w timeout)) z' o := by
  simp only [stepCall, Option.bind_eq_bind, Option.bind_eq_some_iff, Prod.exists] at hr
  obtain ⟨s, l, hl, hr⟩ := hr
  obtain ⟨hk, hfr, hm, hcur, ⟨W', O', hb⟩, hn⟩ := wakeupWait_base h.base (h.caller hu hi) hl
  -- the critical section of `wakeup_wait` and its three ways out
  have hout : (l = .ret threadOk ∧ (z.sched.wkp w).signalled = true ∧ (s.wkp w).signalled = false ∨
      l ≠ .ret threadOk ∧ (l = .ret threadTimeout ∨ l = .yield) ∧
        (z.sched.wkp w).signalled = false ∧ (s.wkp w).signalled = false) ∧
      ∀ v, v ≠ w → s.wkp v = z.sched.wkp v := by
    simp only [wakeupWait] at hl
    split at hl
    · cases hl
    split at hl
    · rename_i hsig
      cases hl
      exact ⟨.inl ⟨rfl, hsig, by simp⟩, fun v hv => by simp [hv]⟩
    rename_i hsig
    rw [Bool.not_eq_true] at hsig
    split at hl
    · cases hl
      refine ⟨.inr ⟨(fun he => by cases he), .inr rfl, hsig, ?_⟩, fun v hv => ?_⟩
      · simpa [Sched.block] using hsig
      · simp [Sched.block, hv]
    · cases hl
      exact ⟨.inr ⟨by decide, .inl rfl, hsig, hsig⟩, fun _ _ => rfl⟩
  obtain ⟨hout, hother⟩ := hout
  have hz : z' = z.goto s (l.next (.waitClear w)) ∧
      o = l.waitOut w := by
    cases l <;> cases hr <;> exact ⟨rfl, rfl⟩
  obtain ⟨rfl, ho⟩ := hz
  have hcurpc : (z.goto s (l.next (.waitClear w))).pc z.sched.currentThread =
      l.next (.waitClear w) := Function.update_self ..
  have hotherpc : ∀ t, t ≠ z.sched.currentThread →
      (z.goto s (l.next (.waitClear w))).pc t = z.pc t := fun t ht => Function.update_of_ne ht _ _
  refine
    { inv := ⟨W', O', hb, fun hnb => ?_⟩
      suspended := fun t ht _ hcu _ _ => hk t ?_
      stopped := fun t ht => by cases ht
      resumed := fun t ht => by cases ht
      away := fun t haw _ htc hst => ?_
      unwaited := fun _ hun m => ?_
      wake := fun v => ?_ }
  · simp only [Sys.goto, hcur, Function.update_self] at hnb ⊢
    cases l with
    | ret code => exact absurd (hn fun he => by cases he) hnb
    | yield => exact ⟨_, rfl⟩
  · rintro rfl
    obtain ⟨q, hq⟩ := hcu rfl
    rw [hu] at hq
    cases hq
  · have htc : t = z.sched.currentThread := htc.trans hcur
    obtain ⟨q, hq⟩ := haw htc (hfr _ hst)
    rw [htc, hu] at hq
    cases hq
  · simp only [Sys.goto, hm]
    exact hun m
  · by_cases hv : v = w
    · subst hv
      refine
        { signal := fun he => by cases he
          quiet := fun _ hno => ?_
          code := fun c hc => ?_
          ok := fun hok => ?_
          timeout := fun hto => ?_
          returned := fun c hc => ?_
          call := fun t ht hsig => ?_
          enter := fun t ht => ?_
          reset := fun t ht => ?_ }
      · rcases hout with ⟨rfl, _⟩ | ⟨_, _, h1, h2⟩
        · exact absurd ho (hno _)
        · exact h2.trans h1.symm
      · rw [ho] at hc
        rcases hout with ⟨rfl, _⟩ | ⟨_, rfl | rfl, _⟩
        · cases hc; exact .inl rfl
        · cases hc; exact .inr rfl
        · cases hc
      · rw [ho] at hok
        rcases hout with ⟨_, h1, h2⟩ | ⟨hne, _⟩
        · exact ⟨h2, .inl ⟨h1, timeout, rfl⟩⟩
        · cases l with
          | ret code => cases hok; exact absurd rfl hne
          | yield => cases hok
      · rw [ho] at hto
        rcases hout with ⟨rfl, _⟩ | ⟨_, _, h1, h2⟩
        · exact absurd hto (by simp [Leave.waitOut, threadOk, threadTimeout])
        · exact ⟨h1, h2⟩
      · rw [hcurpc]
        cases l with
        | ret code => rfl
        | yield => rw [ho] at hc; cases hc
      · rcases hout with ⟨rfl, _⟩ | ⟨_, _, h1, _⟩
        · exact ho
        · rw [h1] at hsig; cases hsig
      · by_cases htc : t = z.sched.currentThread
        · exact .inr ⟨htc, timeout, rfl⟩
        · rw [hotherpc t htc] at ht; exact .inl ht
      · by_cases htc : t = z.sched.currentThread
        · rw [htc, hcurpc] at ht; cases l <;> cases ht
        · rw [hotherpc t htc] at ht; exact .inl ht
    · refine wakeFacts_goto (hother v hv) (fun he => by cases he) (fun t he => ?_) (fun c he => ?_) ?_
      · cases he; exact hv rfl
      · rw [ho] at he
        cases l <;> cases he
        exact hv rfl
      · cases l with
        | ret code => exact not_inside_user v
        | yield => exact not_inside_yield fun he => hv (by cases he; rfl)

theorem wakeupSignal_facts (h : Inv mc z W O) (hu : z.pc z.sched.currentThread = .user)
    (hi : z.sched.currentThread ≠ mc.idleThread) {w : ω}
    (hr : stepCall mc z (.wakeupSignal w) = some (z', o)) :
    StepFacts mc z (.call (.wakeupSignal w)) z' o := by
  simp only [stepCall, Option.bind_eq_bind, Option.bind_eq_some_iff, Prod.exists,
    Option.some.injEq, Prod.mk.injEq] at hr
  obtain ⟨s, code, hl, rfl, rfl⟩ := hr
  have hc := h.caller hu hi
  have hgo := h.base.goto (p := .user) (by rw [hc.notBlocked]; decide) hc.noWaiter
  obtain ⟨hk, hfr, hun, hwkp, ⟨W', hb⟩, hcw, hcur, -⟩ := wakeupSignal_base hgo hl
  have hcur := hcur hi
  exact
    { inv := ⟨W', O, hb, fun hnb => by
        rcases hcw with hcw | ⟨-, hcw⟩
        · exact absurd hcw hnb
        · exact absurd (hcw.trans hc.notBlocked) hnb⟩
      suspended := fun t ht hti _ _ hsi => hk t ht hti (hsi w rfl)
      stopped := fun t ht => nomatch ht
      resumed := fun t ht => nomatch ht
      away := fun t haw _ htc hst => by
        have htc : t = z.sched.currentThread := htc.trans hcur
        obtain ⟨q, hq⟩ := haw htc (hfr _ hst)
        rw [htc, hu] at hq
        cases hq
      unwaited := fun _ => hun
      wake := fun v => by
        by_cases hv : v = w
        · subst hv
          have hs : (s.wkp v).signalled = true := by rw [hwkp, if_pos rfl]
          exact
            { signal := fun _ => ⟨hs, fun _ => nofun⟩
              quiet := fun hne _ => absurd rfl hne
              code := fun c he => nomatch he
              ok := fun he => nomatch he
              timeout := fun he => nomatch he
              returned := fun c he => nomatch he
              call := fun t he => nomatch he
              enter := fun t ht => by
                simp only [Sys.goto, Function.update_apply] at ht
                split at ht
                · exact absurd ht (not_inside_user v)
                · exact .inl ht
              reset := fun t ht => .inr hs }
        · refine wakeFacts_goto (by rw [hwkp, if_neg hv]) (fun he => ?_) (fun _ => nofun)
            (fun _ => nofun) (not_inside_user v)
          cases he
          exact hv rfl }

theorem threadSuspend_facts (h : Inv mc z W O) (hu : z.pc z.sched.currentThread = .user)
    (hi : z.sched.currentThread ≠ mc.idleThread) {x : Option τ}
    (hr : stepCall mc z (.threadSuspend x) = some (z', o)) :
    StepFacts mc z (.call (.threadSuspend x)) z' o := by
  simp only [stepCall, Option.bind_eq_bind, Option.bind_eq_some_iff, Prod.exists] at hr
  obtain ⟨s, code, b, hl, hr⟩ := hr
  have hc := h.caller hu hi
  have hgo := fun p => h.base.goto (p := p) (by rw [hc.notBlocked]; decide) hc.noWaiter
  have hz : z' = z.goto s (if b then .yield .user else .user) ∧ ∀ w c, o ≠ .wait w c := by
    cases b <;> cases hr <;> exact ⟨rfl, fun _ _ => nofun⟩
  obtain ⟨rfl, ho⟩ := hz
  obtain ⟨h1, h2, h3, h4, h5, h6, h7, h8, W', hb⟩ := threadSuspend_base
    (hgo (if b then .yield .user else .user)) rfl hl
  have hblock : (s.thr z.sched.currentThread).blockType = .notBlocked := by
    by_cases hx : x.getD z.sched.currentThread = z.sched.currentThread
    · rw [hx] at h1 h2
      by_cases hst : (z.sched.thr z.sched.currentThread).state = .suspended
      · rw [h2 hst]; exact hc.notBlocked
      · exact (h1 hst).blockType.trans hc.notBlocked
    · exact (h4 _ (Ne.symm hx)).blockType.trans hc.notBlocked
  exact
    { inv := ⟨W', O, hb, fun hnb => by
        rw [show (z.goto s _).sched = s from rfl, h7] at hnb
        exact absurd hblock hnb⟩
      suspended := fun t ht _ _ _ _ => by
        by_cases hx : x.getD z.sched.currentThread = t
        · rw [hx] at h2
          rw [show (z.goto s _).sched = s from rfl, h2 ht]
          exact Kept.refl _
        · exact (h4 t (Ne.symm hx)).kept
      stopped := fun t ht hst _ => by
        cases ht
        exact h1 hst
      resumed := fun t ht => nomatch ht
      away := fun t haw hcond htc hst => by
        have htc : t = z.sched.currentThread := htc.trans h7
        subst htc
        have hnow : (z.sched.thr z.sched.currentThread).state ≠ .suspended := fun hs => by
          obtain ⟨q, hq⟩ := haw rfl hs
          rw [hu] at hq
          cases hq
        simp only [Sys.goto, Function.update_self]
        by_cases hx : x.getD z.sched.currentThread = z.sched.currentThread
        · rcases hcond (congrArg some hx) rfl with hrun | ⟨q, hq⟩
          · rw [h3.mpr (by rw [hx]; exact hrun)]
            exact ⟨_, rfl⟩
          · rw [hu] at hq
            cases hq
        · exact absurd ((h4 _ (Ne.symm hx)).fresh hst) hnow
      unwaited := fun _ => h5
      wake := fun w => wakeFacts_goto (congrFun h6 w) nofun (fun _ => nofun) (ho w) (by
        split
        · exact not_inside_yield nofun
        · exact not_inside_user w) }

/-- `thread_resume` leaves every thread as it was unless it resumes it. -/
theorem threadResume_noop {s s' : Sched τ μ ω} {x : Option τ} {code : Int}
    (hst : (s.thr (x.getD s.currentThread)).state ≠ .suspended)
    (hr : threadResume s x = some (s', code)) : s' = s := by
  simp only [threadResume, if_pos hst] at hr
  cases hr
  rfl

theorem threadResume_facts (h : Inv mc z W O) (hu : z.pc z.sched.currentThread = .user)
    (hi : z.sched.currentThread ≠ mc.idleThread) {x : Option τ}
    (hr : stepCall mc z (.threadResume x) = some (z', o)) :
    StepFacts mc z (.call (.threadResume x)) z' o := by
  simp only [stepCall, Option.bind_eq_bind, Option.bind_eq_some_iff, Prod.exists,
    Option.some.injEq, Prod.mk.injEq] at hr
  obtain ⟨s, code, hl, rfl, rfl⟩ := hr
  have hc := h.caller hu hi
  have hgo := h.base.goto (p := .user) (by rw [hc.notBlocked]; decide) hc.noWaiter
  have hwake : s.wkp = z.sched.wkp → ∀ w, WakeFacts z (.call (.threadResume x))
      (z.goto s .user) (.other code) w := fun hw w =>
    wakeFacts_goto (congrFun hw w) nofun (fun _ => nofun) (fun _ => nofun) (not_inside_user w)
  by_cases hst : (z.sched.thr (x.getD z.sched.currentThread)).state = .suspended
  · obtain ⟨h1, h2, h3, h4, h5, h6, h7, W', hb⟩ := threadResume_base hgo rfl hst hl
    have hblock : (s.thr z.sched.currentThread).blockType = .notBlocked := by
      by_cases hx : z.sched.currentThread = x.getD z.sched.currentThread
      · rw [← hx] at h1; exact h1.blockType.trans hc.notBlocked
      · exact (h2 _ hx).blockType.trans hc.notBlocked
    exact
      { inv := ⟨W', O, hb, fun hnb => by
          rw [show (z.goto s _).sched = s from rfl, h5] at hnb
          exact absurd hblock hnb⟩
        suspended := fun t _ _ _ hre _ => (h2 t fun he => hre (congrArg some he.symm)).kept
        stopped := fun t ht => nomatch ht
        resumed := fun t ht _ => by
          cases ht
          exact ⟨h1, h6, h7⟩
        away := fun t haw _ htc hs => by
          have htc : t = z.sched.currentThread := htc.trans h5
          subst htc
          have hnow : (z.sched.thr z.sched.currentThread).state = .suspended := by
            by_cases hx : z.sched.currentThread = x.getD z.sched.currentThread
            · rw [hx]; exact hst
            · exact (h2 _ hx).fresh hs
          obtain ⟨q, hq⟩ := haw rfl hnow
          rw [hu] at hq
          cases hq
        unwaited := fun hcond => h3 fun m hm hb => hcond _ m rfl hst hm hb
        wake := hwake h4 }
  · have he := threadResume_noop hst hl
    subst he
    exact
      { inv := ⟨W, O, hgo, fun hnb => absurd hc.notBlocked hnb⟩
        suspended := fun _ _ _ _ _ _ => Kept.refl _
        stopped := fun t ht => nomatch ht
        resumed := fun t ht hs => by
          cases ht
          exact absurd hs hst
        away := fun t haw _ htc hs => by
          obtain ⟨q, hq⟩ := haw htc hs
          rw [show t = z.sched.currentThread from htc, hu] at hq
          cases hq
        unwaited := fun _ => id
        wake := hwake rfl }

theorem stepCall_facts (h : Inv mc z W O) (hu : z.pc z.sched.currentThread = .user)
    (hi : z.sched.currentThread ≠ mc.idleThread) {c : Call τ μ ω}
    (hr : stepCall mc z c = some (z', o)) : StepFacts mc z (.call c) z' o := by
  cases c with
  | mutexLock m timeout => exact mutexLock_facts h hu hi hr
  | mutexUnlock m => exact mutexUnlock_facts h hu hi hr
  | wakeupWait w timeout => exact wakeupWait_facts h hu hi hr
  | wakeupSignal w => exact wakeupSignal_facts h hu hi hr
  | sleep usecs => exact sleep_facts h hu hi hr
  | yield => exact yield_facts h hu hi hr
  | threadSuspend t => exact threadSuspend_facts h hu hi hr
  | threadResume t => exact threadResume_facts h hu hi hr
  | threadSetPriority t p => exact threadSetPriority_facts h hu hi hr

/-! ## Behind the yield -/

/-- The running thread has come back from its yield. -/
theorem Base.arrive {s : Sched τ μ ω} {pc : τ → Pc μ ω} {t : τ} {p : After μ ω}
    (h : Base mc s pc W O) (hp : pc t = .yield p) : Base mc s (Function.update pc t p.pc) W O where
  rep := h.rep
  waits := h.waits
  owns := h.owns
  blocker u hu := by
    obtain ⟨m, hm, hpc, hno⟩ := h.blocker u hu
    refine ⟨m, hm, ?_, hno⟩
    by_cases hut : u = t
    · subst hut
      rw [Function.update_self]
      rw [hp] at hpc
      rcases hpc with he | he <;> cases he
      exact .inl rfl
    · rwa [Function.update_of_ne hut]
  waiter w u hw := by
    by_cases hut : u = t
    · subst hut
      rw [Function.update_self]
      have := h.waiter w u hw
      rw [hp] at this
      rcases this with he | he <;> cases he
      exact .inl rfl
    · rw [Function.update_of_ne hut]
      exact h.waiter w u hw
  ready := h.ready
  blocked := h.blocked
  idle := h.idle
  alive := h.alive
  stack := h.stack
  locked := h.locked
  wakes := h.wakes

/-- A step of the running thread that is not a yield and changes only wakeup objects. -/
theorem StepFacts.of_wake {s : Sched τ μ ω} {p q : Pc μ ω} (h : Inv mc z W O)
    (hpc : z.pc z.sched.currentThread = p) (hp : ∀ q, p ≠ .yield q)
    (hs : s = { z.sched with wkp := s.wkp })
    (hb : Base mc s (Function.update z.pc z.sched.currentThread q) W O)
    (hw : ∀ w, WakeFacts z .run (z.goto s q) o w) : StepFacts mc z .run (z.goto s q) o where
  inv := by
    refine ⟨W, O, hb, fun hnb => ?_⟩
    simp only [Sys.goto] at hnb
    rw [hs] at hnb
    obtain ⟨r, hr⟩ := h.current hnb
    exact absurd (hpc.symm.trans hr) (hp r)
  suspended t _ _ _ _ _ := by
    simp only [Sys.goto]
    rw [hs]
    exact Kept.refl _
  stopped t ht := nomatch ht
  resumed t ht := nomatch ht
  away t haw _ htc hst := by
    have htc : t = z.sched.currentThread := by
      rw [htc]; simp only [Sys.goto]; rw [hs]
    simp only [Sys.goto] at hst
    rw [hs] at hst
    obtain ⟨r, hr⟩ := haw htc hst
    exact absurd (hpc.symm.trans (htc ▸ hr)) (hp r)
  unwaited _ hun m := by
    simp only [Sys.goto]
    rw [hs]
    exact hun m
  wake := hw

theorem not_inside_other {p : Pc μ ω} {v w : ω} (hv : v ≠ w)
    (hp : p = .waitClear w ∨ p = .waitTest w ∨ p = .waitReset w) : ¬ Inside v p := by
  rcases hp with rfl | rfl | rfl <;> rintro (he | he | he | he) <;> cases he <;> exact hv rfl

/-- A step of the thread inside `wakeup_wait w` from one access to the next. -/
theorem wakeFacts_next {s : Sched τ μ ω} {q : Pc μ ω} {w : ω}
    (hin : Inside w (z.pc z.sched.currentThread))
    (hs : (s.wkp w).signalled = (z.sched.wkp w).signalled)
    (hq : q = .waitReset w → (s.wkp w).signalled = true) :
    WakeFacts z .run (z.goto s q) .none w where
  signal h := nomatch h
  quiet _ _ := hs
  code _ h := nomatch h
  ok h := nomatch h
  timeout h := nomatch h
  returned _ h := nomatch h
  call _ h := nomatch h
  enter t ht := by
    by_cases htc : t = z.sched.currentThread
    · exact .inl (htc ▸ hin)
    · simp only [Sys.goto, Function.update_of_ne htc] at ht
      exact .inl ht
  reset t ht := by
    by_cases htc : t = z.sched.currentThread
    · subst htc
      simp only [Sys.goto, Function.update_self] at ht
      exact .inr (hq ht)
    · simp only [Sys.goto, Function.update_of_ne htc] at ht
      exact .inl ht

/-- The last step of `wakeup_wait w`. -/
theorem wakeFacts_return {s : Sched τ μ ω} {w : ω} {c : Int}
    (hc : c = threadOk ∨ c = threadTimeout) (hs : (s.wkp w).signalled = false)
    (hok : c = threadOk → z.pc z.sched.currentThread = .waitReset w)
    (hto : c = threadTimeout → (z.sched.wkp w).signalled = false) :
    WakeFacts z .run (z.goto s .user) (.wait w c) w where
  signal h := nomatch h
  quiet _ h := absurd rfl (h c)
  code d h := by cases h; exact hc
  ok h := by cases h; exact ⟨hs, .inr (hok rfl)⟩
  timeout h := by cases h; exact ⟨hto rfl, hs⟩
  returned _ _ := Function.update_self ..
  call _ h := nomatch h
  enter t ht := by
    by_cases htc : t = z.sched.currentThread
    · subst htc
      simp only [Sys.goto, Function.update_self] at ht
      exact absurd ht (not_inside_user w)
    · simp only [Sys.goto, Function.update_of_ne htc] at ht
      exact .inl ht
  reset t ht := by
    by_cases htc : t = z.sched.currentThread
    · subst htc
      simp only [Sys.goto, Function.update_self] at ht
      cases ht
    · simp only [Sys.goto, Function.update_of_ne htc] at ht
      exact .inl ht

/-- `obj->waiter = NULL` by the waiter itself. -/
theorem Base.clear {s : Sched τ μ ω} {pc : τ → Pc μ ω} {w : ω} (h : Base mc s pc W O) :
    Base mc (s.modWakeup w fun o => { o with waiter := none }) pc W O :=
  { h with
    rep := h.rep.modWakeup w
    waiter := fun v t hv => by
      rw [Sched.modWakeup_wkp] at hv
      split at hv
      · cases hv
      · exact h.waiter v t hv }

theorem stepRun_facts (h : Inv mc z W O) (hr : stepRun mc z = some (z', o)) :
    StepFacts mc z .run z' o := by
  have hnotMutex : (∀ q, z.pc z.sched.currentThread ≠ .yield q) →
      (z.sched.thr z.sched.currentThread).blockType ≠ .mutex := fun hp hb => by
    obtain ⟨q, hq⟩ := h.current (by rw [hb]; decide)
    exact hp q hq
  simp only [stepRun] at hr
  cases hpc : z.pc z.sched.currentThread with
  | user => rw [hpc] at hr; cases hr
  | yield p =>
    rw [hpc] at hr
    simp only [Option.bind_eq_bind, Option.bind_eq_some_iff, Option.some.injEq,
      Prod.mk.injEq, yield] at hr
    obtain ⟨_, ⟨s, hs, rfl⟩, rfl, rfl⟩ := hr
    obtain ⟨hp₁, hb₁⟩ := pauseAccounting_base (h.base.arrive hpc)
    obtain ⟨h1, h2, h3, h4, h5, h6, h7, W', hb₂⟩ := schedulerSwitch_frame hb₁ hs
    obtain ⟨hp₃, hb₃⟩ := resumeAccounting_base hb₂
    have hrun : ((schedulerResumeAccounting s).thr s.currentThread).state = .running :=
      (hp₃ _).state.trans h6
    have hnb : ((schedulerResumeAccounting s).thr s.currentThread).blockType = .notBlocked :=
      (hp₃ _).blockType.trans h7
    exact
      { inv := ⟨W', O, hb₃, fun hb => absurd hnb hb⟩
        suspended := fun t ht hi _ _ _ =>
          ((hp₁ t).kept.trans (h1 t ((hp₁ t).state.trans ht) hi)).trans (hp₃ t).kept
        stopped := fun t ht => nomatch ht
        resumed := fun t ht => nomatch ht
        away := fun t _ _ htc hst => by
          subst htc
          exact absurd (hrun.symm.trans hst) (by decide)
        unwaited := fun _ hun => h3 hun
        wake := fun w =>
          { signal := fun he => nomatch he
            quiet := fun _ _ => congrArg (fun f => (f w).signalled) h4
            code := fun _ he => nomatch he
            ok := fun he => nomatch he
            timeout := fun he => nomatch he
            returned := fun _ he => nomatch he
            call := fun _ he => nomatch he
            enter := fun t ht => by
              simp only [Sys.goto, Function.update_apply] at ht
              split at ht
              · rename_i htc
                subst htc
                rw [hpc]
                cases p with
                | user => exact absurd ht (not_inside_user w)
                | lockTest m => rcases ht with he | he | he | he <;> cases he
                | waitClear v =>
                  rcases ht with he | he | he | he <;> cases he
                  exact .inl (.inl rfl)
              · exact .inl ht
            reset := fun t ht => by
              simp only [Sys.goto, Function.update_apply] at ht
              split at ht
              · cases p <;> cases ht
              · exact .inl ht } }
  | lockTest m =>
    rw [hpc] at hr
    cases hr
    refine .of_wake h hpc nofun rfl
      (h.base.goto (hnotMutex (by rw [hpc]; exact fun _ => nofun)) (fun w hw => ?_) .user)
      fun w => wakeFacts_goto rfl nofun (fun _ => nofun) (fun _ => nofun) (not_inside_user w)
    rcases h.base.waiter w _ hw with hp | hp <;> rw [hpc] at hp <;> cases hp
  | waitClear w =>
    rw [hpc] at hr
    cases hr
    refine .of_wake h hpc nofun rfl ?_ fun v => ?_
    · refine h.base.clear.goto (hnotMutex (by rw [hpc]; exact fun _ => nofun)) (fun v hv => ?_) _
      rw [Sched.modWakeup_wkp] at hv
      split at hv
      · cases hv
      · rename_i hvw
        rcases h.base.waiter v _ hv with hp | hp <;> rw [hpc] at hp <;> cases hp
        exact hvw rfl
    · by_cases hv : v = w
      · subst hv
        exact wakeFacts_next (.inr (.inl hpc)) (by simp) nofun
      · exact wakeFacts_goto (by simp [hv]) nofun (fun _ => nofun) (fun _ => nofun)
          (not_inside_other hv (.inr (.inl rfl)))
  | waitTest w =>
    have hgo := fun q => h.base.goto (p := q) (hnotMutex (by rw [hpc]; exact fun _ => nofun))
      fun v hv => by rcases h.base.waiter v _ hv with hp | hp <;> rw [hpc] at hp <;> cases hp
    rw [hpc] at hr
    simp only at hr
    split at hr
    · rename_i hsig
      cases hr
      refine .of_wake h hpc nofun rfl (hgo _) fun v => ?_
      by_cases hv : v = w
      · subst hv
        exact wakeFacts_next (.inr (.inr (.inl hpc))) rfl fun _ => hsig
      · exact wakeFacts_goto rfl nofun (fun _ => nofun) (fun _ => nofun)
          (not_inside_other hv (.inr (.inr rfl)))
    · rename_i hsig
      rw [Bool.not_eq_true] at hsig
      cases hr
      refine .of_wake h hpc nofun rfl (hgo _) fun v => ?_
      by_cases hv : v = w
      · subst hv
        exact wakeFacts_return (.inr rfl) hsig (fun hc => nomatch hc) fun _ => hsig
      · refine wakeFacts_goto rfl nofun (fun _ => nofun) (fun _ he => ?_) (not_inside_user v)
        cases he
        exact hv rfl
  | waitReset w =>
    have hgo := fun q => h.base.goto (p := q) (hnotMutex (by rw [hpc]; exact fun _ => nofun))
      fun v hv => by rcases h.base.waiter v _ hv with hp | hp <;> rw [hpc] at hp <;> cases hp
    rw [hpc] at hr
    cases hr
    refine .of_wake h hpc nofun rfl ((hgo _).modWakeup rfl) fun v => ?_
    by_cases hv : v = w
    · subst hv
      exact wakeFacts_return (.inl rfl) (by simp) (fun _ => hpc) fun hc => nomatch hc
    · refine wakeFacts_goto (by simp [hv]) nofun (fun _ => nofun) (fun _ he => ?_)
        (not_inside_user v)
      cases he
      exact hv rfl

/-! ## Interrupts -/

/-- A step of an interrupt handler: `s` is the state before the accounting resumes. -/
theorem StepFacts.of_irq {s : Sched τ μ ω} {i : Irq τ ω} (h : Inv mc z W O)
    (hb : ∃ W O, Base mc s z.pc W O) (hcw : CurrentWait z.sched s)
    (hk : ∀ t, (z.sched.thr t).state = .suspended → t ≠ mc.idleThread →
      Action.resumes z.sched.currentThread (.irq i : Action τ μ ω) ≠ some t →
      (∀ w, Action.signals (.irq i : Action τ μ ω) = some w → (z.sched.wkp w).waiter ≠ some t) →
      Kept (z.sched.thr t) (s.thr t))
    (hst : ∀ t, Action.suspends z.sched.currentThread (.irq i : Action τ μ ω) = some t →
      (z.sched.thr t).state ≠ .suspended → t ≠ mc.idleThread →
      Stopped z.sched.usecTimer (z.sched.thr t) (s.thr t))
    (hre : ∀ t, Action.resumes z.sched.currentThread (.irq i : Action τ μ ω) = some t →
      (z.sched.thr t).state = .suspended →
      Resumed z.sched.usecTimer (z.sched.thr t) (s.thr t) ∧
        s.usecTimer = z.sched.usecTimer ∧ ∀ m, (s.mtx m).count = (z.sched.mtx m).count)
    (haw : (s.thr s.currentThread).state = .suspended → s.currentThread = z.sched.currentThread ∧
      ((z.sched.thr z.sched.currentThread).state = .suspended ∨
        Action.suspends z.sched.currentThread (.irq i : Action τ μ ω) =
          some z.sched.currentThread ∧
        (z.sched.thr z.sched.currentThread).state ≠ .running))
    (hun : (∀ t m, Action.resumes z.sched.currentThread (.irq i : Action τ μ ω) = some t →
      (z.sched.thr t).state = .suspended → (z.sched.thr t).blockType = .mutex →
      (z.sched.thr t).blockedBy = some (.mutex m) → (z.sched.mtx m).count ≠ 0) →
      Unwaited z.sched → Unwaited s)
    (hw : ∀ w, (s.wkp w).signalled =
      if Action.signals (.irq i : Action τ μ ω) = some w then true
      else (z.sched.wkp w).signalled) :
    StepFacts mc z (.irq i) ⟨schedulerResumeAccounting s, z.pc⟩ .none := by
  obtain ⟨W', O', hb⟩ := hb
  obtain ⟨hs, hb'⟩ := resumeAccounting_base hb
  refine
    { inv := ⟨W', O', hb', fun hnb => ?_⟩
      suspended := fun t ht hi _ hr hsi => (hk t ht hi hr hsi).trans (hs t).kept
      stopped := fun t ht hs' hi => (hst t ht hs' hi).kept (hs t).kept
      resumed := fun t ht hs' => ⟨(SameBlock.refl _).resumed (hre t ht hs').1 (hs t),
        (hre t ht hs').2⟩
      away := fun t hz hcond htc hst' => ?_
      unwaited := hun
      wake := fun w => wakeFacts_stay (fun he => ?_) (fun he => ?_) (fun _ => nofun)
        fun _ => nofun }
  · have hnb' : (s.thr s.currentThread).blockType ≠ .notBlocked := by
      rw [← (hs s.currentThread).blockType]; exact hnb
    rcases hcw with hcw | ⟨hc, hcw⟩
    · exact absurd hcw hnb'
    · show ∃ p, z.pc s.currentThread = _
      rw [hc]
      exact h.current (by rwa [← hcw])
  · have htc : t = s.currentThread := htc
    subst htc
    obtain ⟨hc, hz'⟩ := haw ((hs s.currentThread).fresh hst')
    show ∃ p, z.pc s.currentThread = _
    rw [hc] at hz hcond ⊢
    rcases hz' with hz' | ⟨h1, h2⟩
    · exact hz rfl hz'
    · rcases hcond h1 rfl with h3 | h3
      · exact absurd h3 h2
      · exact h3
  · show (s.wkp w).signalled = true
    rw [hw, if_pos he]
  · show (s.wkp w).signalled = _
    rw [hw, if_neg he]

/-- A switch in an interrupt handler, which suspends and resumes nothing. -/
theorem StepFacts.of_switch {s s₁ : Sched τ μ ω} {i : Irq τ ω} {thread block : Option τ}
    (h : Inv mc z W O) (hb₁ : Base mc s₁ z.pc W O)
    (hs₁ : ∀ u, SameBlock (z.sched.thr u) (s₁.thr u)) (hm : s₁.mtx = z.sched.mtx)
    (hw : s₁.wkp = z.sched.wkp) (hs : schedulerSwitch mc s₁ thread block = some s)
    (hsi : Action.signals (.irq i : Action τ μ ω) = none)
    (hsu : Action.suspends z.sched.currentThread (.irq i : Action τ μ ω) = none)
    (hre : Action.resumes z.sched.currentThread (.irq i : Action τ μ ω) = none) :
    StepFacts mc z (.irq i) ⟨schedulerResumeAccounting s, z.pc⟩ .none := by
  obtain ⟨h1, h2, h3, h4, h5, h6, h7, W', hb⟩ := schedulerSwitch_frame hb₁ hs
  refine .of_irq h ⟨W', O, hb⟩ (.inl h7) (fun t ht hi _ _ => ?_)
    (fun t ht => by rw [hsu] at ht; cases ht) (fun t ht => by rw [hre] at ht; cases ht)
    (fun hst => absurd (h6.symm.trans hst) (by decide)) (fun _ hun => h3 fun m => ?_) fun w => ?_
  · exact (hs₁ t).kept.trans (h1 t ((hs₁ t).state.trans ht) hi)
  · rw [hm]; exact hun m
  · rw [hsi, h4, hw]; rfl

theorem stepIrq_facts (h : Inv mc z W O) {i : Irq τ ω} (hr : stepIrq mc z i = some (z', o)) :
    StepFacts mc z (.irq i) z' o := by
  simp only [stepIrq, Option.bind_eq_bind, Option.bind_eq_some_iff, Option.some.injEq,
    Prod.mk.injEq] at hr
  obtain ⟨s, hs, rfl, rfl⟩ := hr
  obtain ⟨hs₀, hb₀⟩ := pauseAccounting_base h.base
  cases i with
  | wakeupSignal w =>
    simp only [irqHandler, Option.bind_eq_bind, Option.bind_eq_some_iff, Prod.exists,
      Option.some.injEq] at hs
    obtain ⟨s', code, hl, rfl⟩ := hs
    obtain ⟨hk, hfr, hun, hwkp, ⟨W', hb⟩, hcw, -, hcur⟩ := wakeupSignal_base hb₀ hl
    refine .of_irq h ⟨W', O, hb⟩ ?_ (fun t ht hi _ hsi => ?_) (fun t ht => nomatch ht)
      (fun t ht => nomatch ht) (fun hst => ?_) (fun _ => hun) fun v => ?_
    · rcases hcw with hcw | ⟨hc, hcw⟩
      · exact .inl hcw
      · exact .inr ⟨hc, hcw.trans (hs₀ _).blockType⟩
    · exact (hs₀ t).kept.trans (hk t ((hs₀ t).state.trans ht) hi (hsi w rfl))
    · rcases hcur with hc | hrun
      · have hc : s'.currentThread = z.sched.currentThread := hc
        rw [hc] at hst
        exact ⟨hc, .inl ((hs₀ _).fresh (hfr _ hst))⟩
      · exact absurd (hrun.symm.trans hst) (by decide)
    · rw [hwkp]
      show _ = if some w = some v then _ else _
      by_cases hv : v = w
      · simp [hv]
      · rw [if_neg hv, if_neg fun he => hv (Option.some.inj he).symm]
        rfl
  | timer =>
    exact .of_switch h hb₀ hs₀ rfl rfl hs rfl rfl rfl
  | threadSuspend x =>
    simp only [irqHandler, Option.bind_eq_bind, Option.bind_eq_some_iff, Prod.exists] at hs
    obtain ⟨s₁, code, b, hl, hs⟩ := hs
    obtain ⟨h1, h2, h3, h4, h5, h6, h7, h8, W', hb⟩ := threadSuspend_base hb₀ rfl hl
    have hcur : (schedulerPauseAccounting z.sched).currentThread = z.sched.currentThread := rfl
    have h7 : s₁.currentThread = z.sched.currentThread := h7
    have husec : (schedulerPauseAccounting z.sched).usecTimer = z.sched.usecTimer := rfl
    rw [hcur] at h1 h2 h3 h4
    have hkeep : ∀ t, (z.sched.thr t).state = .suspended → Kept (z.sched.thr t) (s₁.thr t) :=
      fun t ht => by
        by_cases hx : t = x.getD z.sched.currentThread
        · subst hx
          rw [h2 ((hs₀ _).state.trans ht)]
          exact (hs₀ _).kept
        · exact (hs₀ t).kept.trans (h4 t hx).kept
    have hstop : (z.sched.thr (x.getD z.sched.currentThread)).state ≠ .suspended →
        Stopped z.sched.usecTimer (z.sched.thr (x.getD z.sched.currentThread))
          (s₁.thr (x.getD z.sched.currentThread)) := fun hst =>
      husec ▸ (hs₀ _).stopped (h1 (by rwa [(hs₀ _).state]))
    cases b with
    | false =>
      cases hs
      refine .of_irq h ⟨W', O, hb⟩ (.inr ⟨h7, ?_⟩) (fun t ht _ _ _ => hkeep t ht) ?_
        (fun t ht => nomatch ht) (fun hst => ⟨h7, ?_⟩) (fun _ => h5)
        (fun w => by rw [h6]; rfl)
      · rw [h7]
        by_cases hx : z.sched.currentThread = x.getD z.sched.currentThread
        · rw [hx]
          by_cases hst : (z.sched.thr (x.getD z.sched.currentThread)).state = .suspended
          · exact (hkeep _ hst).blockType
          · exact (hstop hst).blockType
        · exact (h4 _ hx).blockType.trans (hs₀ _).blockType
      · rintro t ht hst -
        cases ht
        exact hstop hst
      · rw [h7] at hst
        by_cases hx : x.getD z.sched.currentThread = z.sched.currentThread
        · refine .inr ⟨congrArg some hx, fun hrun => ?_⟩
          have := h3.mpr (by rw [hx, (hs₀ _).state]; exact hrun)
          cases this
        · exact .inl ((hs₀ _).fresh ((h4 _ (Ne.symm hx)).fresh hst))
    | true =>
      obtain ⟨hp₁, hb₁⟩ := pauseAccounting_base hb
      obtain ⟨k1, k2, k3, k4, k5, k6, k7, W₂, hb₂⟩ := schedulerSwitch_frame hb₁ hs
      have hkept : ∀ t, (s₁.thr t).state = .suspended → t ≠ mc.idleThread →
          Kept (s₁.thr t) (s.thr t) := fun t ht hi =>
        (hp₁ t).kept.trans (k1 t ((hp₁ t).state.trans ht) hi)
      refine .of_irq h ⟨W₂, O, hb₂⟩ (.inl k7) (fun t ht hi _ _ => ?_) ?_
        (fun t ht => nomatch ht) (fun hst => absurd (k6.symm.trans hst) (by decide))
        (fun _ hun => k3 (h5 hun)) (fun w => ?_)
      · have hk := hkeep t ht
        refine hk.trans (hkept t ?_ hi)
        rcases hk.state with he | ⟨he, -⟩
        · exact he.trans ht
        · exact absurd (ht.symm.trans he) (by decide)
      · rintro t ht hst hi
        cases ht
        have hk := hstop hst
        exact hk.kept (hkept _ hk.state hi)
      · rw [k4]
        show (s₁.wkp w).signalled = _
        rw [h6]
        rfl
  | threadResume x =>
    simp only [irqHandler, Option.bind_eq_bind, Option.bind_eq_some_iff, Prod.exists,
      Option.some.injEq] at hs
    obtain ⟨s₁, code, hl, rfl⟩ := hs
    by_cases hst : (z.sched.thr (x.getD z.sched.currentThread)).state = .suspended
    · obtain ⟨h1, h2, h3, h4, h5, h6, h7, W', hb⟩ := threadResume_base hb₀ rfl
        ((hs₀ _).state.trans hst) hl
      have h5 : s₁.currentThread = z.sched.currentThread := h5
      have hcur : (schedulerPauseAccounting z.sched).currentThread = z.sched.currentThread := rfl
      rw [hcur] at h1 h2 h3
      refine .of_irq h ⟨W', O, hb⟩ (.inr ⟨h5, ?_⟩) (fun t _ _ hre _ => ?_)
        (fun t ht => nomatch ht) ?_ (fun hs => ⟨h5, .inl ?_⟩) (fun hcond hun => ?_)
        (fun w => by rw [h4]; rfl)
      · rw [h5]
        by_cases hx : z.sched.currentThread = x.getD z.sched.currentThread
        · rw [← hx] at h1; exact h1.blockType.trans (hs₀ _).blockType
        · exact (h2 _ hx).blockType.trans (hs₀ _).blockType
      · exact (hs₀ t).kept.trans (h2 t fun he => hre (congrArg some he.symm)).kept
      · rintro t ht -
        cases ht
        exact ⟨(hs₀ _).resumed h1 (SameBlock.refl _), h6, h7⟩
      · rw [h5] at hs
        by_cases hx : z.sched.currentThread = x.getD z.sched.currentThread
        · rw [hx]; exact hst
        · exact (hs₀ _).fresh ((h2 _ hx).fresh hs)
      · refine h3 (fun m hm hb => hcond _ m rfl hst ?_ ?_) hun
        · rw [← (hs₀ _).blockType]; exact hm
        · rw [← (hs₀ _).blockedBy]; exact hb
    · have he := threadResume_noop (fun hn => hst ((hs₀ _).state.symm.trans hn)) hl
      subst he
      refine .of_irq h ⟨W, O, hb₀⟩ (.inr ⟨rfl, (hs₀ _).blockType⟩) (fun t _ _ _ _ => (hs₀ t).kept)
        (fun t ht => nomatch ht) ?_ (fun hs => ⟨rfl, .inl ((hs₀ _).fresh hs)⟩) (fun _ => id)
        fun _ => rfl
      rintro t ht hs
      cases ht
      exact absurd hs hst
  | freeze value =>
    have hb₁ : Base mc { schedulerPauseAccounting z.sched with schedulerFrozen := value } z.pc
        W O :=
      hb₀.congr rfl rfl (fun _ => rfl) (fun _ => rfl) (fun _ => rfl) (fun _ => rfl)
        (fun _ => rfl) (fun _ _ => Iff.rfl) hb₀.ready hb₀.blocked
    exact .of_switch h hb₁ hs₀ rfl rfl hs rfl rfl rfl

/-! ## All steps -/

theorem step_facts (h : Inv mc z W O) {a : Action τ μ ω} (hr : step mc z a = some (z', o)) :
    StepFacts mc z a z' o := by
  cases a with
  | call c =>
    simp only [step] at hr
    split at hr
    · rename_i hc
      exact stepCall_facts h hc.1 hc.2 hr
    · cases hr
  | run => exact stepRun_facts h hr
  | irq i => exact stepIrq_facts h hr
  | elapse usec =>
    cases hr
    have hb := h.base
    exact
      { inv := ⟨W, O, hb.congr rfl rfl (fun _ => rfl) (fun _ => rfl) (fun _ => rfl) (fun _ => rfl)
          (fun _ => rfl) (fun _ _ => Iff.rfl) hb.ready hb.blocked, h.current⟩
        suspended := fun _ _ _ _ _ _ => Kept.refl _
        stopped := fun t ht => nomatch ht
        resumed := fun t ht => nomatch ht
        away := fun _ haw _ => haw
        unwaited := fun _ => id
        wake := fun w => wakeFacts_stay (fun he => nomatch he) (fun _ => rfl) (fun _ => nofun)
          fun _ => nofun }

/-- The state the system starts in. -/
theorem Initial.inv (h : Initial mc z) : Inv mc z (fun _ => []) fun _ => [] where
  base :=
    { rep :=
        { waiters := fun m => by rw [h.mutexes]; rfl
          owned := fun t => by rw [h.owned]; rfl
          waiters_apart := fun hm => by cases hm
          owned_apart := fun hm => by cases hm }
      waits := fun m t => by
        simp only [List.not_mem_nil, BlockedOn, h.notBlocked, false_iff]
        rintro ⟨-, hb, -⟩
        cases hb
      owns := fun t m => by
        simp only [List.not_mem_nil, Owns, h.mutexes, false_iff]
        exact fun ho => ho.1 rfl
      blocker := fun t hb => by rw [h.notBlocked] at hb; cases hb
      waiter := fun w t hw => by rw [h.wakeups] at hw; cases hw
      ready := fun t _ => h.notBlocked t
      blocked := fun t hb => by
        by_cases ht : t = mc.idleThread
        · rw [ht, h.idle] at hb; cases hb
        · rcases h.state t ht with hs | hs | hs <;> rw [hs] at hb <;> cases hb
      idle := h.notBlocked _
      alive := fun t => by rw [h.notBlocked]; exact ⟨by decide, by decide⟩
      stack := h.stack
      locked := fun m hm => by rw [h.mutexes] at hm; exact absurd rfl hm
      wakes := fun t hb => by rw [h.notBlocked] at hb; cases hb }
  current hn := absurd (h.notBlocked _) hn

/-- The invariant holds in every reachable state. -/
theorem inv_reachable {ok : Sys τ μ ω → Action τ μ ω → Prop} {z₀ : Sys τ μ ω}
    {es : List (Sys τ μ ω × Action τ μ ω × Out μ ω)} (h₀ : Initial mc z₀)
    (hr : Lts.Runs (step mc) ok z₀ es z) : ∃ W O, Inv mc z W O :=
  hr.invariant (I := fun z => ∃ W O, Inv mc z W O) ⟨_, _, h₀.inv⟩
    fun _ _ _ _ ⟨_, _, hi⟩ _ hs => (step_facts hi hs).inv

end Thread
end Freemyipod
