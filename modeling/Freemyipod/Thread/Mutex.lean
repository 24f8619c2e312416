import Freemyipod.Thread.Steps

/-!
# Thread.Mutex

The lists of waiters and of owned mutexes in every reachable state.

`thread_suspend` takes a waiter out of its queue, and `thread_resume` puts it back without a look
at the mutex, which may have been freed in between: then the thread waits for a mutex that nobody
owns. `mutexInvariant_iff` says that nothing else can go wrong.
-/

set_option linter.unusedSectionVars false

namespace Freemyipod
namespace Thread

section Defs

variable {τ μ ω : Type}

/-- The links of `s` lead along the lists `W` of waiters and `O` of owned mutexes, which agree
with the counts and owners of the mutexes and with what the threads are blocked on. -/
structure MutexLists [DecidableEq μ] (s : Sched τ μ ω) (W : μ → List τ) (O : τ → List μ) : Prop where
  waiters : ∀ m, Intrusive.Linked s.queueNext (s.mtx m).waiters (W m)
  owned : ∀ t, Intrusive.Linked s.ownedNext (s.thr t).ownedMutexes (O t)
  free : ∀ m, (s.mtx m).count = 0 → W m = [] ∧ ∀ t, m ∉ O t
  locked : ∀ m, (s.mtx m).count ≠ 0 →
    ∃ t, (s.mtx m).owner = some t ∧ (O t).count m = 1 ∧ ∀ u, u ≠ t → m ∉ O u
  waits : ∀ m t, t ∈ W m ↔ BlockedOn s t m
  once : ∀ m, (W m).Nodup

def MutexInvariant [DecidableEq μ] (s : Sched τ μ ω) : Prop := ∃ W O, MutexLists s W O

/-- A thread that was suspended while it waited for a mutex is resumed only while the mutex is
owned. -/
def ResumesToLocked (z : Sys τ μ ω) (a : Action τ μ ω) : Prop :=
  ∀ t m, a.resumes z.sched.currentThread = some t → (z.sched.thr t).state = .suspended →
    (z.sched.thr t).blockType = .mutex → (z.sched.thr t).blockedBy = some (.mutex m) →
    (z.sched.mtx m).count ≠ 0

end Defs

variable {τ μ ω : Type} [DecidableEq τ] [DecidableEq μ] [DecidableEq ω] [Fintype τ] [Fintype μ]
  {mc : Machine τ ω} {s : Sched τ μ ω} {z z₀ z' : Sys τ μ ω} {W : μ → List τ} {O : τ → List μ}
  {t : τ} {m : μ} {a : Action τ μ ω} {o : Out μ ω}

/-- No thread stays blocked on a mutex that nobody owns. -/
theorem MutexLists.blockedOn_locked (h : MutexLists s W O) (ht : BlockedOn s t m) :
    (s.mtx m).count ≠ 0 := by
  intro hm
  have hw := (h.waits m t).mpr ht
  rw [(h.free m hm).1] at hw
  cases hw

/-- In the reachable states without waiters of free mutexes, and only there, the lists are as
they should be. -/
theorem Base.mutexLists {pc : τ → Pc μ ω} (h : Base mc s pc W O) (hu : Unwaited s) :
    MutexLists s W O where
  waiters := h.rep.waiters
  owned := h.rep.owned
  free m hm := by
    refine ⟨?_, h.not_mem_owned hm⟩
    have := h.rep.waiters m
    rwa [hu m hm, Intrusive.Linked.none_iff] at this
  locked m hm := by
    obtain ⟨t, ht⟩ := h.locked m hm
    have hmem : m ∈ O t := (h.owns t m).mpr ht
    refine ⟨t, ht.2, List.count_eq_one_of_mem (h.rep.nodup_owned t) hmem, fun u hu hm' => ?_⟩
    exact hu (h.rep.owned_apart hm' hmem)
  waits := h.waits
  once := h.rep.nodup_waiters

theorem MutexLists.unwaited (h : MutexLists s W O) : Unwaited s := by
  intro m hm
  have := h.waiters m
  rwa [(h.free m hm).1] at this

/-- Putting a waiter back into the queue of a mutex that is free by now makes it wait for a
mutex that nobody owns. -/
theorem not_mutexInvariant_of_resume (h : Inv mc z W O) (hr : step mc z a = some (z', o))
    (hc : ¬ ResumesToLocked z a) : ¬ MutexInvariant z'.sched := by
  rintro ⟨W', O', hl⟩
  refine hc fun t m hres hst hb hbb hm => ?_
  obtain ⟨hres', -, hcount⟩ := (step_facts h hr).resumed t hres hst
  have hblocked : BlockedOn z'.sched t m :=
    ⟨by rw [hres'.state, hb], hres'.blockType.trans hb, hres'.blockedBy.trans hbb⟩
  exact hl.blockedOn_locked hblocked ((hcount m).trans hm)

/-- The mutexes are as they should be in every state of a run exactly if no step of it resumes a
thread to the queue of a free mutex. -/
theorem mutexInvariant_iff {es : List (Sys τ μ ω × Action τ μ ω × Out μ ω)}
    (h₀ : Initial mc z₀) (hr : Lts.Runs (step mc) (fun _ _ => True) z₀ es z) :
    (∀ e ∈ es, MutexInvariant e.1.sched) ∧ MutexInvariant z.sched ↔
      ∀ e ∈ es, ResumesToLocked e.1 e.2.1 := by
  constructor
  · rintro ⟨hall, hz⟩ ⟨y, a, o⟩ he
    obtain ⟨pre, post, rfl⟩ := List.append_of_mem he
    obtain ⟨hpre, -, v, hstep, hpost⟩ := hr.split rfl
    obtain ⟨W, O, hinv⟩ := inv_reachable h₀ hpre
    by_contra hc
    refine not_mutexInvariant_of_resume hinv hstep hc ?_
    refine hpost.start (P := fun z => MutexInvariant z.sched) (fun e he => hall e ?_) hz
    exact List.mem_append_right _ (List.mem_cons_of_mem _ he)
  · intro hall
    have hgood : ∀ {es z}, Lts.Runs (step mc) ResumesToLocked z₀ es z →
        MutexInvariant z.sched := fun {es z} hrun => by
      obtain ⟨⟨W, O, hi⟩, hu⟩ := hrun.invariant
        (I := fun z => (∃ W O, Inv mc z W O) ∧ Unwaited z.sched)
        ⟨⟨_, _, h₀.inv⟩, fun m _ => by rw [h₀.mutexes]⟩
        fun x b y p ⟨⟨W, O, hi⟩, hu⟩ hok hs =>
          ⟨(step_facts hi hs).inv, (step_facts hi hs).unwaited hok hu⟩
      exact ⟨W, O, hi.base.mutexLists hu⟩
    refine ⟨fun e he => ?_, hgood (hr.of_forall fun e he _ => hall e he)⟩
    obtain ⟨pre, post, rfl⟩ := List.append_of_mem he
    obtain ⟨hpre, -⟩ := (hr.of_forall fun e he _ => hall e he).split rfl
    exact hgood hpre

/-! ## A waiter left behind -/

instance (s : Sched τ μ ω) (t : τ) (m : μ) : Decidable (BlockedOn s t m) :=
  inferInstanceAs (Decidable (_ ∧ _ ∧ _))

/-- The threads of the runs below. -/
inductive Trio where
  | idle | first | second
  deriving DecidableEq

instance : Fintype Trio := ⟨{.idle, .first, .second}, fun t => by cases t <;> decide⟩

/-- Three threads and one wakeup. -/
def bench : Machine Trio Unit where
  idleThread := .idle
  dbgwakeup := ()
  nullQueueNextEnds := true
  nullOwnedNextEnds := true

/-- The first thread locks the mutex, and the second one waits for it. -/
def contend : List (Action (Trio) Unit Unit) :=
  [.irq .timer, .call (.mutexLock () timeoutBlock), .call .yield, .run,
    .call (.mutexLock () timeoutBlock), .run]

/-- Then the first thread suspends the second, unlocks the mutex and resumes it. -/
def orphan : List (Action (Trio) Unit Unit) :=
  contend ++ [.call (.threadSuspend (some .second)), .call (.mutexUnlock ()),
    .call (.threadResume (some .second))]

theorem mutexInvariant_contend : ∃ z, Lts.exec (step bench) (booted bench [.idle, .first, .second]) contend = some z ∧
    BlockedOn z.sched .second () ∧ MutexInvariant z.sched := by
  have hex : (Lts.exec (step bench) (booted bench [.idle, .first, .second]) contend).any
      (fun z => decide (BlockedOn z.sched .second ())) = true := by decide +kernel
  obtain ⟨z, hz, hb⟩ := Option.any_eq_true _ _ |>.mp hex
  obtain ⟨es, hes, hr⟩ := Lts.exec_runs hz
  refine ⟨z, hz, of_decide_eq_true hb,
    ((mutexInvariant_iff (booted_initial bench _) hr).mpr fun e he t m hres => ?_).2⟩
  -- nothing is resumed in this run
  have hmem : e.2.1 ∈ contend := hes ▸ List.mem_map_of_mem he
  have hnone : ∀ a ∈ contend, ∀ c, a.resumes c = none := by decide
  rw [hnone _ hmem] at hres
  cases hres

theorem orphan_not_mutexInvariant : ∃ z,
    Lts.exec (step bench) (booted bench [.idle, .first, .second]) orphan = some z ∧
      Initial bench (booted bench [.idle, .first, .second] : Sys (Trio) Unit Unit) ∧ ¬ MutexInvariant z.sched := by
  have hex : (Lts.exec (step bench) (booted bench [.idle, .first, .second]) orphan).any
      (fun z => decide (BlockedOn z.sched .second ()) && (z.sched.mtx ()).count == 0) = true := by
    decide +kernel
  obtain ⟨z, hz, hb⟩ := Option.any_eq_true _ _ |>.mp hex
  rw [Bool.and_eq_true, decide_eq_true_eq, beq_iff_eq] at hb
  refine ⟨z, hz, booted_initial bench _, ?_⟩
  rintro ⟨W, O, hl⟩
  exact hl.blockedOn_locked hb.1 hb.2

end Thread
end Freemyipod
