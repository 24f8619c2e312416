import Freemyipod.Thread.Queues
import Freemyipod.Thread.System

/-!
# Thread.Invariant

What holds in every reachable state of the scheduler, whatever is called, and whenever.

`Base` relates the lists, the `state`, `block_type` and `blocked_by` fields and the points the
threads have reached; `Inv` adds that a thread which still runs although it is blocked is about
to yield. `inv_step` says that one step keeps `Inv`. The module has one lemma for each function
of `thread.c`, in the order of the source.
-/

set_option linter.unusedSectionVars false

namespace Freemyipod
namespace Thread

section Defs

variable {τ μ ω : Type}

/-- `t` is `BLOCKED` with `block_type` `THREAD_BLOCK_MUTEX` and `blocked_by` `m`. -/
def BlockedOn (s : Sched τ μ ω) (t : τ) (m : μ) : Prop :=
  (s.thr t).state = .blocked ∧ (s.thr t).blockType = .mutex ∧
    (s.thr t).blockedBy = some (.mutex m)

/-- `m` is locked and `t` is its owner. -/
def Owns (s : Sched τ μ ω) (t : τ) (m : μ) : Prop :=
  (s.mtx m).count ≠ 0 ∧ (s.mtx m).owner = some t

structure Base (mc : Machine τ ω) (s : Sched τ μ ω) (pc : τ → Pc μ ω)
    (W : μ → List τ) (O : τ → List μ) : Prop where
  rep : Rep s W O
  waits : ∀ m t, t ∈ W m ↔ BlockedOn s t m
  owns : ∀ t m, m ∈ O t ↔ Owns s t m
  blocker : ∀ t, (s.thr t).blockType = .mutex → ∃ m, (s.thr t).blockedBy = some (.mutex m) ∧
    (pc t = .lockTest m ∨ pc t = .yield (.lockTest m)) ∧ ¬ Owns s t m
  waiter : ∀ w t, (s.wkp w).waiter = some t → pc t = .waitClear w ∨ pc t = .yield (.waitClear w)
  ready : ∀ t, (s.thr t).state = .ready ∨ (s.thr t).state = .running →
    (s.thr t).blockType = .notBlocked
  blocked : ∀ t, (s.thr t).state = .blocked → (s.thr t).blockType ≠ .notBlocked
  idle : (s.thr mc.idleThread).blockType = .notBlocked
  alive : ∀ t, (s.thr t).blockType ≠ .defunctStkov ∧ (s.thr t).blockType ≠ .defunctPanic
  stack : ∀ t, (s.thr t).stack ≠ .overwritten
  locked : ∀ m, (s.mtx m).count ≠ 0 → ∃ t, Owns s t m
  wakes : ∀ t, (s.thr t).blockType = .wakeup → ∃ w, (s.thr t).blockedBy = some (.wakeup w)

structure Inv (mc : Machine τ ω) (z : Sys τ μ ω) (W : μ → List τ) (O : τ → List μ) : Prop where
  base : Base mc z.sched z.pc W O
  current : (z.sched.thr z.sched.currentThread).blockType ≠ .notBlocked →
    ∃ p, z.pc z.sched.currentThread = .yield p

/-- A thread that `scheduler_switch` leaves as it was, apart from its links, its accounting and
the step from `RUNNING` to `READY`. -/
structure Kept (x y : SchedulerThread τ μ ω) : Prop where
  state : y.state = x.state ∨ x.state = .running ∧ y.state = .ready
  blockType : y.blockType = x.blockType
  blockedBy : y.blockedBy = x.blockedBy
  timeout : y.timeout = x.timeout
  blockedSince : y.blockedSince = x.blockedSince

/-- A thread whose finite timeout `scheduler_switch` ends. -/
structure TimedOut (usec : U32) (x y : SchedulerThread τ μ ω) : Prop where
  was : x.state = .blocked
  finite : x.timeout ≠ timeoutBlock
  elapsed : timeAfter usec (x.blockedSince + x.timeout) = true
  state : y.state = .ready
  blockType : y.blockType = .notBlocked

/-- What `scheduler_switch` can do before it sets the new thread running. -/
structure Expired (s s' : Sched τ μ ω) : Prop where
  thr : ∀ t, Kept (s.thr t) (s'.thr t) ∨ TimedOut s.usecTimer (s.thr t) (s'.thr t)
  mtx : ∀ m, s'.mtx m = { s.mtx m with waiters := (s'.mtx m).waiters }
  unwaited : ∀ m, (s.mtx m).waiters = none → (s'.mtx m).waiters = none
  wkp : s'.wkp = s.wkp
  usec : s'.usecTimer = s.usecTimer
  current : s'.currentThread = s.currentThread

/-- What `scheduler_switch` can do. -/
structure Switched (mc : Machine τ ω) (s s' : Sched τ μ ω) : Prop where
  thr : ∀ t, t ≠ s'.currentThread →
    Kept (s.thr t) (s'.thr t) ∨ TimedOut s.usecTimer (s.thr t) (s'.thr t)
  running : (s'.thr s'.currentThread).state = .running
  notBlocked : (s'.thr s'.currentThread).blockType = .notBlocked
  next : s'.currentThread = mc.idleThread ∨ (s.thr s'.currentThread).state = .ready ∨
    (s.thr s'.currentThread).state = .running ∨ (s.thr s'.currentThread).state = .blocked
  mtx : ∀ m, s'.mtx m = { s.mtx m with waiters := (s'.mtx m).waiters }
  unwaited : ∀ m, (s.mtx m).waiters = none → (s'.mtx m).waiters = none
  wkp : s'.wkp = s.wkp
  usec : s'.usecTimer = s.usecTimer

theorem Kept.refl (x : SchedulerThread τ μ ω) : Kept x x := ⟨.inl rfl, rfl, rfl, rfl, rfl⟩

theorem Kept.trans {x y z : SchedulerThread τ μ ω} (h : Kept x y) (h' : Kept y z) : Kept x z := by
  refine ⟨?_, h'.blockType.trans h.blockType, h'.blockedBy.trans h.blockedBy,
    h'.timeout.trans h.timeout, h'.blockedSince.trans h.blockedSince⟩
  rcases h.state with h1 | ⟨h1, h2⟩ <;> rcases h'.state with h3 | ⟨h3, h4⟩
  · exact .inl (h3.trans h1)
  · exact .inr ⟨h1 ▸ h3, h4⟩
  · exact .inr ⟨h1, h3.trans h2⟩
  · exact .inr ⟨h1, h4⟩

theorem Expired.refl (s : Sched τ μ ω) : Expired s s :=
  ⟨fun _ => .inl (Kept.refl _), fun _ => rfl, fun _ h => h, rfl, rfl, rfl⟩

theorem Expired.trans {a b c : Sched τ μ ω} (h : Expired a b) (h' : Expired b c) :
    Expired a c := by
  refine ⟨fun t => ?_, fun m => ?_, fun m hm => h'.unwaited m (h.unwaited m hm),
    h'.wkp.trans h.wkp, h'.usec.trans h.usec, h'.current.trans h.current⟩
  · rcases h.thr t with h1 | h1 <;> rcases h'.thr t with h2 | h2
    · exact .inl (h1.trans h2)
    · refine .inr ⟨?_, h1.timeout ▸ h2.finite, ?_, h2.state, h2.blockType⟩
      · rcases h1.state with h3 | ⟨-, h3⟩
        · rw [← h3]; exact h2.was
        · exact absurd h2.was (by rw [h3]; decide)
      · have := h2.elapsed
        rwa [h1.timeout, h1.blockedSince, h.usec] at this
    · refine .inr ⟨h1.was, h1.finite, h1.elapsed, ?_, h2.blockType.trans h1.blockType⟩
      rcases h2.state with h3 | ⟨h3, -⟩
      · rw [h3]; exact h1.state
      · exact absurd h1.state (by rw [h3]; decide)
    · exact absurd h2.was (by rw [h1.state]; decide)
  · rw [h'.mtx m, h.mtx m]

end Defs

variable {τ μ ω : Type} [DecidableEq τ] [DecidableEq μ] [DecidableEq ω]

section

variable {mc : Machine τ ω} {s s' s₁ : Sched τ μ ω} {pc : τ → Pc μ ω}
  {W W₁ : μ → List τ} {O : τ → List μ} {t : τ} {m : μ} {w : ω}

namespace Base

theorem not_mem_of_notBlocked (h : Base mc s pc W O)
    (ht : (s.thr t).blockType ≠ .mutex) (m : μ) : t ∉ W m :=
  fun hm => ht ((h.waits m t).mp hm).2.1

/-- A waiter of a wakeup waits for no mutex. -/
theorem not_mutex_of_waiter (h : Base mc s pc W O) (hw : (s.wkp w).waiter = some t) :
    (s.thr t).blockType ≠ .mutex := by
  intro hb
  obtain ⟨m, -, hpc, -⟩ := h.blocker t hb
  rcases h.waiter w t hw with h1 | h1 <;> rcases hpc with h2 | h2 <;> rw [h1] at h2 <;> cases h2

/-- The running thread outside of the functions of `thread.c` may go anywhere. -/
theorem goto (h : Base mc s pc W O) (hb : (s.thr t).blockType ≠ .mutex)
    (hw : ∀ w, (s.wkp w).waiter ≠ some t) (p : Pc μ ω) :
    Base mc s (Function.update pc t p) W O where
  rep := h.rep
  waits := h.waits
  owns := h.owns
  blocker u hu := by
    rw [Function.update_of_ne fun he : u = t => hb (he ▸ hu)]
    exact h.blocker u hu
  waiter v u hv := by
    rw [Function.update_of_ne fun he : u = t => hw v (he ▸ hv)]
    exact h.waiter v u hv
  ready := h.ready
  blocked := h.blocked
  idle := h.idle
  alive := h.alive
  stack := h.stack
  locked := h.locked
  wakes := h.wakes

/-- A change of thread fields that no list and no wait depends on. -/
theorem congr (h : Base mc s pc W O) (hm : s'.mtx = s.mtx) (hw : s'.wkp = s.wkp)
    (hq : ∀ t, (s'.thr t).queueNext = (s.thr t).queueNext)
    (ho : ∀ t, (s'.thr t).ownedMutexes = (s.thr t).ownedMutexes)
    (ht : ∀ t, (s'.thr t).blockType = (s.thr t).blockType)
    (hb : ∀ t, (s'.thr t).blockedBy = (s.thr t).blockedBy)
    (hk : ∀ t, (s'.thr t).stack = (s.thr t).stack)
    (hs : ∀ t, (s.thr t).blockType = .mutex →
      ((s'.thr t).state = .blocked ↔ (s.thr t).state = .blocked))
    (hr : ∀ t, (s'.thr t).state = .ready ∨ (s'.thr t).state = .running →
      (s.thr t).blockType = .notBlocked)
    (hl : ∀ t, (s'.thr t).state = .blocked → (s.thr t).blockType ≠ .notBlocked) :
    Base mc s' pc W O where
  rep := h.rep.congr hq ho (fun m => by rw [hm]) fun m => by rw [hm]
  waits m t := by
    rw [h.waits m t]
    simp only [BlockedOn, ht, hb]
    constructor <;> rintro ⟨h1, h2, h3⟩
    · exact ⟨(hs t h2).mpr h1, h2, h3⟩
    · exact ⟨(hs t h2).mp h1, h2, h3⟩
  owns t m := by rw [h.owns t m, Owns, Owns, hm]
  blocker t := by
    rw [ht, hb]
    intro hu
    simpa only [Owns, hm] using h.blocker t hu
  waiter := by rw [hw]; exact h.waiter
  ready t hu := by rw [ht]; exact hr t hu
  blocked t hu := by rw [ht]; exact hl t hu
  idle := by rw [ht]; exact h.idle
  alive t := by rw [ht]; exact h.alive t
  stack t := by rw [hk]; exact h.stack t
  locked m := by simpa only [Owns, hm] using h.locked m
  wakes t := by rw [ht, hb]; exact h.wakes t

/-- A new state for a thread that waits in no queue. -/
theorem setState (h : Base mc s pc W O) {x : ThreadState}
    (hb : (s.thr t).blockType = .mutex → (x = .blocked ↔ (s.thr t).state = .blocked))
    (hr : x = .ready ∨ x = .running → (s.thr t).blockType = .notBlocked)
    (hl : x = .blocked → (s.thr t).blockType ≠ .notBlocked) :
    Base mc (s.modThread t fun y => { y with state := x }) pc W O := by
  refine h.congr rfl rfl ?_ ?_ ?_ ?_ ?_ ?_ ?_ ?_ <;> intro u <;> rw [Sched.modThread_thr] <;>
    by_cases hu : u = t
  all_goals first | rw [if_neg hu] | (subst hu; rw [if_pos rfl])
  · exact hb
  · exact fun _ => Iff.rfl
  · exact hr
  · exact h.ready u
  · exact hl
  · exact h.blocked u

/-- A thread that waits in no queue any more (`s₁` with the lists `W₁`) gets new fields: it is
unblocked, or stops being `BLOCKED` but keeps what it was blocked by. -/
theorem leave (h : Base mc s pc W O) (hs : SameButQueues s s₁) (hrep : Rep s₁ W₁ O)
    (hW : ∀ n u, u ∈ W₁ n ↔ u ∈ W n ∧ u ≠ t)
    {f : SchedulerThread τ μ ω → SchedulerThread τ μ ω}
    (hq : ∀ x, (f x).queueNext = x.queueNext) (ho : ∀ x, (f x).ownedMutexes = x.ownedMutexes)
    (hk : ∀ x, (f x).stack = x.stack)
    (hst : (f (s₁.thr t)).state ≠ .blocked)
    (hb : (f (s₁.thr t)).blockType = .notBlocked ∨
      ((f (s₁.thr t)).blockType = (s.thr t).blockType ∧
        (f (s₁.thr t)).blockedBy = (s.thr t).blockedBy ∧
        (f (s₁.thr t)).state ≠ .ready ∧ (f (s₁.thr t)).state ≠ .running)) :
    Base mc (s₁.modThread t f) pc W₁ O := by
  have hown : ∀ u n, Owns (s₁.modThread t f) u n ↔ Owns s u n := fun u n => by
    simp [Owns, hs.count, hs.owner]
  refine ⟨hrep.modThread t hq ho, fun n u => ?_, fun u n => ?_, fun u hu => ?_, fun v u hv => ?_,
    fun u hu => ?_, fun u hu => ?_, ?_, fun u => ?_, fun u => ?_, fun n hn => ?_,
    fun u hu => ?_⟩
  · rw [hW, h.waits n u]
    by_cases hut : u = t
    · subst hut
      simp [BlockedOn, hst]
    · simp [BlockedOn, hut, hs.state, hs.blockType, hs.blockedBy]
  · rw [h.owns, hown]
  · simp only [hown, Sched.modThread_thr] at hu ⊢
    split at hu
    · rename_i hut
      subst hut
      rw [if_pos rfl]
      rcases hb with hb | ⟨h1, h2, -, -⟩
      · rw [hb] at hu; cases hu
      · rw [h2]; exact h.blocker u (h1 ▸ hu)
    · rename_i hut
      rw [if_neg hut, hs.blockedBy]
      exact h.blocker u (hs.blockType u ▸ hu)
  · exact h.waiter v u (by rwa [Sched.modThread_wkp, hs.wkp] at hv)
  · rw [Sched.modThread_thr] at hu ⊢
    split at hu
    · rename_i hut
      rw [if_pos hut]
      rcases hb with hb | ⟨-, -, h3, h4⟩
      · exact hb
      · rcases hu with hu | hu
        · exact absurd hu h3
        · exact absurd hu h4
    · rename_i hut
      rw [if_neg hut, hs.blockType]
      exact h.ready u (by rwa [hs.state] at hu)
  · rw [Sched.modThread_thr] at hu ⊢
    split at hu
    · exact absurd hu hst
    · rename_i hut
      rw [if_neg hut, hs.blockType]
      exact h.blocked u (by rwa [hs.state] at hu)
  · rw [Sched.modThread_thr]
    split
    · rename_i hut
      rcases hb with hb | ⟨h1, -, -, -⟩
      · exact hb
      · rw [h1, ← hut]; exact h.idle
    · rw [hs.blockType]; exact h.idle
  · rw [Sched.modThread_thr]
    split
    · rcases hb with hb | ⟨h1, -, -, -⟩
      · rw [hb]; exact ⟨by decide, by decide⟩
      · rw [h1]; exact h.alive t
    · rw [hs.blockType]; exact h.alive u
  · rw [Sched.modThread_thr]
    split
    · rw [hk, hs.stack]; exact h.stack t
    · rw [hs.stack]; exact h.stack u
  · obtain ⟨u, hu⟩ := h.locked n ((hs.count n).symm.trans_ne hn)
    exact ⟨u, (hown u n).mpr hu⟩
  · rw [Sched.modThread_thr] at hu ⊢
    split at hu
    · rename_i hut
      rw [if_pos hut]
      rcases hb with hb | ⟨h1, h2, -, -⟩
      · rw [hb] at hu; cases hu
      · rw [h2]; exact h.wakes t (h1 ▸ hu)
    · rename_i hut
      rw [if_neg hut, hs.blockedBy]
      exact h.wakes u (hs.blockType u ▸ hu)

end Base
end

/-! ## `scheduler_switch` -/

section Switch

variable [Fintype τ] [Fintype μ] {mc : Machine τ ω} {s s' s₁ : Sched τ μ ω} {pc : τ → Pc μ ω}
  {W W₁ : μ → List τ} {O : τ → List μ} {t : τ} {m : μ} {w : ω}

/-- Following `blocked_by` of a thread blocked on a mutex takes the thread out of its queue. -/
theorem removeFromBlocker_base (h : Base mc s pc W O) (hb : (s.thr t).blockType = .mutex)
    (hr : removeFromBlocker mc s (s.thr t).blockedBy t = some s₁) :
    SameButQueues s s₁ ∧ (∀ m, (s.mtx m).waiters = none → (s₁.mtx m).waiters = none) ∧
      ∃ W₁, Rep s₁ W₁ O ∧ ∀ n u, u ∈ W₁ n ↔ u ∈ W n ∧ u ≠ t := by
  obtain ⟨m, hm, -, -⟩ := h.blocker t hb
  simp only [hm, removeFromBlocker] at hr
  obtain ⟨hs, hrep⟩ := mutexRemoveFromQueue_rep h.rep hr
  refine ⟨hs, fun n hn => ?_, _, hrep, fun n u => ?_⟩
  · have hW : W n = [] := by
      have := h.rep.waiters n
      rwa [hn, Intrusive.Linked.none_iff] at this
    have := hrep.waiters n
    rw [Function.update_apply] at this
    split at this
    · rename_i he
      rw [← he, hW] at this
      exact this
    · rwa [hW] at this
  · rw [Function.update_apply]
    split
    · rename_i he
      subst he
      rw [(h.rep.nodup_waiters n).mem_erase_iff]
      exact and_comm
    · rename_i he
      refine ⟨fun hu => ⟨hu, ?_⟩, fun hu => hu.1⟩
      rintro rfl
      have := ((h.waits n u).mp hu).2.2
      rw [hm] at this
      cases this
      exact he rfl

/-- A thread in no queue is unblocked. -/
theorem Base.unblock (h : Base mc s pc W O) (ht : (s.thr t).blockType ≠ .mutex) :
    Base mc (s.unblock t) pc W O := by
  refine h.leave ⟨fun _ => rfl, fun _ => rfl, rfl⟩ h.rep (fun n u => ?_) (fun _ => rfl)
    (fun _ => rfl) (fun _ => rfl) (by simp) (.inl rfl)
  refine ⟨fun hu => ⟨hu, ?_⟩, fun hu => hu.1⟩
  rintro rfl
  exact h.not_mem_of_notBlocked ht n hu

theorem expire_base (h : Base mc s pc W O) {nu nu' : U32}
    (hr : expire mc (s, nu) t = some (s', nu')) :
    Expired s s' ∧ ∃ W', Base mc s' pc W' O := by
  simp only [expire] at hr
  split at hr
  · rename_i hc
    obtain ⟨hst, hto, hta⟩ := hc
    obtain ⟨s₁, hs₁, he⟩ := Option.map_eq_some_iff.mp hr
    cases he
    split at hs₁
    · rename_i hbt
      obtain ⟨hs, hun, W₁, hrep, hW⟩ := removeFromBlocker_base h hbt hs₁
      refine ⟨⟨fun u => ?_, hs.mtx, hun, hs.wkp, hs.usec, hs.current⟩, W₁, ?_⟩
      · rw [Sched.unblock_thr]
        split
        · rename_i hu
          subst hu
          exact .inr ⟨hst, hto, hta, rfl, rfl⟩
        · exact .inl ⟨.inl (hs.state u), hs.blockType u, hs.blockedBy u, hs.timeout u,
            hs.blockedSince u⟩
      · exact h.leave hs hrep hW (fun _ => rfl) (fun _ => rfl) (fun _ => rfl) (by simp) (.inl rfl)
    · rename_i hbt
      cases hs₁
      refine ⟨⟨fun u => ?_, fun _ => rfl, fun _ hm => hm, rfl, rfl, rfl⟩, W, h.unblock hbt⟩
      rw [Sched.unblock_thr]
      split
      · rename_i hu
        subst hu
        exact .inr ⟨hst, hto, hta, rfl, rfl⟩
      · exact .inl (Kept.refl _)
  · split at hr <;> cases hr <;> exact ⟨Expired.refl _, W, h⟩

theorem expire_foldlM_base (l : List τ) (h : Base mc s pc W O) {nu nu' : U32}
    (hr : l.foldlM (expire mc) (s, nu) = some (s', nu')) :
    Expired s s' ∧ ∃ W', Base mc s' pc W' O := by
  induction l generalizing s nu W with
  | nil =>
    cases hr
    exact ⟨Expired.refl _, W, h⟩
  | cons t l ih =>
    simp only [List.foldlM_cons, Option.bind_eq_bind, Option.bind_eq_some_iff] at hr
    obtain ⟨⟨s₁, nu₁⟩, h1, h2⟩ := hr
    obtain ⟨he, W₁, hb⟩ := expire_base h h1
    obtain ⟨he', W', hb'⟩ := ih hb h2
    exact ⟨he.trans he', W', hb'⟩

theorem pick_cases (s : Sched τ μ ω) (block : Option τ) (acc : τ × U32) (t : τ) :
    pick s block acc t = acc ∨ (s.thr t).state = .ready ∧ (pick s block acc t).1 = t := by
  simp only [pick]
  split_ifs with h1 h2 h3 h3
  · exact .inr ⟨h1.1, rfl⟩
  · exact .inl rfl
  · exact .inr ⟨h1.1, rfl⟩
  · exact .inl rfl
  · exact .inl rfl

/-- The thread that runs next is ready, or the idle thread. -/
theorem choose_ready (s : Sched τ μ ω) (thread block : Option τ) :
    (s.thr (choose mc s thread block)).state = .ready ∨
      choose mc s thread block = mc.idleThread := by
  have hfold : ∀ (l : List τ) (acc : τ × U32),
      (s.thr acc.1).state = .ready ∨ acc.1 = mc.idleThread →
      (s.thr (l.foldl (pick s block) acc).1).state = .ready ∨
        (l.foldl (pick s block) acc).1 = mc.idleThread := by
    intro l
    induction l with
    | nil => intro acc h; exact h
    | cons t l ih =>
      intro acc h
      refine ih _ ?_
      rcases pick_cases s block acc t with hp | ⟨hs, hp⟩
      · rw [hp]; exact h
      · rw [hp]; exact .inl hs
  unfold choose
  split
  · split
    · exact .inl ‹_›
    · exact hfold _ _ (.inr rfl)
  · exact hfold _ _ (.inr rfl)

theorem loadAccounting_base (h : Base mc s pc W O) :
    Expired s (loadAccounting s) ∧ Base mc (loadAccounting s) pc W O := by
  have hfold : ∀ (l : List τ) (diff : U32) (s : Sched τ μ ω), Base mc s pc W O →
      Expired s (l.foldl (fun s t => s.modThread t fun x =>
        { x with cpuload := (255 * x.cputimeCurrent / diff).setWidth 8, cputimeCurrent := 0 }) s) ∧
      Base mc (l.foldl (fun s t => s.modThread t fun x =>
        { x with cpuload := (255 * x.cputimeCurrent / diff).setWidth 8, cputimeCurrent := 0 }) s)
        pc W O := by
    intro l diff
    induction l with
    | nil => intro s h; exact ⟨Expired.refl _, h⟩
    | cons t l ih =>
      intro s h
      rw [List.foldl_cons]
      have hb : Base mc (s.modThread t fun x =>
          { x with cpuload := (255 * x.cputimeCurrent / diff).setWidth 8, cputimeCurrent := 0 })
          pc W O := by
        refine h.congr rfl rfl ?_ ?_ ?_ ?_ ?_ ?_ ?_ ?_ <;> intro u <;>
          rw [Sched.modThread_thr] <;> by_cases hu : u = t
        all_goals first | rw [if_neg hu] | (subst hu; rw [if_pos rfl])
        · exact fun _ => Iff.rfl
        · exact fun _ => Iff.rfl
        · exact h.ready u
        · exact h.ready u
        · exact h.blocked u
        · exact h.blocked u
      have he : Expired s (s.modThread t fun x =>
          { x with cpuload := (255 * x.cputimeCurrent / diff).setWidth 8, cputimeCurrent := 0 }) := by
        refine ⟨fun u => .inl ?_, fun _ => rfl, fun _ hm => hm, rfl, rfl, rfl⟩
        rw [Sched.modThread_thr]
        split
        · rename_i hu; subst hu; exact ⟨.inl rfl, rfl, rfl, rfl, rfl⟩
        · exact Kept.refl _
      exact ⟨he.trans (ih _ hb).1, (ih _ hb).2⟩
  unfold loadAccounting
  split
  · have hb : Base mc { s with lastTick := s.usecTimer } pc W O :=
      h.congr rfl rfl (fun _ => rfl) (fun _ => rfl) (fun _ => rfl) (fun _ => rfl) (fun _ => rfl)
        (fun _ _ => Iff.rfl) h.ready h.blocked
    have he : Expired s { s with lastTick := s.usecTimer } :=
      ⟨fun _ => .inl (Kept.refl _), fun _ => rfl, fun _ hm => hm, rfl, rfl, rfl⟩
    have := hfold s.threads (s.usecTimer - s.lastTick) _ hb
    exact ⟨he.trans this.1, this.2⟩
  · exact ⟨Expired.refl _, h⟩

theorem stackCheck_eq (h : Base mc s pc W O) : stackCheck mc s = s :=
  if_neg (h.stack s.currentThread)

theorem selectThread_base (h : Base mc s pc W O) {thread block : Option τ} {next : τ}
    (hr : selectThread mc s thread block = some (s', next)) :
    Expired s s' ∧ (∃ W', Base mc s' pc W' O) ∧
      ((s'.thr next).state = .ready ∨ next = mc.idleThread) := by
  simp only [selectThread] at hr
  split at hr
  · cases hr
    exact ⟨Expired.refl _, ⟨W, h⟩, .inr rfl⟩
  · simp only [Option.bind_eq_bind, Option.bind_eq_some_iff, Prod.exists, Option.some.injEq,
      Prod.mk.injEq] at hr
    obtain ⟨s₁, nu, hf, rfl, rfl⟩ := hr
    obtain ⟨he, W', hb⟩ := expire_foldlM_base s.threads h hf
    refine ⟨⟨he.thr, he.mtx, he.unwaited, he.wkp, he.usec, he.current⟩, ⟨W', ?_⟩,
      choose_ready s₁ thread block⟩
    exact hb.congr rfl rfl (fun _ => rfl) (fun _ => rfl) (fun _ => rfl) (fun _ => rfl)
      (fun _ => rfl) (fun _ _ => Iff.rfl) hb.ready hb.blocked

theorem schedulerSwitch_base (h : Base mc s pc W O) {thread block : Option τ}
    (hr : schedulerSwitch mc s thread block = some s') :
    Switched mc s s' ∧ ∃ W', Base mc s' pc W' O := by
  -- the running thread becomes ready
  obtain ⟨s₁, hs₁, he₁, hb₁⟩ : ∃ s₁, s₁ = (if (s.thr s.currentThread).state = .running then
      s.modThread s.currentThread fun x => { x with state := .ready } else s) ∧
      Expired s s₁ ∧ Base mc s₁ pc W O := by
    refine ⟨_, rfl, ?_, ?_⟩ <;> split
    · rename_i hrun
      refine ⟨fun t => .inl ?_, fun _ => rfl, fun _ hm => hm, rfl, rfl, rfl⟩
      rw [Sched.modThread_thr]
      split
      · rename_i ht; subst ht; exact ⟨.inr ⟨hrun, rfl⟩, rfl, rfl, rfl, rfl⟩
      · exact Kept.refl _
    · exact Expired.refl s
    · rename_i hrun
      have hnb := h.ready _ (.inr hrun)
      refine h.setState (fun hb => ?_) (fun _ => hnb) fun hx => nomatch hx
      rw [hnb] at hb
      cases hb
    · exact h
  simp only [schedulerSwitch, ← hs₁, stackCheck_eq hb₁, Option.bind_eq_bind,
    Option.bind_eq_some_iff, Prod.exists, Option.some.injEq] at hr
  obtain ⟨s₃, next, hsel, rfl⟩ := hr
  have hb₁' : Base mc { s₁ with timer := none } pc W O :=
    hb₁.congr rfl rfl (fun _ => rfl) (fun _ => rfl) (fun _ => rfl) (fun _ => rfl)
      (fun _ => rfl) (fun _ _ => Iff.rfl) hb₁.ready hb₁.blocked
  obtain ⟨he₂, hb₂⟩ := loadAccounting_base hb₁'
  obtain ⟨he₃, ⟨W', hb₃⟩, hnext⟩ := selectThread_base hb₂ hsel
  have he : Expired s s₃ := by
    refine he₁.trans (.trans ?_ (he₂.trans he₃))
    exact ⟨fun _ => .inl (Kept.refl _), fun _ => rfl, fun _ hm => hm, rfl, rfl, rfl⟩
  have hnb : (s₃.thr next).blockType = .notBlocked := by
    rcases hnext with hn | hn
    · exact hb₃.ready next (.inl hn)
    · rw [hn]; exact hb₃.idle
  refine ⟨⟨fun t ht => ?_, ?_, ?_, ?_, he.mtx, he.unwaited, he.wkp, he.usec⟩, W', ?_⟩
  · have ht' : t ≠ next := ht
    rw [Sched.modThread_thr, if_neg ht']
    exact he.thr t
  · simp
  · simpa using hnb
  · show next = mc.idleThread ∨ _
    rcases hnext with hn | hn
    · refine .inr ?_
      show (s.thr next).state = .ready ∨ (s.thr next).state = .running ∨
        (s.thr next).state = .blocked
      rcases he.thr next with hk | hk
      · rcases hk.state with h1 | ⟨h1, -⟩
        · exact .inl (h1 ▸ hn)
        · exact .inr (.inl h1)
      · exact .inr (.inr hk.was)
    · exact .inl hn
  · have hb₄ : Base mc { s₃ with currentThread := next } pc W' O :=
      hb₃.congr rfl rfl (fun _ => rfl) (fun _ => rfl) (fun _ => rfl) (fun _ => rfl)
        (fun _ => rfl) (fun _ _ => Iff.rfl) hb₃.ready hb₃.blocked
    refine hb₄.setState (fun hb => ?_) (fun _ => hnb) fun hx => nomatch hx
    exact absurd (hnb.symm.trans hb) (by decide)

/-- A switch leaves a suspended thread alone. -/
theorem Switched.suspended (h : Switched mc s s') (ht : (s.thr t).state = .suspended)
    (hidle : t ≠ mc.idleThread) : Kept (s.thr t) (s'.thr t) := by
  by_cases hc : t = s'.currentThread
  · subst hc
    rcases h.next with h1 | h1 | h1 | h1
    · exact absurd h1 hidle
    all_goals exact absurd (ht.symm.trans h1) (by decide)
  · rcases h.thr t hc with h1 | h1
    · exact h1
    · exact absurd (ht.symm.trans h1.was) (by decide)

/-- A switch suspends no thread. -/
theorem Switched.fresh (h : Switched mc s s') (ht : (s'.thr t).state = .suspended) :
    (s.thr t).state = .suspended := by
  by_cases hc : t = s'.currentThread
  · exact absurd (ht.symm.trans (hc ▸ h.running)) (by decide)
  · rcases h.thr t hc with h1 | h1
    · rcases h1.state with h2 | ⟨-, h2⟩
      · exact h2.symm.trans ht
      · exact absurd (ht.symm.trans h2) (by decide)
    · exact absurd (ht.symm.trans h1.state) (by decide)

end Switch

end Thread
end Freemyipod
