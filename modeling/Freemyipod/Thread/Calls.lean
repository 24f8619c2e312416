import Freemyipod.Thread.Invariant

/-!
# Thread.Calls

The functions of `thread.c` that a thread or an interrupt handler calls, one lemma for each, in
the order of the source: it keeps `Base`, and what else it leaves as it was is in `Frame`.
-/

set_option linter.unusedSectionVars false

namespace Freemyipod
namespace Thread

section Defs

variable {τ μ ω : Type}

/-- The two threads are in the same wait, or in none. -/
structure SameBlock (x y : SchedulerThread τ μ ω) : Prop where
  state : y.state = x.state
  blockType : y.blockType = x.blockType
  blockedBy : y.blockedBy = x.blockedBy
  timeout : y.timeout = x.timeout
  blockedSince : y.blockedSince = x.blockedSince
  stack : y.stack = x.stack

/-- Nobody waits for a free mutex. -/
def Unwaited (s : Sched τ μ ω) : Prop := ∀ m, (s.mtx m).count = 0 → (s.mtx m).waiters = none

/-- What the functions on mutexes, and the switch itself, leave as it was. -/
structure Frame (mc : Machine τ ω) (s s' : Sched τ μ ω) : Prop where
  suspended : ∀ t, (s.thr t).state = .suspended → t ≠ s.currentThread → t ≠ mc.idleThread →
    Kept (s.thr t) (s'.thr t)
  fresh : ∀ t, (s'.thr t).state = .suspended → (s.thr t).state = .suspended
  unwaited : Unwaited s → Unwaited s'
  wkp : s'.wkp = s.wkp

/-- The running thread waits for nothing, or is the same as before and in the same wait. -/
def CurrentWait (s s' : Sched τ μ ω) : Prop :=
  (s'.thr s'.currentThread).blockType = .notBlocked ∨
    s'.currentThread = s.currentThread ∧
      (s'.thr s'.currentThread).blockType = (s.thr s.currentThread).blockType

/-- What `thread_suspend` makes of a thread that is not suspended: the time already waited is
taken off a finite timeout. -/
structure Stopped (usec : U32) (x y : SchedulerThread τ μ ω) : Prop where
  state : y.state = .suspended
  blockType : y.blockType = x.blockType
  blockedBy : y.blockedBy = x.blockedBy
  blockedSince : y.blockedSince = x.blockedSince
  timeout : y.timeout = if x.state = .blocked ∧ x.timeout ≠ timeoutBlock then
    x.timeout - (usec - x.blockedSince) else x.timeout

/-- What `thread_resume` makes of a suspended thread. A sleeping thread stays suspended. -/
structure Resumed (usec : U32) (x y : SchedulerThread τ μ ω) : Prop where
  state : y.state = match x.blockType with
    | .sleep => .suspended
    | .mutex => .blocked
    | .wakeup => .blocked
    | _ => .ready
  blockType : y.blockType = x.blockType
  blockedBy : y.blockedBy = x.blockedBy
  timeout : y.timeout = x.timeout
  blockedSince : x.blockType ≠ .notBlocked → y.blockedSince = usec

/-- The running thread while it is outside of the functions of `thread.c`. -/
structure Caller (mc : Machine τ ω) (s : Sched τ μ ω) : Prop where
  notBlocked : (s.thr s.currentThread).blockType = .notBlocked
  noWaiter : ∀ w, (s.wkp w).waiter ≠ some s.currentThread
  notIdle : s.currentThread ≠ mc.idleThread

/-- Where a function with a wait in it goes on. -/
def Leave.next (l : Leave) (p : After μ ω) : Pc μ ω :=
  match l with
  | .ret _ => .user
  | .yield => .yield p

theorem SameBlock.refl (x : SchedulerThread τ μ ω) : SameBlock x x := ⟨rfl, rfl, rfl, rfl, rfl, rfl⟩

theorem SameBlock.kept {x y : SchedulerThread τ μ ω} (h : SameBlock x y) : Kept x y :=
  ⟨.inl h.state, h.blockType, h.blockedBy, h.timeout, h.blockedSince⟩

theorem SameBlock.fresh {x y : SchedulerThread τ μ ω} (h : SameBlock x y)
    (hy : y.state = .suspended) : x.state = .suspended := h.state.symm.trans hy

theorem Frame.refl (mc : Machine τ ω) (s : Sched τ μ ω) : Frame mc s s :=
  ⟨fun _ _ _ _ => Kept.refl _, fun _ => id, id, rfl⟩

end Defs

variable {τ μ ω : Type} [DecidableEq τ] [DecidableEq μ] [DecidableEq ω]

section

variable [Fintype τ] [Fintype μ] {mc : Machine τ ω} {s s' s₁ : Sched τ μ ω} {pc : τ → Pc μ ω}
  {W W' : μ → List τ} {O O' : τ → List μ} {t : τ} {m : μ} {w : ω}

theorem SameButQueues.sameBlock (h : SameButQueues s s') (t : τ) :
    SameBlock (s.thr t) (s'.thr t) :=
  ⟨h.state t, h.blockType t, h.blockedBy t, h.timeout t, h.blockedSince t, h.stack t⟩

theorem SameButOwned.sameBlock (h : SameButOwned s s') (t : τ) :
    SameBlock (s.thr t) (s'.thr t) := by
  rw [h.thr t]; exact ⟨rfl, rfl, rfl, rfl, rfl, rfl⟩

namespace Base

/-- A mutex changes hands, or becomes free or locked; `t`, which gets it or gives it up, waits
for nothing afterwards. -/
theorem change (h : Base mc s pc W O) (hrep : Rep s' W' O')
    (hO : ∀ u n, n ∈ O' u ↔ Owns s' u n) (hown : ∀ u n, u ≠ t → Owns s' u n → Owns s u n)
    (hW : ∀ n u, u ∈ W' n ↔ u ∈ W n ∧ u ≠ t) (hw : s'.wkp = s.wkp)
    (hthr : ∀ u, u ≠ t → SameBlock (s.thr u) (s'.thr u))
    (ht : (s'.thr t).blockType = .notBlocked) (htb : (s'.thr t).state ≠ .blocked)
    (hk : (s'.thr t).stack = (s.thr t).stack)
    (hl : ∀ n, (s'.mtx n).count ≠ 0 → ∃ u, Owns s' u n) : Base mc s' pc W' O' := by
  refine ⟨hrep, fun n u => ?_, hO, fun u hu => ?_, fun v u hv => ?_, fun u hu => ?_,
    fun u hu => ?_, ?_, fun u => ?_, fun u => ?_, hl, fun u hu => ?_⟩
  · rw [hW, h.waits]
    by_cases hut : u = t
    · subst hut
      simp [BlockedOn, ht]
    · obtain ⟨h1, h2, h3, -, -, -⟩ := hthr u hut
      simp [BlockedOn, h1, h2, h3, hut]
  · by_cases hut : u = t
    · subst hut; rw [ht] at hu; cases hu
    · obtain ⟨-, h2, h3, -, -, -⟩ := hthr u hut
      obtain ⟨n, hn, hpc, hno⟩ := h.blocker u (h2 ▸ hu)
      exact ⟨n, h3 ▸ hn, hpc, fun ho => hno (hown u n hut ho)⟩
  · exact h.waiter v u (hw ▸ hv)
  · by_cases hut : u = t
    · exact hut ▸ ht
    · obtain ⟨h1, h2, -, -, -, -⟩ := hthr u hut
      rw [h2]
      rw [h1] at hu
      exact h.ready u hu
  · by_cases hut : u = t
    · subst hut
      exact absurd hu htb
    · obtain ⟨h1, h2, -, -, -, -⟩ := hthr u hut
      rw [h2]
      exact h.blocked u (h1 ▸ hu)
  · by_cases hut : mc.idleThread = t
    · exact hut ▸ ht
    · rw [(hthr _ hut).blockType]; exact h.idle
  · by_cases hut : u = t
    · subst hut; rw [ht]; exact ⟨by decide, by decide⟩
    · rw [(hthr u hut).blockType]; exact h.alive u
  · by_cases hut : u = t
    · subst hut; rw [hk]; exact h.stack u
    · rw [(hthr u hut).stack]; exact h.stack u
  · by_cases hut : u = t
    · subst hut; rw [ht] at hu; cases hu
    · rw [(hthr u hut).blockedBy]; exact h.wakes u ((hthr u hut).blockType ▸ hu)

/-- A thread joins the queue of the mutex it is then blocked on. -/
theorem enqueue (h : Base mc s pc W O) (hrep : Rep s' W' O)
    (hW : ∀ n u, u ∈ W' n ↔ u ∈ W n ∨ u = t ∧ n = m) (hnot : ∀ n, t ∉ W n)
    (hown : ∀ u n, Owns s' u n ↔ Owns s u n) (hw : s'.wkp = s.wkp)
    (hthr : ∀ u, u ≠ t → SameBlock (s.thr u) (s'.thr u)) (ht : BlockedOn s' t m)
    (hk : (s'.thr t).stack = (s.thr t).stack) (hno : ¬ Owns s t m) (hidle : t ≠ mc.idleThread)
    (hpc : pc t = .lockTest m ∨ pc t = .yield (.lockTest m))
    (hl : ∀ n, (s'.mtx n).count ≠ 0 → (s.mtx n).count ≠ 0) : Base mc s' pc W' O := by
  refine ⟨hrep, fun n u => ?_, fun u n => ?_, fun u hu => ?_, fun v u hv => ?_, fun u hu => ?_,
    fun u hu => ?_, ?_, fun u => ?_, fun u => ?_, fun n hn => ?_, fun u hu => ?_⟩
  · rw [hW, h.waits]
    by_cases hut : u = t
    · subst hut
      have hn : ¬ BlockedOn s u n := fun hb => hnot n ((h.waits n u).mpr hb)
      constructor
      · rintro (hb | ⟨-, rfl⟩)
        · exact absurd hb hn
        · exact ht
      · intro hb
        have := hb.2.2
        rw [ht.2.2] at this
        cases this
        exact .inr ⟨rfl, rfl⟩
    · obtain ⟨h1, h2, h3, -, -, -⟩ := hthr u hut
      simp [BlockedOn, h1, h2, h3, hut]
  · rw [h.owns, hown]
  · by_cases hut : u = t
    · subst hut
      exact ⟨m, ht.2.2, hpc, fun ho => hno ((hown u m).mp ho)⟩
    · obtain ⟨-, h2, h3, -, -, -⟩ := hthr u hut
      obtain ⟨n, hn, hpc, hno⟩ := h.blocker u (h2 ▸ hu)
      exact ⟨n, h3 ▸ hn, hpc, fun ho => hno ((hown u n).mp ho)⟩
  · exact h.waiter v u (hw ▸ hv)
  · by_cases hut : u = t
    · subst hut
      rw [ht.1] at hu
      rcases hu with hu | hu <;> cases hu
    · obtain ⟨h1, h2, -, -, -, -⟩ := hthr u hut
      rw [h2]
      rw [h1] at hu
      exact h.ready u hu
  · by_cases hut : u = t
    · subst hut; rw [ht.2.1]; decide
    · obtain ⟨h1, h2, -, -, -, -⟩ := hthr u hut
      rw [h2]
      exact h.blocked u (h1 ▸ hu)
  · rw [(hthr _ hidle.symm).blockType]; exact h.idle
  · by_cases hut : u = t
    · subst hut; rw [ht.2.1]; exact ⟨by decide, by decide⟩
    · rw [(hthr u hut).blockType]; exact h.alive u
  · by_cases hut : u = t
    · subst hut; rw [hk]; exact h.stack u
    · rw [(hthr u hut).stack]; exact h.stack u
  · obtain ⟨u, hu⟩ := h.locked n (hl n hn)
    exact ⟨u, (hown u n).mpr hu⟩
  · by_cases hut : u = t
    · subst hut; rw [ht.2.1] at hu; cases hu
    · rw [(hthr u hut).blockedBy]; exact h.wakes u ((hthr u hut).blockType ▸ hu)

theorem not_mem_owned (h : Base mc s pc W O) (hm : (s.mtx m).count = 0) (u : τ) : m ∉ O u :=
  fun hu => ((h.owns u m).mp hu).1 hm

end Base

/-! ## Mutexes -/

/-- Locking a free mutex. -/
theorem mutexLock_free_base (h : Base mc s pc W O) (hm : (s.mtx m).count = 0)
    (ht : (s.thr t).blockType = .notBlocked)
    (hs : s' = (s.modMutex m fun o =>
      { o with count := 1, owner := some t, ownedNext := (s.thr t).ownedMutexes }).modThread t
        fun x => { x with ownedMutexes := some m }) :
    Frame mc s s' ∧ Base mc s' pc W (Function.update O t (m :: O t)) := by
  have hthr : ∀ u, SameBlock (s.thr u) (s'.thr u) := fun u => by
    rw [hs, Sched.modThread_thr]
    split
    · rename_i hu; subst hu; exact ⟨rfl, rfl, rfl, rfl, rfl, rfl⟩
    · exact SameBlock.refl _
  have hown : ∀ u n, Owns s' u n ↔ if n = m then u = t else Owns s u n := fun u n => by
    rw [hs]
    by_cases hn : n = m <;> simp [Owns, hn, eq_comm]
  refine ⟨⟨fun u _ _ _ => (hthr u).kept, fun u => (hthr u).fresh, fun hu n hn => ?_,
    by rw [hs]; rfl⟩, ?_⟩
  · rw [hs, Sched.modThread_mtx, Sched.modMutex_mtx] at hn ⊢
    split at hn
    · cases hn
    · rename_i hne; rw [if_neg hne]; exact hu n hn
  · refine h.change (t := t) ?_ (fun u n => ?_) (fun u n hu hn => ?_) (fun n u => ?_)
      (by rw [hs]; rfl) (fun u _ => hthr u) ((hthr t).blockType.trans ht)
      (fun hb => h.blocked t ((hthr t).state.symm.trans hb) ht) (hthr t).stack fun n hn => ?_
    · refine h.rep.push_owned (h.not_mem_owned hm) (fun n => ?_) h.rep.waiters_apart (fun u => ?_)
        (fun u => ?_) fun n => ?_
      · have := h.rep.waiters n
        rw [hs, Sched.modThread_mtx, Sched.modMutex_mtx]
        split
        · rename_i hn; subst hn; exact this
        · exact this
      · rw [hs, Sched.modThread_thr]
        split
        · rename_i hu; subst hu; rfl
        · rfl
      · rw [hs, Sched.modThread_thr]; split <;> rfl
      · rw [hs, Sched.modThread_mtx, Sched.modMutex_mtx]; split <;> rfl
    · rw [hown, Function.update_apply]
      by_cases hu : u = t
      · subst hu
        rw [if_pos rfl, List.mem_cons, h.owns]
        by_cases hn : n = m <;> simp [hn]
      · rw [if_neg hu, h.owns]
        split
        · rename_i hn; subst hn
          exact iff_of_false (fun ho => ho.1 hm) hu
        · rfl
    · rw [hown] at hn
      split at hn
      · exact absurd hn hu
      · exact hn
    · refine ⟨fun hu => ⟨hu, ?_⟩, fun hu => hu.1⟩
      rintro rfl
      exact h.not_mem_of_notBlocked (by rw [ht]; decide) n hu
    · by_cases hnm : n = m
      · exact ⟨t, (hown t n).mpr (by rw [if_pos hnm])⟩
      · have hc : (s'.mtx n).count = (s.mtx n).count := by
          rw [hs, Sched.modThread_mtx, Sched.modMutex_mtx, if_neg hnm]
        obtain ⟨u, hu⟩ := h.locked n (hc ▸ hn)
        exact ⟨u, (hown u n).mpr (by rw [if_neg hnm]; exact hu)⟩

/-- A new count for a locked mutex that stays locked. -/
theorem recount_base (h : Base mc s pc W O) (hm : (s.mtx m).count ≠ 0) {k : Nat} (hk : k ≠ 0) :
    Frame mc s (s.modMutex m fun o => { o with count := k }) ∧
      Base mc (s.modMutex m fun o => { o with count := k }) pc W O := by
  have hown : ∀ u n, Owns (s.modMutex m fun o => { o with count := k }) u n ↔ Owns s u n :=
    fun u n => by
      by_cases hn : n = m
      · subst hn; simp [Owns, hk, hm]
      · simp [Owns, hn]
  refine ⟨⟨fun u _ _ _ => Kept.refl _, fun _ => id, fun hu n hn => ?_, rfl⟩, ?_⟩
  · rw [Sched.modMutex_mtx] at hn ⊢
    split at hn
    · exact absurd hn hk
    · rename_i hne; rw [if_neg hne]; exact hu n hn
  · exact
      { rep := h.rep.modMutex m (fun _ => rfl) fun _ => rfl
        waits := h.waits
        owns := fun u n => by rw [h.owns, hown]
        blocker := fun u hu => by simpa only [hown, Sched.modMutex_thr] using h.blocker u hu
        waiter := h.waiter
        ready := h.ready
        blocked := h.blocked
        idle := h.idle
        alive := h.alive
        stack := h.stack
        locked := fun n hn => by
          simp only [hown]
          refine h.locked n fun hc => hn ?_
          rw [Sched.modMutex_mtx, if_neg fun he : n = m => hm (he ▸ hc)]
          exact hc
        wakes := h.wakes }

/-- Joining the queue of a mutex: the thread `t`, which is in no queue, gets the fields of a
thread blocked on `m`. -/
theorem enqueue_base (h : Base mc s pc W O) (hnot : ∀ n, t ∉ W n) (hno : ¬ Owns s t m)
    (hidle : t ≠ mc.idleThread)
    (hpc : pc t = .lockTest m ∨ pc t = .yield (.lockTest m))
    (hthr : ∀ u, u ≠ t → SameBlock (s.thr u) (s'.thr u)) (ht : BlockedOn s' t m)
    (hk : (s'.thr t).stack = (s.thr t).stack)
    (hmtx : ∀ n, s'.mtx n = { s.mtx n with waiters := (s'.mtx n).waiters })
    (hw : s'.wkp = s.wkp)
    {r : τ → τ → Prop} [DecidableRel r]
    (hrep : Rep s' (Function.update W m ((W m).orderedInsert r t)) O) :
    ∃ W', Base mc s' pc W' O := by
  refine ⟨_, h.enqueue hrep (fun n u => ?_) hnot (fun u n => ?_) hw hthr ht hk hno hidle hpc
    fun n hn => ?_⟩
  · rw [Function.update_apply]
    split
    · rename_i hn; subst hn
      rw [List.mem_orderedInsert]
      simp [or_comm]
    · rename_i hn
      simp [hn]
  · rw [Owns, Owns, hmtx]
  · rwa [hmtx] at hn

theorem mutexLock_base (h : Base mc s pc W O) (hc : Caller mc s) {timeout : U32} {l : Leave}
    (hr : mutexLock s m timeout = some (s', l)) :
    Frame mc s s' ∧ s'.currentThread = s.currentThread ∧
      (∃ W' O', Base mc s' (Function.update pc s.currentThread (l.next (.lockTest m))) W' O') ∧
      (l ≠ .yield → (s'.thr s.currentThread).blockType = .notBlocked) := by
  have hnb : (s.thr s.currentThread).blockType ≠ .mutex := by rw [hc.notBlocked]; decide
  have hgo := fun p => h.goto hnb hc.noWaiter p
  simp only [mutexLock] at hr
  split at hr
  · -- the mutex is free
    rename_i hm
    cases hr
    obtain ⟨hf, hb⟩ := mutexLock_free_base (hgo .user) hm hc.notBlocked rfl
    refine ⟨hf, rfl, ⟨W, _, hb⟩, fun _ => ?_⟩
    simpa using hc.notBlocked
  rename_i hm
  split at hr
  · -- recursion
    cases hr
    obtain ⟨hf, hb⟩ := recount_base (k := (s.mtx m).count + 1) (hgo .user) hm (Nat.succ_ne_zero _)
    exact ⟨hf, rfl, ⟨W, O, hb⟩, fun _ => hc.notBlocked⟩
  rename_i how
  split at hr
  · -- the caller joins the queue
    simp only [Option.bind_eq_bind, Option.bind_eq_some_iff, Option.some.injEq,
      Prod.mk.injEq] at hr
    obtain ⟨s₂, hadd, rfl, rfl⟩ := hr
    have hnot : ∀ n, s.currentThread ∉ W n := h.not_mem_of_notBlocked hnb
    have hblock : Rep (s.block .mutex (some (.mutex m)) timeout) W O :=
      h.rep.modThread _ (fun _ => rfl) fun _ => rfl
    obtain ⟨s₃, hadd', hsame, hrep⟩ := mutexAddToQueue_rep (m := m) hblock hnot
    cases hadd.symm.trans hadd'
    have hcur : s₂.currentThread = s.currentThread := hsame.current
    have hself : (s.block .mutex (some (.mutex m)) timeout).thr s.currentThread =
        { s.thr s.currentThread with
          state := .blocked
          blockType := .mutex
          blockedBy := some (.mutex m)
          timeout := timeout
          blockedSince := s.usecTimer } := by simp [Sched.block]
    have hother : ∀ u, u ≠ s.currentThread →
        (s.block .mutex (some (.mutex m)) timeout).thr u = s.thr u := fun u hu => by
      simp [Sched.block, hu]
    have hthr : ∀ u, u ≠ s.currentThread → SameBlock (s.thr u) (s₂.thr u) := fun u hu => by
      have := hsame.sameBlock u
      rwa [hother u hu] at this
    have ht : BlockedOn s₂ s.currentThread m :=
      ⟨by rw [hsame.state, hself], by rw [hsame.blockType, hself], by rw [hsame.blockedBy, hself]⟩
    refine ⟨⟨fun u _ hu _ => (hthr u hu).kept, fun u hu => ?_, fun hu n hn => ?_, hsame.wkp⟩,
      hcur, ?_, fun hy => absurd rfl hy⟩
    · by_cases huc : u = s.currentThread
      · rw [huc, ht.1] at hu; cases hu
      · exact (hthr u huc).fresh hu
    · rw [hsame.count] at hn
      have := hrep.waiters n
      rw [Function.update_of_ne (fun he : n = m => hm (he ▸ hn))] at this
      have hW := h.rep.waiters n
      rw [hu n hn, Intrusive.Linked.none_iff] at hW
      rwa [hW] at this
    · obtain ⟨W', hb⟩ := enqueue_base (hgo (.yield (.lockTest m))) hnot (fun ho => how ho.2)
        hc.notIdle (.inr (Function.update_self ..)) hthr ht (by rw [hsame.stack, hself])
        hsame.mtx hsame.wkp hrep
      exact ⟨W', O, hb⟩
  · cases hr
    exact ⟨Frame.refl mc s, rfl, ⟨W, O, hgo .user⟩, fun _ => hc.notBlocked⟩

/-- Handing over, or freeing, a mutex that is in nobody's list any more. -/
theorem mutexUnlockInternal_base (h : Base mc s pc W O) (ho : Owns s t m)
    (ht : (s.thr t).blockType = .notBlocked) {k : Nat}
    (hr : mutexUnlockInternal mc (s.modMutex m fun o => { o with count := k }) m = some s') :
    Frame mc s s' ∧ s'.currentThread = s.currentThread ∧
      (∃ W' O', Base mc s' pc W' O') ∧
      (∀ u, SameBlock (s.thr u) (s'.thr u) ∨ BlockedOn s u m) := by
  have hrep₀ : Rep (s.modMutex m fun o => { o with count := k }) W O :=
    h.rep.modMutex m (fun _ => rfl) fun _ => rfl
  obtain ⟨s₁, hsame, hrep, hout, -, rfl⟩ := mutexUnlockInternal_rep hrep₀
    (by simpa using ho.2) ((h.owns t m).mpr ho) hr
  have hthr₁ : ∀ u, SameBlock (s.thr u) (s₁.thr u) := hsame.sameBlock
  have hmtx₁ : ∀ n, n ≠ m → (s₁.mtx n).count = (s.mtx n).count ∧
      (s₁.mtx n).owner = (s.mtx n).owner ∧ (s₁.mtx n).waiters = (s.mtx n).waiters := fun n hn => by
    rw [hsame.mtx n]; simp [hn]
  have hwkp : s₁.wkp = s.wkp := hsame.wkp
  have hcur : s₁.currentThread = s.currentThread := hsame.current
  have hO : ∀ u n, n ∈ Function.update O t ((O t).erase m) u ↔ n ∈ O u ∧ n ≠ m := fun u n => by
    rw [Function.update_apply]
    split
    · rename_i hu; subst hu
      rw [(h.rep.nodup_owned u).mem_erase_iff]; exact and_comm
    · rename_i hu
      refine ⟨fun hn => ⟨hn, ?_⟩, fun hn => hn.1⟩
      rintro rfl
      exact hu (h.rep.owned_apart hn ((h.owns t n).mpr ho))
  cases hWm : W m with
  | nil =>
    obtain ⟨he, hrep'⟩ := handOver_rep_free hrep hWm
    have hthr : ∀ u, SameBlock (s.thr u) ((handOver s₁ m).thr u) := fun u => by
      rw [he]; exact hthr₁ u
    have hmtx : ∀ n, (handOver s₁ m).mtx n =
        if n = m then { s₁.mtx m with count := 0 } else s₁.mtx n := fun n => by
      rw [he, Sched.modMutex_mtx]
    have hown : ∀ u n, Owns (handOver s₁ m) u n ↔ Owns s u n ∧ n ≠ m := fun u n => by
      by_cases hn : n = m
      · simp [Owns, hmtx, hn]
      · obtain ⟨h1, h2, -⟩ := hmtx₁ n hn
        simp [Owns, hmtx, hn, h1, h2]
    refine ⟨⟨fun u _ _ _ => (hthr u).kept, fun u => (hthr u).fresh, fun hu n hn => ?_,
      by rw [he]; exact hwkp⟩, by rw [he]; exact hcur, ⟨W, Function.update O t ((O t).erase m), ?_⟩,
      fun u => .inl (hthr u)⟩
    · have hl := hrep'.waiters n
      by_cases hnm : n = m
      · rw [hnm, hWm] at hl; rw [hnm]; exact hl
      · rw [hmtx, if_neg hnm] at hn ⊢
        obtain ⟨h1, -, h3⟩ := hmtx₁ n hnm
        rw [h3]
        exact hu n (h1 ▸ hn)
    · refine h.change (t := t) hrep' (fun u n => ?_) (fun u n _ hn => ((hown u n).mp hn).1)
        (fun n u => ⟨fun hu => ⟨hu, ?_⟩, fun hu => hu.1⟩) (by rw [he]; exact hwkp)
        (fun u _ => hthr u) ((hthr t).blockType.trans ht)
        (fun hb => h.blocked t ((hthr t).state.symm.trans hb) ht) (hthr t).stack fun n hn => ?_
      · rw [hO, hown, h.owns]
      · rintro rfl
        exact h.not_mem_of_notBlocked (by rw [ht]; decide) n hu
      · rw [hmtx] at hn
        split at hn
        · exact absurd rfl hn
        · rename_i hnm
          obtain ⟨u, hu⟩ := h.locked n ((hmtx₁ n hnm).1 ▸ hn)
          exact ⟨u, (hown u n).mpr ⟨hu, hnm⟩⟩
  | cons w r =>
    obtain ⟨hw, hrep'⟩ := handOver_rep_waiter hrep hWm hout
    have hbw : BlockedOn s w m := (h.waits m w).mp (hWm ▸ List.mem_cons_self)
    have hhand := handOver_some hw
    have hthr : ∀ u, u ≠ w → SameBlock (s.thr u) ((handOver s₁ m).thr u) := fun u hu => by
      rw [hhand, Sched.modThread_thr, if_neg hu]; exact hthr₁ u
    have hself : ((handOver s₁ m).thr w).blockType = .notBlocked ∧
        ((handOver s₁ m).thr w).state = .ready ∧
        ((handOver s₁ m).thr w).stack = (s.thr w).stack := by
      rw [hhand, Sched.modThread_thr, if_pos rfl]
      exact ⟨rfl, rfl, (hthr₁ w).stack⟩
    have hmtx : ∀ n, (handOver s₁ m).mtx n = if n = m then
        { s₁.mtx m with
          count := 1
          owner := some w
          waiters := (s₁.thr w).queueNext
          ownedNext := (s₁.thr w).ownedMutexes } else s₁.mtx n := fun n => by
      rw [hhand, Sched.modThread_mtx, Sched.modMutex_mtx]
    have hown : ∀ u n, Owns (handOver s₁ m) u n ↔ if n = m then u = w else Owns s u n :=
      fun u n => by
        by_cases hn : n = m
        · simp [Owns, hmtx, hn, eq_comm]
        · obtain ⟨h1, h2, -⟩ := hmtx₁ n hn
          simp [Owns, hmtx, hn, h1, h2]
    refine ⟨⟨fun u hu _ _ => (hthr u ?_).kept, fun u hu => ?_, fun hu n hn => ?_,
      by rw [hhand]; exact hwkp⟩, by rw [hhand]; exact hcur, ⟨Function.update W m r, Function.update
        (Function.update O t ((O t).erase m)) w (m :: Function.update O t ((O t).erase m) w), ?_⟩,
      fun u => ?_⟩
    · rintro rfl
      exact absurd (hu.symm.trans hbw.1) (by decide)
    · by_cases huw : u = w
      · rw [huw, hself.2.1] at hu; cases hu
      · exact (hthr u huw).fresh hu
    · rw [hmtx] at hn ⊢
      split at hn
      · cases hn
      · rename_i hnm
        obtain ⟨h1, -, h3⟩ := hmtx₁ n hnm
        rw [if_neg hnm, h3]
        exact hu n (h1 ▸ hn)
    · refine h.change (t := w) hrep' (fun u n => ?_) (fun u n hu hn => ?_) (fun n u => ?_)
        (by rw [hhand]; exact hwkp) hthr hself.1 (by rw [hself.2.1]; decide) hself.2.2
        fun n hn => ?_
      · rw [hown, Function.update_apply]
        split
        · rename_i hu; subst hu
          rw [List.mem_cons, hO, h.owns]
          by_cases hn : n = m <;> simp [hn]
        · rename_i hu
          rw [hO, h.owns]
          by_cases hn : n = m <;> simp [hn, hu]
      · rw [hown] at hn
        split at hn
        · exact absurd hn hu
        · exact hn
      · have hnd := h.rep.nodup_waiters m
        rw [hWm, List.nodup_cons] at hnd
        rw [Function.update_apply]
        split
        · rename_i hn; subst hn
          rw [hWm, List.mem_cons]
          constructor
          · intro hu
            exact ⟨.inr hu, fun he => hnd.1 (he ▸ hu)⟩
          · rintro ⟨he | hu, hne⟩
            · exact absurd he hne
            · exact hu
        · rename_i hn
          refine ⟨fun hu => ⟨hu, ?_⟩, fun hu => hu.1⟩
          rintro rfl
          exact hn (h.rep.waiters_apart hu (hWm ▸ List.mem_cons_self))
      · by_cases hnm : n = m
        · exact ⟨w, (hown w n).mpr (by rw [if_pos hnm])⟩
        · rw [hmtx, if_neg hnm] at hn
          obtain ⟨u, hu⟩ := h.locked n ((hmtx₁ n hnm).1 ▸ hn)
          exact ⟨u, (hown u n).mpr (by rw [if_neg hnm]; exact hu)⟩
    · by_cases hu : u = w
      · exact .inr (hu ▸ hbw)
      · exact .inl (hthr u hu)

theorem mutexUnlock_base (h : Base mc s pc W O) (hc : Caller mc s) {code : Int}
    (hr : mutexUnlock mc s m = some (s', code)) :
    Frame mc s s' ∧ s'.currentThread = s.currentThread ∧
      (∃ W' O', Base mc s' (Function.update pc s.currentThread .user) W' O') ∧
      (s'.thr s.currentThread).blockType = .notBlocked := by
  have hnb : (s.thr s.currentThread).blockType ≠ .mutex := by rw [hc.notBlocked]; decide
  have hb := h.goto hnb hc.noWaiter .user
  simp only [mutexUnlock] at hr
  split at hr
  · cases hr
  rename_i hm
  split at hr
  · cases hr
  rename_i how
  split at hr
  · -- still locked
    rename_i hk
    cases hr
    obtain ⟨hf, hb'⟩ := recount_base (k := (s.mtx m).count - 1) hb hm (by simpa using hk)
    have he : (s.modMutex m fun o => { o with count := o.count - 1 }) =
        s.modMutex m fun o => { o with count := (s.mtx m).count - 1 } := rfl
    rw [he]
    exact ⟨hf, rfl, ⟨W, O, hb'⟩, hc.notBlocked⟩
  · simp only [Option.bind_eq_bind, Option.bind_eq_some_iff, Option.some.injEq,
      Prod.mk.injEq] at hr
    obtain ⟨s₂, hu, rfl, -⟩ := hr
    obtain ⟨hf, hcur, hb', hsame⟩ := mutexUnlockInternal_base (k := (s.mtx m).count - 1) hb
      ⟨hm, not_not.mp how⟩ hc.notBlocked hu
    refine ⟨hf, hcur, hb', ?_⟩
    rcases hsame s.currentThread with hs | hs
    · exact hs.blockType.trans hc.notBlocked
    · exact absurd hs.2.1 hnb

/-! ## Wakeups and `sleep` -/

/-- A thread in no queue starts a wait that has no queue. -/
theorem Base.stop (h : Base mc s pc W O) (ht : (s.thr t).blockType ≠ .mutex)
    (hidle : t ≠ mc.idleThread) {f : SchedulerThread τ μ ω → SchedulerThread τ μ ω}
    (hq : ∀ x, (f x).queueNext = x.queueNext) (ho : ∀ x, (f x).ownedMutexes = x.ownedMutexes)
    (hk : ∀ x, (f x).stack = x.stack) (hst : (f (s.thr t)).state = .blocked)
    (hb : (f (s.thr t)).blockType = .sleep ∨ (f (s.thr t)).blockType = .wakeup)
    (hby : (f (s.thr t)).blockType = .wakeup →
      ∃ w, (f (s.thr t)).blockedBy = some (.wakeup w)) :
    Base mc (s.modThread t f) pc W O := by
  have hmutex : (f (s.thr t)).blockType ≠ .mutex := by rcases hb with hb | hb <;> simp [hb]
  have hown : ∀ u n, Owns (s.modThread t f) u n ↔ Owns s u n := fun _ _ => Iff.rfl
  refine ⟨h.rep.modThread t hq ho, fun n u => ?_, fun u n => (h.owns u n).trans (hown u n).symm,
    fun u hu => ?_, h.waiter, fun u hu => ?_, fun u hu => ?_, ?_, fun u => ?_, fun u => ?_,
    h.locked, fun u hu => ?_⟩
  · rw [h.waits]
    by_cases hut : u = t
    · subst hut; simp [BlockedOn, hmutex, ht]
    · simp [BlockedOn, hut]
  · rw [Sched.modThread_thr] at hu ⊢
    split at hu
    · exact absurd hu hmutex
    · rename_i hut; rw [if_neg hut]; exact h.blocker u hu
  · rw [Sched.modThread_thr] at hu ⊢
    split at hu
    · rw [hst] at hu; rcases hu with hu | hu <;> cases hu
    · rename_i hut; rw [if_neg hut]; exact h.ready u hu
  · rw [Sched.modThread_thr] at hu ⊢
    split at hu
    · rename_i hut
      rw [if_pos hut]
      rcases hb with hb | hb <;> simp [hb]
    · rename_i hut; rw [if_neg hut]; exact h.blocked u hu
  · rw [Sched.modThread_thr, if_neg hidle.symm]; exact h.idle
  · rw [Sched.modThread_thr]
    split
    · rcases hb with hb | hb <;> simp [hb]
    · exact h.alive u
  · rw [Sched.modThread_thr]
    split
    · rw [hk]; exact h.stack t
    · exact h.stack u
  · rw [Sched.modThread_thr] at hu ⊢
    split at hu
    · rename_i hut; rw [if_pos hut]; exact hby hu
    · rename_i hut; rw [if_neg hut]; exact h.wakes u hu

/-- A wakeup object keeps its waiter. -/
theorem Base.modWakeup (h : Base mc s pc W O) {f : Wakeup τ → Wakeup τ}
    (hf : (f (s.wkp w)).waiter = (s.wkp w).waiter) : Base mc (s.modWakeup w f) pc W O where
  rep := h.rep.modWakeup w
  waits := h.waits
  owns := h.owns
  blocker := h.blocker
  waiter v t hv := by
    rw [Sched.modWakeup_wkp] at hv
    split at hv
    · rename_i hvw; subst hvw; exact h.waiter v t (hf ▸ hv)
    · exact h.waiter v t hv
  ready := h.ready
  blocked := h.blocked
  idle := h.idle
  alive := h.alive
  stack := h.stack
  locked := h.locked
  wakes := h.wakes

theorem wakeupWait_base (h : Base mc s pc W O) (hc : Caller mc s) {timeout : U32} {l : Leave}
    (hr : wakeupWait s w timeout = some (s', l)) :
    (∀ t, t ≠ s.currentThread → Kept (s.thr t) (s'.thr t)) ∧
      (∀ t, (s'.thr t).state = .suspended → (s.thr t).state = .suspended) ∧ s'.mtx = s.mtx ∧
      s'.currentThread = s.currentThread ∧
      (∃ W' O', Base mc s' (Function.update pc s.currentThread (l.next (.waitClear w))) W' O') ∧
      (l ≠ .yield → (s'.thr s.currentThread).blockType = .notBlocked) := by
  have hnb : (s.thr s.currentThread).blockType ≠ .mutex := by rw [hc.notBlocked]; decide
  have hgo := fun p => h.goto hnb hc.noWaiter p
  simp only [wakeupWait] at hr
  split at hr
  · cases hr
  split at hr
  · cases hr
    exact ⟨fun _ _ => Kept.refl _, fun _ => id, rfl, rfl, ⟨W, O, (hgo .user).modWakeup rfl⟩,
      fun _ => hc.notBlocked⟩
  split at hr
  · cases hr
    refine ⟨fun t ht => ?_, fun t ht => ?_, rfl, rfl, ⟨W, O, ?_⟩, fun hy => absurd rfl hy⟩
    · simp only [Sched.block, Sched.modWakeup_thr, Sched.modThread_thr, if_neg ht]
      exact Kept.refl _
    · simp only [Sched.block, Sched.modWakeup_thr, Sched.modThread_thr] at ht
      split at ht
      · cases ht
      · exact ht
    · have hb := (hgo (.yield (.waitClear w))).stop (t := s.currentThread) (f := fun x =>
        { x with
          state := .blocked
          blockType := .wakeup
          blockedBy := some (.wakeup w)
          timeout := timeout
          blockedSince := s.usecTimer }) hnb hc.notIdle (fun _ => rfl) (fun _ => rfl)
          (fun _ => rfl) rfl (.inr rfl) fun _ => ⟨w, rfl⟩
      refine { hb with rep := hb.rep.modWakeup w, waiter := fun v t hv => ?_ }
      rw [Sched.modWakeup_wkp] at hv
      split at hv
      · rename_i hvw
        cases hv
        subst hvw
        exact .inr (Function.update_self ..)
      · exact hb.waiter v t hv
  · cases hr
    exact ⟨fun _ _ => Kept.refl _, fun _ => id, rfl, rfl, ⟨W, O, hgo .user⟩,
      fun _ => hc.notBlocked⟩

theorem wakeupSignal_base (h : Base mc s pc W O) {code : Int}
    (hr : wakeupSignal mc s w = some (s', code)) :
    (∀ t, (s.thr t).state = .suspended → t ≠ mc.idleThread → (s.wkp w).waiter ≠ some t →
      Kept (s.thr t) (s'.thr t)) ∧
      (∀ t, (s'.thr t).state = .suspended → (s.thr t).state = .suspended) ∧
      (Unwaited s → Unwaited s') ∧ (∀ v, s'.wkp v = if v = w then { s.wkp w with signalled := true } else s.wkp v) ∧
      (∃ W', Base mc s' pc W' O) ∧ CurrentWait s s' ∧
      (s.currentThread ≠ mc.idleThread → s'.currentThread = s.currentThread) ∧
      (s'.currentThread = s.currentThread ∨ (s'.thr s'.currentThread).state = .running) := by
  have hb₁ : Base mc (s.modWakeup w fun o => { o with signalled := true }) pc W O :=
    h.modWakeup rfl
  have hwait : ((s.modWakeup w fun o => { o with signalled := true }).wkp w).waiter =
      (s.wkp w).waiter := by simp
  have hwkp : ∀ v, (s.modWakeup w fun o => { o with signalled := true }).wkp v =
      if v = w then { s.wkp w with signalled := true } else s.wkp v := fun v => by simp
  simp only [wakeupSignal, hwait] at hr
  split at hr
  · rename_i t ht
    have hb₂ := hb₁.unblock (hb₁.not_mutex_of_waiter (hwait.trans ht))
    have hfresh : ∀ u, (((s.modWakeup w fun o => { o with signalled := true }).unblock t).thr
        u).state = .suspended → (s.thr u).state = .suspended := fun u hu => by
      rw [Sched.unblock_thr] at hu
      split at hu
      · cases hu
      · exact hu
    have hkept : ∀ u, u ≠ t →
        Kept (s.thr u) (((s.modWakeup w fun o => { o with signalled := true }).unblock t).thr u) :=
      fun u hu => by
        rw [Sched.unblock_thr, if_neg hu]; exact Kept.refl _
    obtain ⟨s₂, hs, he⟩ := Option.map_eq_some_iff.mp hr
    cases he
    split at hs
    · -- the idle thread switches at once
      rename_i hidle
      obtain ⟨hsw, W', hb'⟩ := schedulerSwitch_base hb₂ hs
      refine ⟨fun u hu hui huw => ?_, fun u hu => hfresh u (hsw.fresh hu), fun hun m hm => ?_,
        fun v => ?_, ⟨W', hb'⟩, .inl hsw.notBlocked, fun hn => absurd hidle hn, .inr hsw.running⟩
      · have hut : u ≠ t := fun he => huw (he ▸ ht)
        have hk := hkept u hut
        have hsu : (((s.modWakeup w fun o => { o with signalled := true }).unblock t).thr u).state =
            .suspended := by
          rw [Sched.unblock_thr, if_neg hut]; exact hu
        exact hk.trans (hsw.suspended hsu hui)
      · rw [hsw.mtx] at hm
        exact hsw.unwaited m (hun m hm)
      · rw [hsw.wkp]; exact hwkp v
    · cases hs
      refine ⟨fun u _ _ huw => hkept u fun he => huw (he ▸ ht), hfresh, id, hwkp, ⟨W, hb₂⟩, ?_,
        fun _ => rfl, .inl rfl⟩
      show ((_ : Sched τ μ ω).thr s.currentThread).blockType = _ ∨ _
      rw [Sched.unblock_thr]
      split
      · exact .inl rfl
      · rename_i hct
        refine .inr ⟨rfl, ?_⟩
        show ((_ : Sched τ μ ω).thr s.currentThread).blockType = _
        rw [Sched.unblock_thr, if_neg hct]
        rfl
  · cases hr
    exact ⟨fun _ _ _ _ => Kept.refl _, fun _ => id, id, hwkp, ⟨W, hb₁⟩, .inr ⟨rfl, rfl⟩,
      fun _ => rfl, .inl rfl⟩

theorem sleep_base (h : Base mc s pc W O) (hc : Caller mc s) (usecs : U32) :
    Frame mc s (sleep s usecs) ∧ (sleep s usecs).currentThread = s.currentThread ∧
      Base mc (sleep s usecs) (Function.update pc s.currentThread (.yield .user)) W O := by
  have hnb : (s.thr s.currentThread).blockType ≠ .mutex := by rw [hc.notBlocked]; decide
  have hb := h.goto hnb hc.noWaiter (.yield .user)
  unfold sleep
  split
  · refine ⟨⟨fun t _ ht _ => ?_, fun t ht => ?_, id, rfl⟩, rfl, hb.stop hnb hc.notIdle
      (fun _ => rfl) (fun _ => rfl) (fun _ => rfl) rfl (.inl rfl) nofun⟩
    · rw [Sched.modThread_thr, if_neg ht]
      exact Kept.refl _
    · rw [Sched.modThread_thr] at ht
      split at ht
      · cases ht
      · exact ht
  · exact ⟨Frame.refl mc s, rfl, hb⟩

/-! ## Suspending and resuming -/

theorem Sched.modThread_modThread {f g : SchedulerThread τ μ ω → SchedulerThread τ μ ω} :
    (s.modThread t f).modThread t g = s.modThread t fun x => g (f x) := by
  simp [Sched.modThread]

/-- A suspended or running thread, or one that was unlinked, leaves no trace in the queues. -/
theorem Base.not_mem_of_state (h : Base mc s pc W O) (ht : (s.thr t).state ≠ .blocked) (m : μ) :
    t ∉ W m :=
  fun hm => ht ((h.waits m t).mp hm).1

/-- `thread_suspend` on a thread that is not suspended. -/
theorem suspend_base (h : Base mc s pc W O)
    (hr : (if (s.thr t).state = .blocked then suspendBlocked mc s t else some s) = some s₁) :
    Stopped s.usecTimer (s.thr t)
        ((s₁.modThread t fun x => { x with state := .suspended }).thr t) ∧
      (∀ u, u ≠ t → SameBlock (s.thr u)
        ((s₁.modThread t fun x => { x with state := .suspended }).thr u)) ∧
      (Unwaited s → Unwaited (s₁.modThread t fun x => { x with state := .suspended })) ∧
      s₁.wkp = s.wkp ∧ s₁.currentThread = s.currentThread ∧ s₁.usecTimer = s.usecTimer ∧
      ∃ W', Base mc (s₁.modThread t fun x => { x with state := .suspended }) pc W' O := by
  split at hr
  · rename_i hst
    -- the thread is blocked: it leaves its queue, and its timeout stops
    have key : ∀ s₂ W₂, SameButQueues s s₂ → Rep s₂ W₂ O →
        (∀ n u, u ∈ W₂ n ↔ u ∈ W n ∧ u ≠ t) →
        (∀ m, (s.mtx m).waiters = none → (s₂.mtx m).waiters = none) →
        s₁ = s₂.stopTimeout t →
        Stopped s.usecTimer (s.thr t)
          ((s₁.modThread t fun x => { x with state := .suspended }).thr t) ∧
        (∀ u, u ≠ t → SameBlock (s.thr u)
          ((s₁.modThread t fun x => { x with state := .suspended }).thr u)) ∧
        (Unwaited s → Unwaited (s₁.modThread t fun x => { x with state := .suspended })) ∧
        s₁.wkp = s.wkp ∧ s₁.currentThread = s.currentThread ∧ s₁.usecTimer = s.usecTimer ∧
        ∃ W', Base mc (s₁.modThread t fun x => { x with state := .suspended }) pc W' O := by
      intro s₂ W₂ hs hrep hW hun he
      have hthr : ∀ u, (s₁.modThread t fun x => { x with state := .suspended }).thr u =
          if u = t then { (if (s₂.thr t).timeout ≠ timeoutBlock then
            { s₂.thr t with
              timeout := (s₂.thr t).timeout - (s₂.usecTimer - (s₂.thr t).blockedSince) }
            else s₂.thr t) with state := .suspended } else s₂.thr u := fun u => by
        rw [he, Sched.stopTimeout, Sched.modThread_modThread, Sched.modThread_thr]
      refine ⟨?_, fun u hu => ?_, fun hun' m hm => ?_, by rw [he]; exact hs.wkp,
        by rw [he]; exact hs.current, by rw [he]; exact hs.usec, W₂, ?_⟩
      · rw [hthr, if_pos rfl]
        refine ⟨rfl, ?_, ?_, ?_, ?_⟩
        · dsimp only; rw [← hs.blockType]; split <;> rfl
        · dsimp only; rw [← hs.blockedBy]; split <;> rfl
        · dsimp only; rw [← hs.blockedSince]; split <;> rfl
        · dsimp only
          rw [hs.timeout, hs.blockedSince, hs.usec]
          by_cases hto : (s.thr t).timeout = timeoutBlock <;> simp [hst, hto, hs.timeout]
      · rw [hthr, if_neg hu]
        exact hs.sameBlock u
      · rw [he] at hm ⊢
        exact hun m (hun' m ((hs.count m).symm.trans hm))
      · rw [he, Sched.stopTimeout, Sched.modThread_modThread]
        refine h.leave hs hrep hW (fun x => ?_) (fun x => ?_) (fun x => ?_) (by simp) (.inr ?_)
        · dsimp only; split <;> rfl
        · dsimp only; split <;> rfl
        · dsimp only; split <;> rfl
        · refine ⟨?_, ?_, by simp, by simp⟩
          · dsimp only; rw [← hs.blockType]; split <;> rfl
          · dsimp only; rw [← hs.blockedBy]; split <;> rfl
    have hout : (s.thr t).blockType ≠ .mutex → ∀ n u, u ∈ W n ↔ u ∈ W n ∧ u ≠ t := by
      intro hb n u
      refine ⟨fun hu => ⟨hu, ?_⟩, fun hu => hu.1⟩
      rintro rfl
      exact h.not_mem_of_notBlocked hb n hu
    simp only [suspendBlocked] at hr
    cases hb : (s.thr t).blockType with
    | notBlocked => exact absurd hb (h.blocked t hst)
    | sleep =>
      rw [hb] at hr
      cases hr
      exact key s W ⟨fun _ => rfl, fun _ => rfl, rfl⟩ h.rep (hout (by rw [hb]; decide))
        (fun _ hm => hm) rfl
    | mutex =>
      rw [hb] at hr
      obtain ⟨s₂, hrem, he⟩ := Option.map_eq_some_iff.mp hr
      obtain ⟨hs, hun, W₂, hrep, hW⟩ := removeFromBlocker_base h hb hrem
      exact key s₂ W₂ hs hrep hW hun he.symm
    | wakeup =>
      rw [hb] at hr
      cases hr
      exact key s W ⟨fun _ => rfl, fun _ => rfl, rfl⟩ h.rep (hout (by rw [hb]; decide))
        (fun _ hm => hm) rfl
    | defunctStkov => exact absurd hb (h.alive t).1
    | defunctPanic => exact absurd hb (h.alive t).2
  · rename_i hst
    cases hr
    refine ⟨?_, fun u hu => ?_, fun hun m hm => hun m hm, rfl, rfl, rfl, W, ?_⟩
    · rw [Sched.modThread_thr, if_pos rfl]
      exact ⟨rfl, rfl, rfl, rfl, by simp [hst]⟩
    · rw [Sched.modThread_thr, if_neg hu]
      exact SameBlock.refl _
    · exact h.setState (fun _ => ⟨(fun hx => nomatch hx), fun hx => absurd hx hst⟩)
        (fun hx => by rcases hx with hx | hx <;> cases hx) fun hx => nomatch hx

/-- `thread_resume` on a suspended thread. -/
theorem threadResume_base (h : Base mc s pc W O) {x : Option τ} {code : Int}
    (hx : x.getD s.currentThread = t) (hst : (s.thr t).state = .suspended)
    (hr : threadResume s x = some (s', code)) :
    Resumed s.usecTimer (s.thr t) (s'.thr t) ∧
      (∀ u, u ≠ t → SameBlock (s.thr u) (s'.thr u)) ∧
      ((∀ m, (s.thr t).blockType = .mutex → (s.thr t).blockedBy = some (.mutex m) →
        (s.mtx m).count ≠ 0) → Unwaited s → Unwaited s') ∧
      s'.wkp = s.wkp ∧ s'.currentThread = s.currentThread ∧ s'.usecTimer = s.usecTimer ∧
      (∀ m, (s'.mtx m).count = (s.mtx m).count) ∧ ∃ W', Base mc s' pc W' O := by
  have key : ∀ f : SchedulerThread τ μ ω → SchedulerThread τ μ ω,
      s' = s.modThread t f → (∀ u, u ≠ t → SameBlock (s.thr u) (s'.thr u)) ∧
        (Unwaited s → Unwaited s') ∧ s'.wkp = s.wkp ∧ s'.currentThread = s.currentThread ∧
        s'.usecTimer = s.usecTimer := by
    rintro f rfl
    refine ⟨fun u hu => ?_, fun hun m hm => hun m hm, rfl, rfl, rfl⟩
    rw [Sched.modThread_thr, if_neg hu]
    exact SameBlock.refl _
  have hself : ∀ f : SchedulerThread τ μ ω → SchedulerThread τ μ ω,
      (s.modThread t f).thr t = f (s.thr t) := fun f => by simp
  have same : ∀ f : SchedulerThread τ μ ω → SchedulerThread τ μ ω,
      (∀ y, (f y).queueNext = y.queueNext) → (∀ y, (f y).ownedMutexes = y.ownedMutexes) →
      (∀ y, (f y).blockType = y.blockType) → (∀ y, (f y).blockedBy = y.blockedBy) →
      (∀ y, (f y).stack = y.stack) →
      ((s.thr t).blockType = .mutex → (f (s.thr t)).state ≠ .blocked) →
      ((f (s.thr t)).state = .ready ∨ (f (s.thr t)).state = .running →
        (s.thr t).blockType = .notBlocked) →
      ((f (s.thr t)).state = .blocked → (s.thr t).blockType ≠ .notBlocked) →
      Base mc (s.modThread t f) pc W O := by
    intro f h1 h2 h3 h4 h5 h6 h7 h8
    refine h.congr rfl rfl ?_ ?_ ?_ ?_ ?_ ?_ ?_ ?_ <;> intro u <;> rw [Sched.modThread_thr] <;>
      by_cases hu : u = t
    all_goals first | rw [if_neg hu] | (subst hu; rw [if_pos rfl])
    · exact h1 _
    · exact h2 _
    · exact h3 _
    · exact h4 _
    · exact h5 _
    · intro hb
      rw [hst]
      exact ⟨fun hx => absurd hx (h6 hb), fun hx => nomatch hx⟩
    · exact fun _ => Iff.rfl
    · exact h7
    · exact h.ready u
    · exact h8
    · exact h.blocked u
  simp only [threadResume, hx, hst, ne_eq, not_true_eq_false, if_false] at hr
  cases hb : (s.thr t).blockType with
  | notBlocked =>
    rw [hb] at hr
    cases hr
    obtain ⟨h1, h2, h3, h4, h5⟩ := key _ rfl
    refine ⟨?_, h1, fun _ => h2, h3, h4, h5, fun _ => rfl, W, same _ (fun _ => rfl) (fun _ => rfl)
      (fun _ => rfl) (fun _ => rfl) (fun _ => rfl) (fun hm => ?_) (fun _ => hb) fun hx => nomatch hx⟩
    · rw [hself]
      exact ⟨by rw [hb], rfl, rfl, rfl, fun hne => absurd hb hne⟩
    · rw [hb] at hm; cases hm
  | sleep =>
    rw [hb] at hr
    cases hr
    obtain ⟨h1, h2, h3, h4, h5⟩ := key _ rfl
    refine ⟨?_, h1, fun _ => h2, h3, h4, h5, fun _ => rfl, W, same _ (fun _ => rfl) (fun _ => rfl)
      (fun _ => rfl) (fun _ => rfl) (fun _ => rfl) (fun hm => ?_) (fun hx => ?_) fun _ => ?_⟩
    · rw [hself]
      exact ⟨by rw [hb]; exact hst, rfl, rfl, rfl, fun _ => rfl⟩
    · rw [hb] at hm; cases hm
    · rcases hx with hx | hx <;> exact absurd (hst.symm.trans hx) (by decide)
    · rw [hb]; decide
  | wakeup =>
    rw [hb] at hr
    cases hr
    obtain ⟨h1, h2, h3, h4, h5⟩ := key _ rfl
    refine ⟨?_, h1, fun _ => h2, h3, h4, h5, fun _ => rfl, W, same _ (fun _ => rfl) (fun _ => rfl)
      (fun _ => rfl) (fun _ => rfl) (fun _ => rfl) (fun hm => ?_) (fun hx => ?_) fun _ => ?_⟩
    · rw [hself]
      exact ⟨by rw [hb], rfl, rfl, rfl, fun _ => rfl⟩
    · rw [hb] at hm; cases hm
    · rcases hx with hx | hx <;> cases hx
    · rw [hb]; decide
  | mutex =>
    obtain ⟨m, hm, hpc, hno⟩ := h.blocker t hb
    have hnot : ∀ n, t ∉ W n := h.not_mem_of_state (by rw [hst]; decide)
    obtain ⟨s₂, hadd, hsame, hrep⟩ := mutexAddToQueue_rep (m := m) h.rep hnot
    simp only [hb, hm, hadd, Option.map_some, Option.some.injEq, Prod.mk.injEq] at hr
    obtain ⟨rfl, -⟩ := hr
    have hthr : ∀ u, (s₂.modThread t fun x =>
        { x with blockedSince := s₂.usecTimer, state := .blocked }).thr u =
        if u = t then { s₂.thr t with blockedSince := s₂.usecTimer, state := .blocked }
        else s₂.thr u := fun u => Sched.modThread_thr u
    have hother : ∀ u, u ≠ t → SameBlock (s.thr u) ((s₂.modThread t fun x =>
        { x with blockedSince := s₂.usecTimer, state := .blocked }).thr u) := fun u hu => by
      rw [hthr, if_neg hu]; exact hsame.sameBlock u
    refine ⟨?_, hother, fun hc hun n hn => ?_, hsame.wkp, hsame.current, hsame.usec,
      hsame.count, enqueue_base h hnot hno ?_ hpc hother ?_ ?_ hsame.mtx hsame.wkp
        (hrep.modThread t (fun _ => rfl) fun _ => rfl)⟩
    · rw [hthr, if_pos rfl]
      exact ⟨by rw [hb], hsame.blockType t, hsame.blockedBy t, hsame.timeout t, fun _ => hsame.usec⟩
    · have hn' : (s.mtx n).count = 0 := (hsame.count n).symm.trans hn
      have hl := hrep.waiters n
      rw [Function.update_of_ne fun he : n = m => hc m rfl hm (he ▸ hn')] at hl
      have hW := h.rep.waiters n
      rw [hun n hn', Intrusive.Linked.none_iff] at hW
      rwa [hW] at hl
    · rintro rfl
      exact absurd (hb.symm.trans h.idle) (by decide)
    · refine ⟨?_, ?_, ?_⟩ <;> rw [hthr, if_pos rfl]
      · exact (hsame.blockType t).trans hb
      · exact (hsame.blockedBy t).trans hm
    · rw [hthr, if_pos rfl]; exact hsame.stack t
  | defunctStkov => exact absurd hb (h.alive t).1
  | defunctPanic => exact absurd hb (h.alive t).2

theorem threadSuspend_base (h : Base mc s pc W O) {x : Option τ} {code : Int} {b : Bool}
    (hx : x.getD s.currentThread = t) (hr : threadSuspend mc s x = some (s', code, b)) :
    ((s.thr t).state ≠ .suspended → Stopped s.usecTimer (s.thr t) (s'.thr t)) ∧
      ((s.thr t).state = .suspended → s' = s) ∧
      (b = true ↔ (s.thr t).state = .running) ∧
      (∀ u, u ≠ t → SameBlock (s.thr u) (s'.thr u)) ∧ (Unwaited s → Unwaited s') ∧
      s'.wkp = s.wkp ∧ s'.currentThread = s.currentThread ∧ s'.usecTimer = s.usecTimer ∧
      ∃ W', Base mc s' pc W' O := by
  simp only [threadSuspend, hx] at hr
  split at hr
  · rename_i hst
    cases hr
    refine ⟨fun hn => absurd hst hn, fun _ => rfl, ?_, fun u _ => SameBlock.refl _, id, rfl, rfl,
      rfl, W, h⟩
    rw [hst]
    decide
  · rename_i hst
    obtain ⟨s₁, hs, he⟩ := Option.map_eq_some_iff.mp hr
    cases he
    obtain ⟨h1, h2, h3, h4, h5, h6, h7⟩ := suspend_base h hs
    exact ⟨fun _ => h1, fun hn => absurd hn hst, by simp, h2, h3, h4, h5, h6, h7⟩

theorem threadSetPriority_base (h : Base mc s pc W O) (x : Option τ) (p : BitVec 8) :
    (∀ u, SameBlock (s.thr u) ((threadSetPriority s x p).thr u)) ∧
      Base mc (threadSetPriority s x p) pc W O := by
  unfold threadSetPriority
  refine ⟨fun u => ?_, h.congr rfl rfl ?_ ?_ ?_ ?_ ?_ ?_ ?_ ?_⟩ <;> try intro u
  all_goals
    rw [Sched.modThread_thr]
    by_cases hu : u = x.getD s.currentThread
    all_goals first | rw [if_neg hu] | (subst hu; rw [if_pos rfl])
  · exact ⟨rfl, rfl, rfl, rfl, rfl, rfl⟩
  · exact SameBlock.refl _
  · exact fun _ => Iff.rfl
  · exact fun _ => Iff.rfl
  · exact h.ready _
  · exact h.ready _
  · exact h.blocked _
  · exact h.blocked _

/-! ## Accounting and `yield` -/

/-- Accounting changes no field that a wait depends on. -/
theorem Base.account (h : Base mc s pc W O)
    {f : SchedulerThread τ μ ω → SchedulerThread τ μ ω}
    (hf : ∀ x, SameBlock x (f x)) (hq : ∀ x, (f x).queueNext = x.queueNext)
    (ho : ∀ x, (f x).ownedMutexes = x.ownedMutexes) :
    (∀ u, SameBlock (s.thr u) ((s.modThread t f).thr u)) ∧ Base mc (s.modThread t f) pc W O := by
  refine ⟨fun u => ?_, h.congr rfl rfl ?_ ?_ ?_ ?_ ?_ ?_ ?_ ?_⟩ <;> try intro u
  all_goals
    rw [Sched.modThread_thr]
    by_cases hu : u = t
    all_goals first | rw [if_neg hu] | (subst hu; rw [if_pos rfl])
  · exact hf _
  · exact SameBlock.refl _
  · exact hq _
  · exact ho _
  · exact (hf _).blockType
  · exact (hf _).blockedBy
  · exact (hf _).stack
  · rw [(hf _).state]; exact fun _ => Iff.rfl
  · exact fun _ => Iff.rfl
  · rw [(hf _).state]; exact h.ready _
  · exact h.ready _
  · rw [(hf _).state]; exact h.blocked _
  · exact h.blocked _

theorem pauseAccounting_base (h : Base mc s pc W O) :
    (∀ u, SameBlock (s.thr u) ((schedulerPauseAccounting s).thr u)) ∧
      Base mc (schedulerPauseAccounting s) pc W O :=
  h.account (fun _ => ⟨rfl, rfl, rfl, rfl, rfl, rfl⟩) (fun _ => rfl) fun _ => rfl

theorem resumeAccounting_base (h : Base mc s pc W O) :
    (∀ u, SameBlock (s.thr u) ((schedulerResumeAccounting s).thr u)) ∧
      Base mc (schedulerResumeAccounting s) pc W O :=
  h.account (fun _ => ⟨rfl, rfl, rfl, rfl, rfl, rfl⟩) (fun _ => rfl) fun _ => rfl

/-- A switch as the code around it sees it. -/
theorem schedulerSwitch_frame (h : Base mc s pc W O) {thread block : Option τ}
    (hr : schedulerSwitch mc s thread block = some s') :
    (∀ t, (s.thr t).state = .suspended → t ≠ mc.idleThread → Kept (s.thr t) (s'.thr t)) ∧
      (∀ t, (s'.thr t).state = .suspended → (s.thr t).state = .suspended) ∧
      (Unwaited s → Unwaited s') ∧ s'.wkp = s.wkp ∧ s'.usecTimer = s.usecTimer ∧
      (s'.thr s'.currentThread).state = .running ∧
      (s'.thr s'.currentThread).blockType = .notBlocked ∧ ∃ W', Base mc s' pc W' O := by
  obtain ⟨hsw, hb⟩ := schedulerSwitch_base h hr
  refine ⟨fun t ht hi => hsw.suspended ht hi, fun t ht => hsw.fresh ht, fun hun m hm => ?_,
    hsw.wkp, hsw.usec, hsw.running, hsw.notBlocked, hb⟩
  rw [hsw.mtx] at hm
  exact hsw.unwaited m (hun m hm)

end

end Thread
end Freemyipod
