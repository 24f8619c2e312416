import Freemyipod.Thread.Queues

/-!
# Thread.Removal

What the two removal loops of `thread.c` do to one list, whatever the others are.

* `Machine.strict`: no field of the null pointer may be read.
* `unlinkOwned`: `mutex_unlock_internal` up to the end of its loop.
* `Dequeued`, `Disowned`: one element is taken out and nothing else happens.
* `removal_iff`: when the loops do that.
-/

namespace Freemyipod
namespace Thread

variable {τ μ ω : Type}

/-- A function that reads a field of the null pointer has no result. -/
def Machine.strict (mc : Machine τ ω) : Machine τ ω :=
  { mc with nullQueueNextEnds := false, nullOwnedNextEnds := false }

/-- The thread is taken out of the waiters `l` of `obj`. -/
structure Dequeued (s s' : Sched τ μ ω) (obj : μ) (thread : τ) [DecidableEq τ] (l : List τ) :
    Prop where
  rest : SameButQueues s s'
  others : ∀ n, n ≠ obj → (s'.mtx n).waiters = (s.mtx n).waiters
  linked : Intrusive.Linked s'.queueNext (s'.mtx obj).waiters (l.erase thread)
  links : ∀ t, t = thread ∨ t ∉ l → s'.queueNext t = s.queueNext t
  absent : thread ∉ l → s' = s

/-- The mutex is taken out of the mutexes `l` of `owner`. -/
structure Disowned (s s' : Sched τ μ ω) (owner : τ) (obj : μ) [DecidableEq μ] (l : List μ) :
    Prop where
  rest : SameButOwned s s'
  others : ∀ t, t ≠ owner → (s'.thr t).ownedMutexes = (s.thr t).ownedMutexes
  linked : Intrusive.Linked s'.ownedNext (s'.thr owner).ownedMutexes (l.erase obj)
  links : ∀ m, m = obj ∨ m ∉ l → s'.ownedNext m = s.ownedNext m
  absent : obj ∉ l → s' = s

variable {mc : Machine τ ω} {s s' : Sched τ μ ω} {owner thread : τ} {obj : μ}

variable [DecidableEq μ] in
theorem relink_same : ((s.setQueueNext s.queueNext).modMutex obj fun o =>
    { o with waiters := (s.mtx obj).waiters }) = s := by
  have hmtx : Function.update s.mtx obj { s.mtx obj with waiters := (s.mtx obj).waiters } = s.mtx :=
    Function.update_eq_self ..
  cases s
  simp only [Sched.setQueueNext, Sched.modMutex, Sched.queueNext] at hmtx ⊢
  rw [hmtx]

variable [DecidableEq τ] in
theorem reown_same : ((s.setOwnedNext s.ownedNext).modThread owner fun x =>
    { x with ownedMutexes := (s.thr owner).ownedMutexes }) = s := by
  have hthr : Function.update s.thr owner { s.thr owner with
      ownedMutexes := (s.thr owner).ownedMutexes } = s.thr := Function.update_eq_self ..
  cases s
  simp only [Sched.setOwnedNext, Sched.modThread, Sched.ownedNext] at hthr ⊢
  rw [hthr]

section Owned

variable [DecidableEq τ] [DecidableEq μ] [Fintype μ]

/-- `mutex_unlock_internal` up to the end of its loop, for a mutex with the owner `owner`. -/
def unlinkOwned (mc : Machine τ ω) (s : Sched τ μ ω) (owner : τ) (obj : μ) :
    Option (Sched τ μ ω) :=
  if (s.thr owner).ownedMutexes = none then some s
  else do
    let (next, head) ← Intrusive.unlink mc.nullOwnedNextEnds obj (Fintype.card μ) s.ownedNext
      (s.thr owner).ownedMutexes
    some ((s.setOwnedNext next).modThread owner fun x => { x with ownedMutexes := head })

theorem mutexUnlockInternal_eq (ho : (s.mtx obj).owner = some owner)
    (hne : (s.thr owner).ownedMutexes ≠ none) :
    mutexUnlockInternal mc s obj = (unlinkOwned mc s owner obj).map fun s' => handOver s' obj := by
  simp only [mutexUnlockInternal, unlinkOwned, ho, Option.bind_eq_bind, Option.bind_some, if_neg hne]
  cases Intrusive.unlink mc.nullOwnedNextEnds obj (Fintype.card μ) s.ownedNext
    (s.thr owner).ownedMutexes <;> rfl

end Owned

/-! ## One list -/

variable [DecidableEq τ] [DecidableEq μ] [DecidableEq ω] [Fintype τ] [Fintype μ]

theorem mutexRemoveFromQueue_iff {l : List τ}
    (h : Intrusive.Linked s.queueNext (s.mtx obj).waiters l) :
    (∃ s', mutexRemoveFromQueue mc.strict s obj thread = some s' ∧ Dequeued s s' obj thread l) ↔
      ¬ Intrusive.LastOfSeveral thread l := by
  have hf : l.length ≤ Fintype.card τ := h.nodup.length_le_card
  rw [← Intrusive.unlink_iff h hf]
  constructor
  · rintro ⟨s', hs, -⟩
    simp only [mutexRemoveFromQueue, Option.bind_eq_bind, Option.bind_eq_some_iff] at hs
    obtain ⟨r, hr, -⟩ := hs
    exact ⟨r, hr⟩
  · rintro ⟨⟨next, head⟩, hr⟩
    obtain ⟨hl, hfr⟩ := Intrusive.unlink_spec h hf hr
    refine ⟨_, by simp only [mutexRemoveFromQueue, Machine.strict, hr]; rfl, ⟨sameButQueues_relink,
      fun n hn => ?_, ?_, hfr, fun hno => ?_⟩⟩
    · rw [Sched.modMutex_mtx, if_neg hn]
      rfl
    · rw [Sched.modMutex_mtx, if_pos rfl]
      exact hl
    · rw [Intrusive.unlink_of_not_mem h hf hno] at hr
      cases hr
      exact relink_same

omit [Fintype τ] in
theorem unlinkOwned_iff {l : List μ}
    (h : Intrusive.Linked s.ownedNext (s.thr owner).ownedMutexes l) :
    (∃ s', unlinkOwned mc.strict s owner obj = some s' ∧ Disowned s s' owner obj l) ↔
      ¬ Intrusive.LastOfSeveral obj l := by
  have hf : l.length ≤ Fintype.card μ := h.nodup.length_le_card
  rw [← Intrusive.unlink_iff h hf]
  constructor
  · rintro ⟨s', hs, -⟩
    unfold unlinkOwned at hs
    split at hs
    · rename_i hnone
      exact ⟨_, by rw [hnone, Intrusive.unlink]⟩
    · simp only [Option.bind_eq_bind, Option.bind_eq_some_iff] at hs
      obtain ⟨r, hr, -⟩ := hs
      exact ⟨r, hr⟩
  · rintro ⟨⟨next, head⟩, hr⟩
    obtain ⟨hl, hfr⟩ := Intrusive.unlink_spec h hf hr
    have hs : unlinkOwned mc.strict s owner obj = some
        ((s.setOwnedNext next).modThread owner fun x => { x with ownedMutexes := head }) := by
      unfold unlinkOwned
      split
      · rename_i hnone
        rw [hnone, Intrusive.unlink] at hr
        cases hr
        rw [← hnone, reown_same]
      · simp only [Machine.strict, hr]
        rfl
    refine ⟨_, hs, ⟨⟨fun u => ?_, fun _ => rfl, rfl⟩, fun u hu => ?_, ?_, hfr, fun hno => ?_⟩⟩
    · rw [Sched.modThread_thr]
      split <;> simp_all [Sched.setOwnedNext]
    · rw [Sched.modThread_thr, if_neg hu]
      rfl
    · rw [Sched.modThread_thr, if_pos rfl]
      exact hl
    · rw [Intrusive.unlink_of_not_mem h hf hno] at hr
      cases hr
      exact reown_same

/-! ## Both -/

/-- The loops do their work unless the element is the last one and not the first: from it they go on to
the null link that they have just written. -/
theorem removal_iff (mc : Machine τ ω) (s : Sched τ μ ω) :
    (∀ obj l, Intrusive.Linked s.queueNext (s.mtx obj).waiters l → ∀ thread,
      (∃ s', mutexRemoveFromQueue mc.strict s obj thread = some s' ∧ Dequeued s s' obj thread l) ↔
        ¬ Intrusive.LastOfSeveral thread l) ∧
    (∀ owner l, Intrusive.Linked s.ownedNext (s.thr owner).ownedMutexes l → ∀ obj,
      (∃ s', unlinkOwned mc.strict s owner obj = some s' ∧ Disowned s s' owner obj l) ↔
        ¬ Intrusive.LastOfSeveral obj l) :=
  ⟨fun _ _ h _ => mutexRemoveFromQueue_iff h, fun _ _ h _ => unlinkOwned_iff h⟩

/-- Two threads that wait for the first of two mutexes, both of which the first thread owns. -/
def twoWaiters : Sched Bool Bool Unit where
  threads := [false, true]
  thr t := { queueNext := if t then none else some true, ownedMutexes := if t then none else some false }
  mtx m := { waiters := if m then none else some false, ownedNext := if m then none else some true }
  wkp _ := {}
  currentThread := false
  lastTick := 0
  schedulerFrozen := false
  timer := none
  usecTimer := 0

def anyMachine : Machine Bool Unit := ⟨false, (), true, true⟩

/-- The first of two is removed. -/
theorem removes_first :
    (∃ s', mutexRemoveFromQueue anyMachine.strict twoWaiters false false = some s' ∧
      Dequeued twoWaiters s' false false [false, true]) ∧
    (∃ s', unlinkOwned anyMachine.strict twoWaiters false false = some s' ∧
      Disowned twoWaiters s' false false [false, true]) := by
  have hqueue : Intrusive.Linked twoWaiters.queueNext (twoWaiters.mtx false).waiters [false, true] :=
    ⟨rfl, rfl, rfl⟩
  have howned : Intrusive.Linked twoWaiters.ownedNext (twoWaiters.thr false).ownedMutexes
      [false, true] := ⟨rfl, rfl, rfl⟩
  have hfirst : ¬ Intrusive.LastOfSeveral false [false, true] := fun h => absurd h.1 (by decide)
  obtain ⟨hremove, hunlink⟩ := removal_iff anyMachine twoWaiters
  exact ⟨(hremove false _ hqueue false).2 hfirst, (hunlink false _ howned false).2 hfirst⟩

/-- From the last of two the loops go on to the null pointer. -/
theorem follows_null : ¬ (∀ (mc : Machine Bool Unit) (s : Sched Bool Bool Unit),
    (∀ obj l, Intrusive.Linked s.queueNext (s.mtx obj).waiters l → ∀ thread,
      ∃ s', mutexRemoveFromQueue mc.strict s obj thread = some s' ∧ Dequeued s s' obj thread l)) ∧
    ¬ (∀ (mc : Machine Bool Unit) (s : Sched Bool Bool Unit),
    (∀ owner l, Intrusive.Linked s.ownedNext (s.thr owner).ownedMutexes l → ∀ obj,
      ∃ s', unlinkOwned mc.strict s owner obj = some s' ∧ Disowned s s' owner obj l)) := by
  constructor
  · intro h
    obtain ⟨s', hs, -⟩ := h anyMachine twoWaiters false [false, true] ⟨rfl, rfl, rfl⟩ true
    have hnone : mutexRemoveFromQueue anyMachine.strict twoWaiters false true = none := rfl
    rw [hnone] at hs
    cases hs
  · intro h
    obtain ⟨s', hs, -⟩ := h anyMachine twoWaiters false [false, true] ⟨rfl, rfl, rfl⟩ true
    have hnone : unlinkOwned anyMachine.strict twoWaiters false true = none := rfl
    rw [hnone] at hs
    cases hs

end Thread
end Freemyipod
