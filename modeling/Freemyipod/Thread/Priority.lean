import Freemyipod.Thread.Mutex

/-!
# Thread.Priority

`mutex_unlock` hands a mutex to its first waiter. `mutex_add_to_queue` puts a waiter behind those
of higher priority, so that the first one has the highest priority, as long as the queue stays in
order. Everything that `thread.c` does to a queue keeps the order, except for
`thread_set_priority`, which leaves a waiter where it is.
-/

set_option linter.unusedSectionVars false

namespace Freemyipod
namespace Thread

section Defs

variable {τ μ ω : Type}

/-- From the first to the last waiter of a mutex the priority does not rise. -/
def Descending (s : Sched τ μ ω) (l : List τ) : Prop :=
  l.Pairwise fun t u => (s.thr u).priority.toNat ≤ (s.thr t).priority.toNat

def InOrder (s : Sched τ μ ω) : Prop :=
  ∀ m l, Intrusive.Linked s.queueNext (s.mtx m).waiters l → Descending s l

/-- The step does not change the priority of a waiter, or only to one that fits its place in the
queue. -/
def KeepsPlace (z : Sys τ μ ω) (a : Action τ μ ω) : Prop :=
  ∀ t p, a = .call (.threadSetPriority t p) → ∀ m l l',
    Intrusive.Linked z.sched.queueNext (z.sched.mtx m).waiters
      (l ++ t.getD z.sched.currentThread :: l') →
    (∀ u ∈ l, p.toNat ≤ (z.sched.thr u).priority.toNat) ∧
      ∀ u ∈ l', (z.sched.thr u).priority.toNat ≤ p.toNat

end Defs

variable {τ μ ω : Type} [DecidableEq τ] [DecidableEq μ] [DecidableEq ω]

section

variable {s s' : Sched τ μ ω} {W : μ → List τ} {O : τ → List μ} {t : τ} {m : μ}

theorem Descending.congr {l : List τ} (h : Descending s l)
    (hp : ∀ t, (s'.thr t).priority = (s.thr t).priority) : Descending s' l := by
  unfold Descending at h ⊢
  simpa only [hp] using h

/-- The order depends on the queues and the priorities only. -/
theorem InOrder.congr (h : InOrder s) (hq : ∀ t, (s'.thr t).queueNext = (s.thr t).queueNext)
    (hw : ∀ m, (s'.mtx m).waiters = (s.mtx m).waiters)
    (hp : ∀ t, (s'.thr t).priority = (s.thr t).priority) : InOrder s' := by
  intro m l hl
  rw [hw m, show s'.queueNext = s.queueNext from funext hq] at hl
  exact (h m l hl).congr hp

theorem InOrder.modThread (h : InOrder s) (t : τ)
    {f : SchedulerThread τ μ ω → SchedulerThread τ μ ω}
    (hq : ∀ x, (f x).queueNext = x.queueNext) (hp : ∀ x, (f x).priority = x.priority) :
    InOrder (s.modThread t f) := by
  refine h.congr (fun u => ?_) (fun _ => rfl) (fun u => ?_) <;>
    rw [Sched.modThread_thr] <;> split <;> simp_all

theorem InOrder.modMutex (h : InOrder s) (m : μ) {f : Mutex τ μ → Mutex τ μ}
    (hw : ∀ x, (f x).waiters = x.waiters) : InOrder (s.modMutex m f) := by
  refine h.congr (fun _ => rfl) (fun n => ?_) (fun _ => rfl)
  rw [Sched.modMutex_mtx]
  split <;> simp_all

theorem InOrder.unblock (h : InOrder s) (t : τ) : InOrder (s.unblock t) :=
  h.modThread t (fun _ => rfl) fun _ => rfl

theorem InOrder.descending (h : InOrder s) (hr : Rep s W O) (m : μ) : Descending s (W m) :=
  h m _ (hr.waiters m)

theorem Rep.inOrder (hr : Rep s W O) (h : ∀ m, Descending s (W m)) : InOrder s := by
  intro m l hl
  rw [hl.unique (hr.waiters m)]
  exact h m

variable [Fintype τ] [Fintype μ]

theorem mutexAddToQueue_inOrder (h : InOrder s) (hr : Rep s W O) (ht : ∀ n, t ∉ W n)
    (hs : mutexAddToQueue s m t = some s') : InOrder s' := by
  obtain ⟨s₁, hs₁, hsame, hrep⟩ := mutexAddToQueue_rep (m := m) hr ht
  rw [hs] at hs₁
  cases hs₁
  have hp : ∀ u, (s'.thr u).priority = (s.thr u).priority := fun u => by rw [hsame.thr u]
  refine hrep.inOrder fun n => Descending.congr (s := s) ?_ hp
  rw [Function.update_apply]
  split
  · let r : τ → τ → Prop := fun a b => (s.thr b).priority.toNat ≤ (s.thr a).priority.toNat
    have : Std.Total r := ⟨fun a b => Nat.le_total _ _⟩
    have : IsTrans τ r := ⟨fun a b c hab hbc => Nat.le_trans hbc hab⟩
    exact (h.descending hr m).orderedInsert t _
  · exact h.descending hr n

theorem mutexRemoveFromQueue_inOrder {mc : Machine τ ω} (h : InOrder s) (hr : Rep s W O)
    (hs : mutexRemoveFromQueue mc s m t = some s') : InOrder s' := by
  obtain ⟨hsame, hrep⟩ := mutexRemoveFromQueue_rep hr hs
  have hp : ∀ u, (s'.thr u).priority = (s.thr u).priority := fun u => by rw [hsame.thr u]
  refine hrep.inOrder fun n => Descending.congr (s := s) ?_ hp
  rw [Function.update_apply]
  split
  · exact (h.descending hr m).sublist List.erase_sublist
  · exact h.descending hr n

/-- Only the first waiter leaves its queue. -/
theorem handOver_inOrder (h : InOrder s) : InOrder (handOver s m) := by
  cases hw : (s.mtx m).waiters with
  | none =>
    rw [handOver_none hw]
    exact h.modMutex m fun _ => rfl
  | some w =>
    rw [handOver_some hw]
    refine InOrder.modThread ?_ w (fun _ => rfl) fun _ => rfl
    intro n l hl
    rw [Sched.modMutex_mtx] at hl
    split at hl
    · have hfull : Intrusive.Linked s.queueNext (s.mtx m).waiters (w :: l) := ⟨hw, hl⟩
      exact (h m _ hfull).tail
    · exact h n l hl

theorem mutexUnlockInternal_inOrder {mc : Machine τ ω} (h : InOrder s)
    (hs : mutexUnlockInternal mc s m = some s') : InOrder s' := by
  simp only [mutexUnlockInternal, Option.bind_eq_bind, Option.bind_eq_some_iff] at hs
  obtain ⟨owner, -, hs⟩ := hs
  split at hs
  · cases hs
    exact h
  · simp only [Option.bind_eq_some_iff, Prod.exists, Option.some.injEq] at hs
    obtain ⟨next, head, -, rfl⟩ := hs
    refine handOver_inOrder (InOrder.modThread ?_ owner (fun _ => rfl) fun _ => rfl)
    exact h.congr (fun _ => rfl) (fun _ => rfl) fun _ => rfl

/-! ## The switch -/

variable {mc : Machine τ ω}

theorem removeFromBlocker_inOrder (h : InOrder s) (hr : Rep s W O) {b : Option (Blocker μ ω)}
    (hs : removeFromBlocker mc s b t = some s') : InOrder s' ∧ ∃ W', Rep s' W' O := by
  unfold removeFromBlocker at hs
  split at hs
  · exact ⟨mutexRemoveFromQueue_inOrder h hr hs, _, (mutexRemoveFromQueue_rep hr hs).2⟩
  · cases hs

theorem expire_inOrder (h : InOrder s) (hr : Rep s W O) {n n' : U32}
    (hs : expire mc (s, n) t = some (s', n')) : InOrder s' ∧ ∃ W', Rep s' W' O := by
  simp only [expire] at hs
  split at hs
  · obtain ⟨s₁, hs₁, he⟩ := Option.map_eq_some_iff.1 hs
    cases he
    have key : InOrder s₁ ∧ ∃ W', Rep s₁ W' O := by
      split at hs₁
      · exact removeFromBlocker_inOrder h hr hs₁
      · cases hs₁
        exact ⟨h, W, hr⟩
    obtain ⟨h₁, W₁, hr₁⟩ := key
    exact ⟨h₁.unblock t, W₁, hr₁.unblock t⟩
  · split at hs <;> cases hs <;> exact ⟨h, W, hr⟩

theorem expire_foldlM_inOrder (l : List τ) (h : InOrder s) (hr : Rep s W O) {n n' : U32}
    (hs : l.foldlM (expire mc) (s, n) = some (s', n')) : InOrder s' := by
  induction l generalizing s n W with
  | nil =>
    cases hs
    exact h
  | cons t l ih =>
    simp only [List.foldlM_cons, Option.bind_eq_bind, Option.bind_eq_some_iff] at hs
    obtain ⟨⟨s₁, n₁⟩, h1, h2⟩ := hs
    obtain ⟨h₁, W₁, hr₁⟩ := expire_inOrder h hr h1
    exact ih h₁ hr₁ h2

/-- Neither a queue, nor a list of owned mutexes, nor a priority is another one. -/
structure SameLinks (s s' : Sched τ μ ω) : Prop where
  queueNext : ∀ t, (s'.thr t).queueNext = (s.thr t).queueNext
  ownedMutexes : ∀ t, (s'.thr t).ownedMutexes = (s.thr t).ownedMutexes
  priority : ∀ t, (s'.thr t).priority = (s.thr t).priority
  waiters : ∀ m, (s'.mtx m).waiters = (s.mtx m).waiters
  ownedNext : ∀ m, (s'.mtx m).ownedNext = (s.mtx m).ownedNext

namespace SameLinks

theorem refl (s : Sched τ μ ω) : SameLinks s s :=
  ⟨fun _ => rfl, fun _ => rfl, fun _ => rfl, fun _ => rfl, fun _ => rfl⟩

theorem trans {s₁ : Sched τ μ ω} (h : SameLinks s s₁) (h' : SameLinks s₁ s') : SameLinks s s' :=
  ⟨fun t => (h'.queueNext t).trans (h.queueNext t),
    fun t => (h'.ownedMutexes t).trans (h.ownedMutexes t),
    fun t => (h'.priority t).trans (h.priority t), fun m => (h'.waiters m).trans (h.waiters m),
    fun m => (h'.ownedNext m).trans (h.ownedNext m)⟩

theorem rep (h : SameLinks s s') (hr : Rep s W O) : Rep s' W O :=
  hr.congr h.queueNext h.ownedMutexes h.waiters h.ownedNext

theorem inOrder (h : SameLinks s s') (hi : InOrder s) : InOrder s' :=
  hi.congr h.queueNext h.waiters h.priority

theorem modThread (s : Sched τ μ ω) (t : τ) {f : SchedulerThread τ μ ω → SchedulerThread τ μ ω}
    (hq : ∀ x, (f x).queueNext = x.queueNext) (ho : ∀ x, (f x).ownedMutexes = x.ownedMutexes)
    (hp : ∀ x, (f x).priority = x.priority) : SameLinks s (s.modThread t f) := by
  refine ⟨fun u => ?_, fun u => ?_, fun u => ?_, fun _ => rfl, fun _ => rfl⟩ <;>
    rw [Sched.modThread_thr] <;> split <;> simp_all

theorem foldl {f : Sched τ μ ω → τ → Sched τ μ ω} (hf : ∀ s t, SameLinks s (f s t)) (l : List τ)
    (s : Sched τ μ ω) : SameLinks s (l.foldl f s) := by
  induction l generalizing s with
  | nil => exact refl s
  | cons t l ih => exact (hf s t).trans (ih (f s t))

end SameLinks

theorem SameLinks.signal (s : Sched τ μ ω) (w : ω) :
    SameLinks s (s.modWakeup w fun o => { o with signalled := true }) :=
  ⟨fun _ => rfl, fun _ => rfl, fun _ => rfl, fun _ => rfl, fun _ => rfl⟩

theorem SameLinks.block (s : Sched τ μ ω) (type : ThreadBlock) (b : Option (Blocker μ ω))
    (timeout : U32) : SameLinks s (s.block type b timeout) :=
  .modThread s _ (fun _ => rfl) (fun _ => rfl) fun _ => rfl

theorem stackCheck_sameLinks (s : Sched τ μ ω) : SameLinks s (stackCheck mc s) := by
  unfold stackCheck
  split
  · have hsuspend : ∀ (x : Sched τ μ ω) (t : τ), SameLinks x (if (x.thr t).type = .user then
        x.modThread t fun y => { y with state := .suspended } else x) := by
      intro x t
      split
      · exact .modThread x t (fun _ => rfl) (fun _ => rfl) fun _ => rfl
      · exact .refl x
    have hdefunct : ∀ x : Sched τ μ ω, SameLinks x (x.modThread x.currentThread fun y =>
        { y with state := .defunct, blockType := .defunctStkov }) :=
      fun x => .modThread x _ (fun _ => rfl) (fun _ => rfl) fun _ => rfl
    have hall := (SameLinks.foldl hsuspend s.threads s).trans
      ((hdefunct _).trans (.signal _ mc.dbgwakeup))
    dsimp only
    split
    · exact hall.trans (.modThread _ _ (fun _ => rfl) (fun _ => rfl) fun _ => rfl)
    · exact hall
  · exact .refl s

theorem loadAccounting_sameLinks (s : Sched τ μ ω) : SameLinks s (loadAccounting s) := by
  unfold loadAccounting
  split
  · have htick : SameLinks s { s with lastTick := s.usecTimer } :=
      ⟨fun _ => rfl, fun _ => rfl, fun _ => rfl, fun _ => rfl, fun _ => rfl⟩
    refine htick.trans (SameLinks.foldl (fun x t => ?_) _ _)
    exact .modThread x t (fun _ => rfl) (fun _ => rfl) fun _ => rfl
  · exact .refl s

theorem selectThread_inOrder (h : InOrder s) (hr : Rep s W O) {thread block : Option τ} {next : τ}
    (hs : selectThread mc s thread block = some (s', next)) : InOrder s' := by
  simp only [selectThread] at hs
  split at hs
  · cases hs
    exact h
  · simp only [Option.bind_eq_bind, Option.bind_eq_some_iff, Prod.exists, Option.some.injEq,
      Prod.mk.injEq] at hs
    obtain ⟨s₁, n, hf, rfl, rfl⟩ := hs
    exact (expire_foldlM_inOrder s.threads h hr hf).congr (fun _ => rfl) (fun _ => rfl)
      fun _ => rfl

theorem schedulerSwitch_inOrder (h : InOrder s) (hr : Rep s W O) {thread block : Option τ}
    (hs : schedulerSwitch mc s thread block = some s') : InOrder s' := by
  simp only [schedulerSwitch, Option.bind_eq_bind, Option.bind_eq_some_iff, Prod.exists,
    Option.some.injEq] at hs
  obtain ⟨s₃, next, hsel, rfl⟩ := hs
  have hready : SameLinks s (if (s.thr s.currentThread).state = .running then
      s.modThread s.currentThread fun x => { x with state := .ready } else s) := by
    split
    · exact .modThread s _ (fun _ => rfl) (fun _ => rfl) fun _ => rfl
    · exact .refl s
  generalize (if (s.thr s.currentThread).state = .running then
      s.modThread s.currentThread fun x => { x with state := .ready } else s) = s₁ at hsel hready
  have htimer : SameLinks (stackCheck mc s₁) { stackCheck mc s₁ with timer := none } :=
    ⟨fun _ => rfl, fun _ => rfl, fun _ => rfl, fun _ => rfl, fun _ => rfl⟩
  have hall : SameLinks s (loadAccounting { stackCheck mc s₁ with timer := none }) :=
    hready.trans ((stackCheck_sameLinks s₁).trans (htimer.trans (loadAccounting_sameLinks _)))
  have h₃ := selectThread_inOrder (hall.inOrder h) (hall.rep hr) hsel
  have hcur : SameLinks s₃ { s₃ with currentThread := next } :=
    ⟨fun _ => rfl, fun _ => rfl, fun _ => rfl, fun _ => rfl, fun _ => rfl⟩
  exact (hcur.inOrder h₃).modThread next (fun _ => rfl) fun _ => rfl

/-! ## The calls -/

variable {pc : τ → Pc μ ω}

theorem mutexLock_inOrder (h : InOrder s) (hb : Base mc s pc W O) (hc : Caller mc s)
    {timeout : U32} {l : Leave} (hs : mutexLock s m timeout = some (s', l)) : InOrder s' := by
  simp only [mutexLock] at hs
  split at hs
  · cases hs
    refine InOrder.modThread ?_ _ (fun _ => rfl) fun _ => rfl
    exact h.modMutex m fun _ => rfl
  split at hs
  · cases hs
    exact h.modMutex m fun _ => rfl
  split at hs
  · simp only [Option.bind_eq_bind, Option.bind_eq_some_iff, Option.some.injEq,
      Prod.mk.injEq] at hs
    obtain ⟨s₁, hadd, rfl, -⟩ := hs
    have hblock := SameLinks.block s .mutex (some (.mutex m)) timeout
    refine mutexAddToQueue_inOrder (hblock.inOrder h) (hblock.rep hb.rep) (fun n => ?_) hadd
    exact hb.not_mem_of_notBlocked (by rw [hc.notBlocked]; decide) n
  · cases hs
    exact h

theorem mutexUnlock_inOrder (h : InOrder s) {code : Int}
    (hs : mutexUnlock mc s m = some (s', code)) : InOrder s' := by
  simp only [mutexUnlock] at hs
  split at hs
  · cases hs
  split at hs
  · cases hs
  have hcount : InOrder (s.modMutex m fun o => { o with count := o.count - 1 }) :=
    h.modMutex m fun _ => rfl
  split at hs
  · cases hs
    exact hcount
  · simp only [Option.bind_eq_bind, Option.bind_eq_some_iff, Option.some.injEq,
      Prod.mk.injEq] at hs
    obtain ⟨s₁, hu, rfl, -⟩ := hs
    exact mutexUnlockInternal_inOrder hcount hu

theorem wakeupWait_inOrder (h : InOrder s) {w : ω} {timeout : U32} {l : Leave}
    (hs : wakeupWait s w timeout = some (s', l)) : InOrder s' := by
  simp only [wakeupWait] at hs
  split at hs
  · cases hs
  split at hs
  · cases hs
    exact h
  split at hs
  · cases hs
    exact ((SameLinks.block s .wakeup _ timeout).inOrder h).congr (fun _ => rfl) (fun _ => rfl)
      fun _ => rfl
  · cases hs
    exact h

theorem wakeupSignal_inOrder (h : InOrder s) (hr : Rep s W O) {w : ω} {code : Int}
    (hs : wakeupSignal mc s w = some (s', code)) : InOrder s' := by
  have hsig := SameLinks.signal s w
  simp only [wakeupSignal] at hs
  split at hs
  · rename_i t _
    obtain ⟨s₁, hs₁, he⟩ := Option.map_eq_some_iff.1 hs
    cases he
    have h₁ := (hsig.inOrder h).unblock t
    split at hs₁
    · exact schedulerSwitch_inOrder h₁ ((hsig.rep hr).unblock t) hs₁
    · cases hs₁
      exact h₁
  · cases hs
    exact hsig.inOrder h

theorem sleep_inOrder (h : InOrder s) (usecs : U32) : InOrder (sleep s usecs) := by
  unfold sleep
  split
  · exact h.modThread _ (fun _ => rfl) fun _ => rfl
  · exact h

theorem stopTimeout_inOrder (h : InOrder s) (t : τ) : InOrder (s.stopTimeout t) :=
  h.modThread t (fun x => by split <;> rfl) fun x => by split <;> rfl

theorem suspendBlocked_inOrder (h : InOrder s) (hr : Rep s W O)
    (hs : suspendBlocked mc s t = some s') : InOrder s' := by
  unfold suspendBlocked at hs
  split at hs
  · cases hs
    exact stopTimeout_inOrder h t
  · obtain ⟨s₁, hs₁, rfl⟩ := Option.map_eq_some_iff.1 hs
    exact stopTimeout_inOrder (removeFromBlocker_inOrder h hr hs₁).1 t
  · cases hs
    exact stopTimeout_inOrder h t
  · cases hs
    exact h

theorem threadSuspend_inOrder (h : InOrder s) (hr : Rep s W O) {x : Option τ} {code : Int}
    {b : Bool} (hs : threadSuspend mc s x = some (s', code, b)) : InOrder s' := by
  simp only [threadSuspend] at hs
  split at hs
  · cases hs
    exact h
  · obtain ⟨s₁, hs₁, he⟩ := Option.map_eq_some_iff.1 hs
    cases he
    refine InOrder.modThread ?_ _ (fun _ => rfl) fun _ => rfl
    split at hs₁
    · exact suspendBlocked_inOrder h hr hs₁
    · cases hs₁
      exact h

/-- A thread that was suspended is in no queue. -/
theorem threadResume_inOrder (h : InOrder s) (hb : Base mc s pc W O) {x : Option τ} {code : Int}
    (hs : threadResume s x = some (s', code)) : InOrder s' := by
  simp only [threadResume] at hs
  split at hs
  · cases hs
    exact h
  rename_i hst
  have hst : (s.thr (x.getD s.currentThread)).state = .suspended := not_not.1 hst
  split at hs
  · cases hs
    exact h.modThread _ (fun _ => rfl) fun _ => rfl
  · split at hs
    · obtain ⟨s₁, hs₁, he⟩ := Option.map_eq_some_iff.1 hs
      cases he
      refine InOrder.modThread ?_ _ (fun _ => rfl) fun _ => rfl
      refine mutexAddToQueue_inOrder h hb.rep (fun n => hb.not_mem_of_state ?_ n) hs₁
      rw [hst]
      decide
    · cases hs
  · cases hs
    exact h.modThread _ (fun _ => rfl) fun _ => rfl
  · cases hs
    exact h.modThread _ (fun _ => rfl) fun _ => rfl

theorem yield_inOrder (h : InOrder s) (hr : Rep s W O) (hs : yield mc s = some s') :
    InOrder s' := by
  simp only [yield, Option.bind_eq_bind, Option.bind_eq_some_iff, Option.some.injEq] at hs
  obtain ⟨s₁, hs₁, rfl⟩ := hs
  have hpause : SameLinks s (schedulerPauseAccounting s) :=
    .modThread s _ (fun _ => rfl) (fun _ => rfl) fun _ => rfl
  exact (schedulerSwitch_inOrder (hpause.inOrder h) (hpause.rep hr) hs₁).modThread _
    (fun _ => rfl) fun _ => rfl

end

/-! ## Steps -/

variable [Fintype τ] [Fintype μ] {mc : Machine τ ω} {z z₀ z' : Sys τ μ ω} {W : μ → List τ}
  {O : τ → List μ} {a : Action τ μ ω} {o : Out μ ω} {m : μ}

theorem threadSetPriority_inOrder (h : InOrder z.sched) {t : Option τ} {p : BitVec 8}
    (hk : KeepsPlace z (.call (.threadSetPriority t p))) :
    InOrder (threadSetPriority z.sched t p) := by
  intro m l hl
  set x := t.getD z.sched.currentThread with hx
  have hl' : Intrusive.Linked z.sched.queueNext (z.sched.mtx m).waiters l := by
    refine Intrusive.Linked.congr hl fun u _ => ?_
    simp only [Sched.queueNext, threadSetPriority, Sched.modThread_thr]
    split
    · rename_i hu
      rw [hu]
    · rfl
  have hprio : ∀ u, ((threadSetPriority z.sched t p).thr u).priority =
      if u = x then p else (z.sched.thr u).priority := by
    intro u
    simp only [threadSetPriority, Sched.modThread_thr, ← hx]
    split <;> rfl
  have hdesc : Descending z.sched l := h m l hl'
  by_cases hmem : x ∈ l
  · obtain ⟨l₁, l₂, rfl⟩ := List.append_of_mem hmem
    obtain ⟨hbefore, hbehind⟩ := hk t p rfl m l₁ l₂ hl'
    have hnd := hl'.nodup
    rw [List.nodup_append] at hnd
    have h1 : ∀ u ∈ l₁, u ≠ x := fun u hu => hnd.2.2 u hu x List.mem_cons_self
    have h2 : ∀ u ∈ l₂, u ≠ x := by
      rintro u hu rfl
      exact (List.nodup_cons.1 hnd.2.1).1 hu
    unfold Descending at hdesc ⊢
    rw [List.pairwise_append, List.pairwise_cons] at hdesc ⊢
    obtain ⟨hd₁, ⟨-, hd₂⟩, hd⟩ := hdesc
    refine ⟨hd₁.imp_of_mem fun {u v} hu hv hle => ?_, ⟨fun v hv => ?_,
      hd₂.imp_of_mem fun {u v} hu hv hle => ?_⟩, fun u hu v hv => ?_⟩
    · rwa [hprio, hprio, if_neg (h1 u hu), if_neg (h1 v hv)]
    · rw [hprio, hprio, if_pos rfl, if_neg (h2 v hv)]
      exact hbehind v hv
    · rwa [hprio, hprio, if_neg (h2 u hu), if_neg (h2 v hv)]
    · rw [hprio, hprio, if_neg (h1 u hu)]
      rcases List.mem_cons.1 hv with rfl | hv
      · rw [if_pos rfl]
        exact hbefore u hu
      · rw [if_neg (h2 v hv)]
        exact hd u hu v (List.mem_cons_of_mem _ hv)
  · refine hdesc.imp_of_mem fun {u v} hu hv hle => ?_
    rw [hprio, hprio, if_neg fun he : u = x => hmem (he ▸ hu),
      if_neg fun he : v = x => hmem (he ▸ hv)]
    exact hle

theorem stepCall_inOrder (hi : Inv mc z W O) (h : InOrder z.sched) (hc : Caller mc z.sched)
    {c : Call τ μ ω} (hk : KeepsPlace z (.call c)) (hs : stepCall mc z c = some (z', o)) :
    InOrder z'.sched := by
  cases c with
  | mutexLock m timeout =>
    simp only [stepCall, Option.bind_eq_bind, Option.bind_eq_some_iff, Prod.exists] at hs
    obtain ⟨s, l, hl, hs⟩ := hs
    cases l <;> cases hs <;> exact mutexLock_inOrder h hi.base hc hl
  | mutexUnlock m =>
    simp only [stepCall, Option.bind_eq_bind, Option.bind_eq_some_iff, Prod.exists] at hs
    obtain ⟨s, code, hl, hs⟩ := hs
    cases hs
    exact mutexUnlock_inOrder h hl
  | wakeupWait w timeout =>
    simp only [stepCall, Option.bind_eq_bind, Option.bind_eq_some_iff, Prod.exists] at hs
    obtain ⟨s, l, hl, hs⟩ := hs
    cases l <;> cases hs <;> exact wakeupWait_inOrder h hl
  | wakeupSignal w =>
    simp only [stepCall, Option.bind_eq_bind, Option.bind_eq_some_iff, Prod.exists] at hs
    obtain ⟨s, code, hl, hs⟩ := hs
    cases hs
    exact wakeupSignal_inOrder h hi.base.rep hl
  | sleep usecs =>
    cases hs
    exact sleep_inOrder h usecs
  | yield =>
    cases hs
    exact h
  | threadSuspend t =>
    simp only [stepCall, Option.bind_eq_bind, Option.bind_eq_some_iff, Prod.exists] at hs
    obtain ⟨s, code, b, hl, hs⟩ := hs
    split at hs <;> cases hs <;> exact threadSuspend_inOrder h hi.base.rep hl
  | threadResume t =>
    simp only [stepCall, Option.bind_eq_bind, Option.bind_eq_some_iff, Prod.exists] at hs
    obtain ⟨s, code, hl, hs⟩ := hs
    cases hs
    exact threadResume_inOrder h hi.base hl
  | threadSetPriority t p =>
    cases hs
    exact threadSetPriority_inOrder h hk

theorem stepRun_inOrder (hi : Inv mc z W O) (h : InOrder z.sched)
    (hs : stepRun mc z = some (z', o)) : InOrder z'.sched := by
  unfold stepRun at hs
  split at hs
  · cases hs
  · simp only [Option.bind_eq_bind, Option.bind_eq_some_iff] at hs
    obtain ⟨s, hy, he⟩ := hs
    cases he
    exact yield_inOrder h hi.base.rep hy
  · cases hs
    exact h
  · cases hs
    exact h
  · split at hs <;> cases hs <;> exact h
  · cases hs
    exact h

theorem irqHandler_inOrder {s s' : Sched τ μ ω} {pc : τ → Pc μ ω} (hb : Base mc s pc W O)
    (h : InOrder s) {i : Irq τ ω} (hs : irqHandler mc s i = some s') : InOrder s' := by
  cases i with
  | wakeupSignal w =>
    simp only [irqHandler, Option.bind_eq_bind, Option.bind_eq_some_iff, Prod.exists] at hs
    obtain ⟨s₁, code, hl, he⟩ := hs
    cases he
    exact wakeupSignal_inOrder h hb.rep hl
  | timer => exact schedulerSwitch_inOrder h hb.rep hs
  | threadSuspend t =>
    simp only [irqHandler, Option.bind_eq_bind, Option.bind_eq_some_iff, Prod.exists] at hs
    obtain ⟨s₁, code, b, hl, hs⟩ := hs
    have h₁ := threadSuspend_inOrder h hb.rep hl
    split at hs
    · obtain ⟨-, -, -, -, -, -, -, -, W₁, hb₁⟩ := threadSuspend_base hb rfl hl
      have hpause : SameLinks s₁ (schedulerPauseAccounting s₁) :=
        .modThread s₁ _ (fun _ => rfl) (fun _ => rfl) fun _ => rfl
      exact schedulerSwitch_inOrder (hpause.inOrder h₁) (hpause.rep hb₁.rep) hs
    · cases hs
      exact h₁
  | threadResume t =>
    simp only [irqHandler, Option.bind_eq_bind, Option.bind_eq_some_iff, Prod.exists] at hs
    obtain ⟨s₁, code, hl, he⟩ := hs
    cases he
    exact threadResume_inOrder h hb hl
  | freeze value =>
    have hfrozen : SameLinks s { s with schedulerFrozen := value } :=
      ⟨fun _ => rfl, fun _ => rfl, fun _ => rfl, fun _ => rfl, fun _ => rfl⟩
    exact schedulerSwitch_inOrder (hfrozen.inOrder h) (hfrozen.rep hb.rep) hs

theorem step_inOrder (hi : Inv mc z W O) (h : InOrder z.sched) (hk : KeepsPlace z a)
    (hs : step mc z a = some (z', o)) : InOrder z'.sched := by
  cases a with
  | call c =>
    simp only [step] at hs
    split at hs
    · rename_i hc
      exact stepCall_inOrder hi h (hi.caller hc.1 hc.2) hk hs
    · cases hs
  | run => exact stepRun_inOrder hi h hs
  | irq i =>
    simp only [step, stepIrq, Option.bind_eq_bind, Option.bind_eq_some_iff] at hs
    obtain ⟨s, hirq, he⟩ := hs
    cases he
    have hpause : SameLinks z.sched (schedulerPauseAccounting z.sched) :=
      .modThread z.sched _ (fun _ => rfl) (fun _ => rfl) fun _ => rfl
    have h₁ : InOrder s :=
      irqHandler_inOrder (pauseAccounting_base hi.base).2 (hpause.inOrder h) hirq
    have hresume : SameLinks s (schedulerResumeAccounting s) :=
      .modThread s _ (fun _ => rfl) (fun _ => rfl) fun _ => rfl
    exact hresume.inOrder h₁
  | elapse usec =>
    cases hs
    have htimer : SameLinks z.sched { z.sched with usecTimer := usec } :=
      ⟨fun _ => rfl, fun _ => rfl, fun _ => rfl, fun _ => rfl, fun _ => rfl⟩
    exact htimer.inOrder h

theorem Initial.inOrder (h₀ : Initial mc z₀) : InOrder z₀.sched := by
  intro m l hl
  rw [h₀.mutexes m] at hl
  cases Intrusive.Linked.none_iff.1 hl
  exact List.Pairwise.nil

theorem inOrder_reachable {es : List (Sys τ μ ω × Action τ μ ω × Out μ ω)} (h₀ : Initial mc z₀)
    (hr : Lts.Runs (step mc) KeepsPlace z₀ es z) : InOrder z.sched := by
  have key := hr.invariant (I := fun z => (∃ W O, Inv mc z W O) ∧ InOrder z.sched)
    ⟨⟨_, _, h₀.inv⟩, h₀.inOrder⟩ (by
      rintro x b y p ⟨⟨W, O, hi⟩, h⟩ hk hs
      exact ⟨(step_facts hi hs).inv, step_inOrder hi h hk hs⟩)
  exact key.2

/-! ## The new owner -/

/-- `m`, which its owner has locked once, goes to a waiter, and no waiter of it has a higher
priority. -/
def HandsToHighest (s s' : Sched τ μ ω) (m : μ) : Prop :=
  (s.mtx m).count = 1 → (∃ t, BlockedOn s t m) →
    ∃ t, (s'.mtx m).owner = some t ∧ BlockedOn s t m ∧
      ∀ u, BlockedOn s u m → (s.thr u).priority.toNat ≤ (s.thr t).priority.toNat

/-- A contended mutex goes to the first of its waiters. -/
theorem mutexUnlock_owner {s s' : Sched τ μ ω} {pc : τ → Pc μ ω} {t : τ} {r : List τ}
    (hb : Base mc s pc W O) (hcount : (s.mtx m).count = 1) (hw : W m = t :: r) {code : Int}
    (hs : mutexUnlock mc s m = some (s', code)) : (s'.mtx m).owner = some t := by
  simp only [mutexUnlock] at hs
  split at hs
  · cases hs
  split at hs
  · cases hs
  rename_i hne howner
  have howner : (s.mtx m).owner = some s.currentThread := not_not.1 howner
  split at hs
  · rename_i hzero
    simp [hcount] at hzero
  simp only [Option.bind_eq_bind, Option.bind_eq_some_iff, Option.some.injEq,
    Prod.mk.injEq] at hs
  obtain ⟨s₁, hu, rfl, -⟩ := hs
  have hrep : Rep (s.modMutex m fun o => { o with count := o.count - 1 }) W O :=
    hb.rep.modMutex m (fun _ => rfl) fun _ => rfl
  obtain ⟨s₂, -, hrep₂, hout, -, rfl⟩ := mutexUnlockInternal_rep hrep (by simpa using howner)
    ((hb.owns _ m).2 ⟨by omega, howner⟩) hu
  obtain ⟨hfirst, -⟩ := handOver_rep_waiter hrep₂ hw hout
  rw [handOver_some hfirst]
  simp

instance (s s' : Sched τ μ ω) (m : μ) : Decidable (HandsToHighest s s' m) :=
  inferInstanceAs (Decidable (_ → _ → _))

/-- Four threads. -/
def quartet : Machine (Fin 4) Unit where
  idleThread := 0
  dbgwakeup := ()
  nullQueueNextEnds := true
  nullOwnedNextEnds := true

/-- Thread 1 locks the mutex, and threads 2 and 3 wait for it, thread 3 in front. Then thread 1
raises the priority of thread 2. -/
def overtake : List (Action (Fin 4) Unit Unit) :=
  [.irq .timer, .call (.mutexLock () timeoutBlock), .call .yield, .run,
    .call (.mutexLock () timeoutBlock), .run, .call .yield, .run,
    .call (.mutexLock () timeoutBlock), .run, .call (.threadSetPriority (some 2) 5)]

end Thread
end Freemyipod
