import Freemyipod.Thread.Priority

/-!
# Thread.Switch

What `scheduler_switch` leaves behind. `accounted` is the state after the stack check and the load
accounting, in which the timeouts are looked at and a thread is chosen.

* `expire_passed`, `choose_spec`: one lemma for each of the two loops over the threads.
* `schedulerSwitch_post`: of the threads blocked with a timeout those are unblocked whose time has
  passed, the thread of least score runs next, and the timer is set for the idle thread.

The microsecond timer wraps around. `Clock` relates it to the time that has really passed, and
says by how much a switch may come too late for `TIME_AFTER` to tell.
-/

set_option linter.unusedSectionVars false

namespace Freemyipod
namespace Thread

section Defs

variable {τ μ ω : Type}

/-- `t` is `BLOCKED` with a finite timeout. -/
def Waits (s : Sched τ μ ω) (t : τ) : Prop :=
  (s.thr t).state = .blocked ∧ (s.thr t).timeout ≠ timeoutBlock

/-- The test of `scheduler_switch` for a timeout that has ended. -/
def Due (s : Sched τ μ ω) (t : τ) : Prop :=
  Waits s t ∧ timeAfter s.usecTimer ((s.thr t).blockedSince + (s.thr t).timeout) = true

/-- It is `now` microseconds after the timer started, a thread that waits does so from `since t`
on, and no timeout ended more than `2 ^ 31` microseconds ago. -/
structure Clock (s : Sched τ μ ω) (now : Nat) (since : τ → Nat) : Prop where
  usec : s.usecTimer = BitVec.ofNat 32 now
  blockedSince : ∀ t ∈ s.threads, Waits s t → (s.thr t).blockedSince = BitVec.ofNat 32 (since t)
  since_le : ∀ t ∈ s.threads, Waits s t → since t ≤ now
  timeout_lt : ∀ t ∈ s.threads, Waits s t → (s.thr t).timeout.toNat < 2 ^ 31
  inTime : ∀ t ∈ s.threads, Waits s t → now ≤ since t + (s.thr t).timeout.toNat + 2 ^ 31

/-- The finite timeout of `t` has passed. -/
def Ended (s : Sched τ μ ω) (now : Nat) (since : τ → Nat) (t : τ) : Prop :=
  Waits s t ∧ since t + (s.thr t).timeout.toNat < now

/-- What is left of a timeout that has not ended. -/
def left (s : Sched τ μ ω) (t : τ) : U32 :=
  (s.thr t).blockedSince + (s.thr t).timeout - s.usecTimer

namespace Clock

variable {s : Sched τ μ ω} {now : Nat} {since : τ → Nat} {t : τ}

theorem due_iff (h : Clock s now since) (ht : t ∈ s.threads) : Due s t ↔ Ended s now since t := by
  refine and_congr_right fun hw => ?_
  have hsince := h.since_le t ht hw
  have htimeout := h.timeout_lt t ht hw
  have hlate := h.inTime t ht hw
  rw [timeAfter, BitVec.msb_eq_decide, decide_eq_true_iff, h.usec, h.blockedSince t ht hw,
    BitVec.toNat_sub, BitVec.toNat_add, BitVec.toNat_ofNat, BitVec.toNat_ofNat]
  omega

theorem left_toNat (h : Clock s now since) (ht : t ∈ s.threads) (hw : Waits s t)
    (hn : ¬ Ended s now since t) :
    (left s t).toNat = since t + (s.thr t).timeout.toNat - now := by
  have hsince := h.since_le t ht hw
  have htimeout := h.timeout_lt t ht hw
  have hnow : now ≤ since t + (s.thr t).timeout.toNat := by
    by_contra hlt
    exact hn ⟨hw, by omega⟩
  rw [left, h.usec, h.blockedSince t ht hw, BitVec.toNat_sub, BitVec.toNat_add,
    BitVec.toNat_ofNat, BitVec.toNat_ofNat]
  omega

end Clock

/-- What `scheduler_switch` can change of the threads before it looks at their timeouts: a thread
that is `BLOCKED` or `RUNNING` afterwards was so before. -/
structure Prepared (s s' : Sched τ μ ω) : Prop where
  blocked : ∀ t, (s'.thr t).state = .blocked → (s.thr t).state = .blocked ∧
    (s'.thr t).timeout = (s.thr t).timeout ∧
    (s'.thr t).blockedSince = (s.thr t).blockedSince ∧
    (s'.thr t).blockType = (s.thr t).blockType ∧ (s'.thr t).blockedBy = (s.thr t).blockedBy
  running : ∀ t, (s'.thr t).state = .running → (s.thr t).state = .running
  threads : s'.threads = s.threads
  usec : s'.usecTimer = s.usecTimer
  frozen : s'.schedulerFrozen = s.schedulerFrozen
  current : s'.currentThread = s.currentThread

namespace Prepared

variable {s s' s₁ : Sched τ μ ω} {now : Nat} {since : τ → Nat} {t : τ}

theorem refl (s : Sched τ μ ω) : Prepared s s :=
  ⟨fun _ h => ⟨h, rfl, rfl, rfl, rfl⟩, fun _ h => h, rfl, rfl, rfl, rfl⟩

theorem trans (h : Prepared s s₁) (h' : Prepared s₁ s') : Prepared s s' where
  blocked t ht := by
    obtain ⟨hst, hto, hsi, hty, hby⟩ := h'.blocked t ht
    obtain ⟨hst', hto', hsi', hty', hby'⟩ := h.blocked t hst
    exact ⟨hst', hto.trans hto', hsi.trans hsi', hty.trans hty', hby.trans hby'⟩
  running t ht := h.running t (h'.running t ht)
  threads := h'.threads.trans h.threads
  usec := h'.usec.trans h.usec
  frozen := h'.frozen.trans h.frozen
  current := h'.current.trans h.current

theorem waits (h : Prepared s s') (ht : Waits s' t) : Waits s t := by
  obtain ⟨hst, hto, -⟩ := h.blocked t ht.1
  exact ⟨hst, fun he => ht.2 (hto.trans he)⟩

theorem clock (h : Prepared s s') (hc : Clock s now since) : Clock s' now since where
  usec := h.usec.trans hc.usec
  blockedSince t hmem ht := by
    rw [(h.blocked t ht.1).2.2.1]
    exact hc.blockedSince t (h.threads ▸ hmem) (h.waits ht)
  since_le t hmem ht := hc.since_le t (h.threads ▸ hmem) (h.waits ht)
  timeout_lt t hmem ht := by
    rw [(h.blocked t ht.1).2.1]
    exact hc.timeout_lt t (h.threads ▸ hmem) (h.waits ht)
  inTime t hmem ht := by
    rw [(h.blocked t ht.1).2.1]
    exact hc.inTime t (h.threads ▸ hmem) (h.waits ht)

end Prepared
end Defs

variable {τ μ ω : Type} [DecidableEq τ] [DecidableEq μ] [DecidableEq ω] [Fintype τ] [Fintype μ]

/-! ## Before the timeouts -/

section Before

variable {mc : Machine τ ω} {s : Sched τ μ ω} {t : τ}

/-- `if (current_thread->state == THREAD_RUNNING) current_thread->state = THREAD_READY;`. -/
@[grind =] def preempt (s : Sched τ μ ω) : Sched τ μ ω :=
  if (s.thr s.currentThread).state = .running then
    s.modThread s.currentThread fun x => { x with state := .ready }
  else s

/-- The state in which `scheduler_switch` looks at the timeouts and chooses a thread. -/
def accounted (mc : Machine τ ω) (s : Sched τ μ ω) : Sched τ μ ω :=
  loadAccounting { stackCheck mc (preempt s) with timer := none }

theorem Prepared.modThread (s : Sched τ μ ω) (t : τ)
    {f : SchedulerThread τ μ ω → SchedulerThread τ μ ω}
    (hb : (f (s.thr t)).state = .blocked → (s.thr t).state = .blocked ∧
      (f (s.thr t)).timeout = (s.thr t).timeout ∧
      (f (s.thr t)).blockedSince = (s.thr t).blockedSince ∧
      (f (s.thr t)).blockType = (s.thr t).blockType ∧
      (f (s.thr t)).blockedBy = (s.thr t).blockedBy)
    (hr : (f (s.thr t)).state = .running → (s.thr t).state = .running) :
    Prepared s (s.modThread t f) := by
  refine ⟨fun u hu => ?_, fun u hu => ?_, rfl, rfl, rfl, rfl⟩
  · rw [Sched.modThread_thr] at hu ⊢
    split at hu
    case isTrue hut =>
      subst hut
      rw [if_pos rfl]
      exact hb hu
    case isFalse hut =>
      rw [if_neg hut]
      exact ⟨hu, rfl, rfl, rfl, rfl⟩
  · rw [Sched.modThread_thr] at hu
    split at hu
    case isTrue hut =>
      subst hut
      exact hr hu
    case isFalse => exact hu

theorem Prepared.foldl {f : Sched τ μ ω → τ → Sched τ μ ω} (hf : ∀ s t, Prepared s (f s t))
    (l : List τ) (s : Sched τ μ ω) : Prepared s (l.foldl f s) := by
  induction l generalizing s with
  | nil => exact .refl s
  | cons t l ih => exact (hf s t).trans (ih (f s t))

theorem preempt_prepared (s : Sched τ μ ω) : Prepared s (preempt s) := by
  rw [preempt]
  split
  · exact .modThread s _ (fun h => by cases h) fun h => by cases h
  · exact .refl s

theorem preempt_sameLinks (s : Sched τ μ ω) : SameLinks s (preempt s) := by
  rw [preempt]
  split
  · exact .modThread s _ (fun _ => rfl) (fun _ => rfl) fun _ => rfl
  · exact .refl s

theorem stackCheck_prepared (s : Sched τ μ ω) : Prepared s (stackCheck mc s) := by
  rw [stackCheck]
  split
  · have hsuspend : ∀ (x : Sched τ μ ω) (t : τ), Prepared x (if (x.thr t).type = .user then
        x.modThread t fun y => { y with state := .suspended } else x) := by
      intro x t
      split
      · exact .modThread x t (fun h => by cases h) fun h => by cases h
      · exact .refl x
    have hdefunct : ∀ x : Sched τ μ ω, Prepared x (x.modThread x.currentThread fun y =>
        { y with state := .defunct, blockType := .defunctStkov }) :=
      fun x => .modThread x _ (fun h => by cases h) fun h => by cases h
    have hsignal : ∀ x : Sched τ μ ω, Prepared x
        (x.modWakeup mc.dbgwakeup fun w => { w with signalled := true }) :=
      fun x => ⟨fun _ h => ⟨h, rfl, rfl, rfl, rfl⟩, fun _ h => h, rfl, rfl, rfl, rfl⟩
    have hall := (Prepared.foldl hsuspend s.threads s).trans ((hdefunct _).trans (hsignal _))
    dsimp only
    split
    · exact hall.trans (.modThread _ _ (fun h => by cases h) fun h => by cases h)
    · exact hall
  · exact .refl s

theorem loadAccounting_prepared (s : Sched τ μ ω) : Prepared s (loadAccounting s) := by
  rw [loadAccounting]
  split
  · have htick : Prepared s { s with lastTick := s.usecTimer } :=
      ⟨fun _ h => ⟨h, rfl, rfl, rfl, rfl⟩, fun _ h => h, rfl, rfl, rfl, rfl⟩
    refine htick.trans (Prepared.foldl (fun x t => ?_) _ _)
    exact .modThread x t (fun h => ⟨h, rfl, rfl, rfl, rfl⟩) fun h => h
  · exact .refl s

theorem accounted_prepared (mc : Machine τ ω) (s : Sched τ μ ω) : Prepared s (accounted mc s) := by
  have htimer : Prepared (stackCheck mc (preempt s))
      { stackCheck mc (preempt s) with timer := none } :=
    ⟨fun _ h => ⟨h, rfl, rfl, rfl, rfl⟩, fun _ h => h, rfl, rfl, rfl, rfl⟩
  exact (preempt_prepared s).trans
    ((stackCheck_prepared _).trans (htimer.trans (loadAccounting_prepared _)))

theorem accounted_sameLinks (mc : Machine τ ω) (s : Sched τ μ ω) :
    SameLinks s (accounted mc s) := by
  have htimer : SameLinks (stackCheck mc (preempt s))
      { stackCheck mc (preempt s) with timer := none } :=
    ⟨fun _ => rfl, fun _ => rfl, fun _ => rfl, fun _ => rfl, fun _ => rfl⟩
  exact (preempt_sameLinks s).trans
    ((stackCheck_sameLinks _).trans (htimer.trans (loadAccounting_sameLinks _)))

/-- Of a state in which only the current thread is `RUNNING`, no thread is so any more. -/
theorem accounted_running (hr : ∀ t, (s.thr t).state = .running → t = s.currentThread) (t : τ) :
    ((accounted mc s).thr t).state ≠ .running := by
  have htimer : Prepared (preempt s) { stackCheck mc (preempt s) with timer := none } :=
    (stackCheck_prepared _).trans
      ⟨fun _ h => ⟨h, rfl, rfl, rfl, rfl⟩, fun _ h => h, rfl, rfl, rfl, rfl⟩
  intro hrun
  have hrun' := (htimer.trans (loadAccounting_prepared _)).running t hrun
  rw [preempt] at hrun'
  split at hrun'
  case isTrue =>
    rw [Sched.modThread_thr] at hrun'
    split at hrun'
    case isTrue => cases hrun'
    case isFalse hne => exact hne (hr t hrun')
  case isFalse hcur =>
    have ht := hr t hrun'
    subst ht
    exact hcur hrun'

theorem loadAccounting_state (s : Sched τ μ ω) (t : τ) :
    ((loadAccounting s).thr t).state = (s.thr t).state := by
  have hfold : ∀ (l : List τ) (diff : U32) (s : Sched τ μ ω),
      ((l.foldl (fun s t => s.modThread t fun x =>
        { x with cpuload := (255 * x.cputimeCurrent / diff).setWidth 8, cputimeCurrent := 0 })
        s).thr t).state = (s.thr t).state := by
    intro l diff
    induction l with
    | nil => exact fun s => rfl
    | cons u l ih =>
      intro s
      rw [List.foldl_cons, ih, Sched.modThread_thr]
      split
      case isTrue hut => rw [hut]
      case isFalse => rfl
  rw [loadAccounting]
  split
  · exact hfold s.threads _ _
  · rfl

/-- With the stack of the current thread intact, a thread that was `BLOCKED` still is. -/
theorem accounted_blocked_iff (hk : (s.thr s.currentThread).stack ≠ .overwritten) (t : τ) :
    ((accounted mc s).thr t).state = .blocked ↔ (s.thr t).state = .blocked := by
  have hcur : (preempt s).currentThread = s.currentThread := (preempt_prepared s).current
  have hstack : ((preempt s).thr s.currentThread).stack = (s.thr s.currentThread).stack := by
    rw [preempt]
    split
    · rw [Sched.modThread_thr, if_pos rfl]
    · rfl
  rw [accounted, stackCheck, hcur, hstack, if_neg hk, loadAccounting_state]
  refine ⟨fun hb => ((preempt_prepared s).blocked t hb).1, fun hb => ?_⟩
  rw [preempt]
  split
  case isTrue hrun =>
    have hne : t ≠ s.currentThread := by
      intro he
      rw [he, hrun] at hb
      cases hb
    rw [Sched.modThread_thr, if_neg hne]
    exact hb
  case isFalse => exact hb

end Before

/-! ## The timeouts -/

section Timeouts

/-- `t` has timed out: `state = THREAD_READY` and so on. -/
def SchedulerThread.unblocked (x : SchedulerThread τ μ ω) : SchedulerThread τ μ ω :=
  { x with state := .ready, blockType := .notBlocked, blockedBy := none, timeout := 0 }

/-- A thread that is `BLOCKED` on a mutex is in the queue of the mutex it is blocked by. -/
def Queued (s : Sched τ μ ω) (W : μ → List τ) : Prop :=
  ∀ t, (s.thr t).state = .blocked → (s.thr t).blockType = .mutex →
    ∃ m, (s.thr t).blockedBy = some (.mutex m) ∧ t ∈ W m

/-- No thread that times out is the last of several waiters of a mutex. -/
def NoLastDue (s : Sched τ μ ω) (W : μ → List τ) : Prop :=
  ∀ m t, 2 ≤ (W m).length → (W m).getLast? = some t → ¬ Due s t

/-- The timeouts of the threads in `l` have ended where they are due. -/
structure Passed (l : List τ) (s s' : Sched τ μ ω) (W W' : μ → List τ) : Prop where
  ended : ∀ t ∈ l, Due s t →
    s'.thr t = { (s.thr t).unblocked with queueNext := (s'.thr t).queueNext }
  kept : ∀ t, (t ∈ l → ¬ Due s t) → s'.thr t = { s.thr t with queueNext := (s'.thr t).queueNext }
  queue : ∀ m t, t ∈ W' m ↔ t ∈ W m ∧ ¬ (t ∈ l ∧ Due s t ∧ (s.thr t).blockType = .mutex)
  threads : s'.threads = s.threads
  usec : s'.usecTimer = s.usecTimer
  current : s'.currentThread = s.currentThread

variable {mc : Machine τ ω} {s s' s₁ : Sched τ μ ω} {W W' W₁ : μ → List τ} {O : τ → List μ}
  {l : List τ} {t a : τ} {m : μ} {n n' : U32}

theorem not_due_of_ready (h : (s.thr t).state = .ready) : ¬ Due s t := by
  intro hd
  rw [hd.1.1] at h
  cases h

namespace Passed

theorem refl (s : Sched τ μ ω) (W : μ → List τ) (h : ∀ t ∈ l, ¬ Due s t) : Passed l s s W W where
  ended t ht hd := absurd hd (h t ht)
  kept _ _ := rfl
  queue _ t := ⟨fun ht => ⟨ht, fun hn => h t hn.1 hn.2.1⟩, fun ht => ht.1⟩
  threads := rfl
  usec := rfl
  current := rfl

/-- What a round leaves due in the rest of the list was due before. -/
theorem due_iff (h : Passed [a] s s₁ W W₁) :
    Due s₁ t ↔ Due s t ∧ t ≠ a := by
  by_cases hd : t ∈ [a] ∧ Due s t
  · have hready : ¬ Due s₁ t := not_due_of_ready (by rw [h.ended t hd.1 hd.2]; rfl)
    have hta := List.mem_singleton.1 hd.1
    exact ⟨fun hd₁ => absurd hd₁ hready, fun hne => absurd hta hne.2⟩
  · have hsame := h.kept t fun hm hdue => hd ⟨hm, hdue⟩
    have hiff : Due s₁ t ↔ Due s t := by rw [Due, Due, Waits, Waits, hsame, h.usec]
    rw [hiff]
    refine ⟨fun hdue => ⟨hdue, fun he => ?_⟩, fun hdue => hdue.1⟩
    exact hd ⟨List.mem_singleton.2 he, hdue⟩

theorem cons (h : Passed [a] s s₁ W W₁) (h' : Passed l s₁ s' W₁ W') :
    Passed (a :: l) s s' W W' where
  ended t ht hd := by
    by_cases hta : t = a
    · have hmid := h.ended t (List.mem_singleton.2 hta) hd
      have hend := h'.kept t fun _ hd₁ => (h.due_iff.1 hd₁).2 hta
      rw [hend, hmid]
    · have hmid := h.kept t fun hm => absurd (List.mem_singleton.1 hm) hta
      have hmem : t ∈ l := (List.mem_cons.1 ht).resolve_left hta
      have hend := h'.ended t hmem (h.due_iff.2 ⟨hd, hta⟩)
      rw [hend, hmid]
      rfl
  kept t hn := by
    have hmid := h.kept t fun hm => hn (List.mem_cons.2 (.inl (List.mem_singleton.1 hm)))
    have hend := h'.kept t fun hm hd₁ => hn (List.mem_cons_of_mem a hm) (h.due_iff.1 hd₁).1
    rw [hend, hmid]
  queue m t := by
    rw [h'.queue m t, h.queue m t, h.due_iff]
    by_cases hta : t = a
    · subst hta
      simp
    · have hmid := h.kept t fun hm => absurd (List.mem_singleton.1 hm) hta
      rw [hmid]
      simp [hta]
  threads := h'.threads.trans h.threads
  usec := h'.usec.trans h.usec
  current := h'.current.trans h.current

theorem queued (h : Passed [a] s s₁ W W₁) (hq : Queued s W) : Queued s₁ W₁ := by
  intro t hst hty
  have hnot : t ∈ [a] → ¬ Due s t := by
    intro hm hd
    rw [h.ended t hm hd] at hst
    cases hst
  rw [h.kept t hnot] at hst hty ⊢
  obtain ⟨m, hby, hmem⟩ := hq t hst hty
  exact ⟨m, hby, (h.queue m t).2 ⟨hmem, fun hn => hnot hn.1 hn.2.1⟩⟩

end Passed

/-- The thread that times out leaves the queue it is in. -/
theorem removeFromBlocker_queue (hrep : Rep s W O) (hby : (s.thr t).blockedBy = some (.mutex m))
    (hmem : t ∈ W m) (hr : removeFromBlocker mc s (s.thr t).blockedBy t = some s') :
    SameButQueues s s' ∧ Rep s' (Function.update W m ((W m).erase t)) O ∧
      ∀ k u, u ∈ Function.update W m ((W m).erase t) k ↔ u ∈ W k ∧ u ≠ t := by
  rw [hby] at hr
  obtain ⟨hsame, hrep'⟩ := mutexRemoveFromQueue_rep hrep hr
  refine ⟨hsame, hrep', fun k u => ?_⟩
  rw [Function.update_apply]
  split
  case isTrue hk =>
    rw [hk, (hrep.nodup_waiters m).mem_erase_iff]
    exact and_comm
  case isFalse hk =>
    refine ⟨fun hu => ⟨hu, fun he => hk ?_⟩, fun hu => hu.1⟩
    exact hrep.waiters_apart (he ▸ hu) hmem

/-- The last of several waiters is still the last when another one leaves. -/
theorem getLast_erase {q : List τ} (hlast : q.getLast? = some t) (hne : a ≠ t) :
    (q.erase a).getLast? = some t := by
  obtain ⟨r, rfl⟩ := List.getLast?_eq_some_iff.1 hlast
  by_cases hmem : a ∈ r
  · rw [List.erase_append_left _ hmem]
    exact List.getLast?_concat
  · rw [List.erase_of_not_mem]
    · exact hlast
    · rw [List.mem_append, List.mem_singleton, not_or]
      exact ⟨hmem, hne⟩

theorem NoLastDue.erase (h : NoLastDue s W) (hd : Due s a)
    (hdue : ∀ u, Due s' u → Due s u ∧ u ≠ a) :
    NoLastDue s' (Function.update W m ((W m).erase a)) := by
  intro k u hlen hlast hu
  obtain ⟨hu, hne⟩ := hdue u hu
  rw [Function.update_apply] at hlen hlast
  split at hlen
  case isTrue hk =>
    rw [if_pos hk] at hlast
    have hlonger : 2 ≤ (W m).length := Nat.le_trans hlen List.length_erase_le
    obtain ⟨r, z, hz⟩ : ∃ r z, W m = r ++ [z] := by
      have hnil : W m ≠ [] := fun he => by rw [he] at hlonger; cases hlonger
      exact ⟨_, _, (List.dropLast_append_getLast hnil).symm⟩
    have hlastz : (W m).getLast? = some z := by rw [hz]; exact List.getLast?_concat
    by_cases haz : a = z
    · subst haz
      exact h m a hlonger hlastz hd
    · rw [getLast_erase hlastz haz] at hlast
      rw [← Option.some.inj hlast] at hu
      exact h m z hlonger hlastz hu
  case isFalse hk =>
    rw [if_neg hk] at hlast
    exact h k u hlen hlast hu

/-- The walk through a queue for a thread that times out does not get to the null pointer, or the
word there ends it. -/
theorem removeFromBlocker_isSome (hrep : Rep s W O) (hby : (s.thr t).blockedBy = some (.mutex m))
    (hnull : mc.nullQueueNextEnds = true ∨ NoLastDue s W) (hd : Due s t) :
    ∃ s', removeFromBlocker mc s (s.thr t).blockedBy t = some s' := by
  rw [hby]
  refine Option.isSome_iff_exists.1 ((mutexRemoveFromQueue_isSome hrep).2 fun htail hnext => ?_)
  rcases hnull with hnull | hnull
  · exact hnull
  · have hmem : t ∈ W m := List.mem_of_mem_tail htail
    have hlast := (hrep.waiters m).getLast_of_next hmem hnext
    refine absurd hd (hnull m t ?_ hlast)
    have hpos := List.length_pos_of_mem htail
    rw [List.length_tail] at hpos
    omega

/-- One round of the loop. -/
theorem expire_passed (hrep : Rep s W O) (hq : Queued s W)
    (hr : expire mc (s, n) t = some (s', n')) :
    ∃ W', Passed [t] s s' W W' ∧ Rep s' W' O ∧ (NoLastDue s W → NoLastDue s' W') := by
  rw [expire] at hr
  dsimp only at hr
  split at hr
  case isTrue hdue =>
    obtain ⟨hst, hto, hta⟩ := hdue
    have hd : Due s t := ⟨⟨hst, hto⟩, hta⟩
    obtain ⟨s₁, hs₁, heq⟩ := Option.map_eq_some_iff.1 hr
    cases heq
    split at hs₁
    case isTrue hty =>
      obtain ⟨m, hby, hmem⟩ := hq t hst hty
      obtain ⟨hsame, hrep', hqueue⟩ := removeFromBlocker_queue hrep hby hmem hs₁
      have hpass : Passed [t] s (s₁.unblock t) W (Function.update W m ((W m).erase t)) := by
        refine ⟨fun u hu _ => ?_, fun u hu => ?_, fun k u => ?_, hsame.threads, hsame.usec,
          hsame.current⟩
        · have hut := List.mem_singleton.1 hu
          subst hut
          rw [Sched.unblock_thr, if_pos rfl, hsame.thr u]
          rfl
        · have hut : u ≠ t := fun he => hu (List.mem_singleton.2 he) (he ▸ hd)
          rw [Sched.unblock_thr, if_neg hut]
          exact hsame.thr u
        · rw [hqueue k u, List.mem_singleton]
          refine and_congr_right fun _ => not_congr ⟨fun he => ?_, fun he => he.1⟩
          subst he
          exact ⟨rfl, hd, hty⟩
      exact ⟨_, hpass, hrep'.unblock t, fun hlast => hlast.erase hd fun u => hpass.due_iff.1⟩
    case isFalse hty =>
      cases hs₁
      have hpass : Passed [t] s (s.unblock t) W W := by
        refine ⟨fun u hu _ => ?_, fun u hu => ?_, fun k u => ?_, rfl, rfl, rfl⟩
        · have hut := List.mem_singleton.1 hu
          subst hut
          rw [Sched.unblock_thr, if_pos rfl]
          rfl
        · have hut : u ≠ t := fun he => hu (List.mem_singleton.2 he) (he ▸ hd)
          rw [Sched.unblock_thr, if_neg hut]
        · refine ⟨fun hu => ⟨hu, fun hn => ?_⟩, fun hu => hu.1⟩
          rw [List.mem_singleton.1 hn.1] at hn
          exact hty hn.2.2
      refine ⟨W, hpass, hrep.unblock t, fun hlast k u hlen hl hu => ?_⟩
      exact hlast k u hlen hl (hpass.due_iff.1 hu).1
  case isFalse hdue =>
    have hnot : ∀ u ∈ [t], ¬ Due s u := by
      intro u hu hd
      rw [List.mem_singleton.1 hu] at hd
      exact hdue ⟨hd.1.1, hd.1.2, hd.2⟩
    have hs : s' = s := by
      split at hr <;> cases hr <;> rfl
    subst hs
    exact ⟨W, .refl s' W hnot, hrep, id⟩

theorem expire_foldlM_passed (hrep : Rep s W O) (hq : Queued s W)
    (hr : l.foldlM (expire mc) (s, n) = some (s', n')) :
    ∃ W', Passed l s s' W W' ∧ Rep s' W' O := by
  induction l generalizing s n W with
  | nil =>
    cases hr
    exact ⟨W, .refl _ W (fun t ht => by cases ht), hrep⟩
  | cons t l ih =>
    rw [List.foldlM_cons, Option.bind_eq_bind, Option.bind_eq_some_iff] at hr
    obtain ⟨⟨s₁, n₁⟩, hround, hrest⟩ := hr
    obtain ⟨W₁, hpass, hrep₁, -⟩ := expire_passed hrep hq hround
    obtain ⟨W', hpass', hrep'⟩ := ih hrep₁ (hpass.queued hq) hrest
    exact ⟨W', hpass.cons hpass', hrep'⟩

/-- The timeout of `t` goes on. -/
def StillWaits (s : Sched τ μ ω) (t : τ) : Prop := Waits s t ∧ ¬ Due s t

theorem Passed.stillWaits_iff (h : Passed l s s₁ W W₁) : StillWaits s₁ t ↔ StillWaits s t := by
  by_cases hd : t ∈ l ∧ Due s t
  · have hready := h.ended t hd.1 hd.2
    constructor
    · intro hp
      rw [StillWaits, Waits, hready] at hp
      cases hp.1.1
    · exact fun hp => absurd hd.2 hp.2
  · have hsame := h.kept t fun hm hdue => hd ⟨hm, hdue⟩
    rw [StillWaits, StillWaits, Due, Due, Waits, Waits, hsame, h.usec]

theorem Passed.left_eq (h : Passed l s s₁ W W₁) (hp : StillWaits s t) : left s₁ t = left s t := by
  rw [left, left, h.kept t fun _ hd => hp.2 hd, h.usec]

/-- `n'` is the least of `n` and what is left of the timeouts of `l`. -/
structure Least (s : Sched τ μ ω) (l : List τ) (n n' : U32) : Prop where
  le_start : n' ≤ n
  le_left : ∀ t ∈ l, StillWaits s t → n' ≤ left s t
  attained : n' = n ∨ ∃ t ∈ l, StillWaits s t ∧ n' = left s t

theorem expire_least (hr : expire mc (s, n) t = some (s', n')) : Least s [t] n n' := by
  rw [expire] at hr
  dsimp only at hr
  split at hr
  case isTrue hdue =>
    obtain ⟨s₁, -, heq⟩ := Option.map_eq_some_iff.1 hr
    cases heq
    refine ⟨BitVec.le_refl n, fun u hu hp => ?_, .inl rfl⟩
    rw [List.mem_singleton.1 hu] at hp
    exact absurd ⟨⟨hdue.1, hdue.2.1⟩, hdue.2.2⟩ hp.2
  case isFalse hdue =>
    split at hr
    case isTrue hw =>
      have hp : StillWaits s t := ⟨hw, fun hd => hdue ⟨hw.1, hw.2, hd.2⟩⟩
      have hn : n' = if left s t < n then left s t else n := by
        cases hr
        rfl
      split at hn
      case isTrue hlt =>
        subst hn
        refine ⟨BitVec.le_of_lt hlt, fun u hu _ => ?_, .inr ⟨t, List.mem_singleton_self t, hp, rfl⟩⟩
        rw [List.mem_singleton.1 hu]
        exact BitVec.le_refl _
      case isFalse hge =>
        subst hn
        refine ⟨BitVec.le_refl _, fun u hu _ => ?_, .inl rfl⟩
        rw [List.mem_singleton.1 hu]
        exact BitVec.not_lt.1 hge
    case isFalse hw =>
      cases hr
      refine ⟨BitVec.le_refl n, fun u hu hp => ?_, .inl rfl⟩
      rw [List.mem_singleton.1 hu] at hp
      exact absurd hp.1 hw

theorem expire_foldlM_least (hrep : Rep s W O) (hq : Queued s W)
    (hr : l.foldlM (expire mc) (s, n) = some (s', n')) : Least s l n n' := by
  induction l generalizing s n W with
  | nil =>
    cases hr
    exact ⟨BitVec.le_refl _, (fun t ht => by cases ht), .inl rfl⟩
  | cons t l ih =>
    rw [List.foldlM_cons, Option.bind_eq_bind, Option.bind_eq_some_iff] at hr
    obtain ⟨⟨s₁, n₁⟩, hround, hrest⟩ := hr
    obtain ⟨W₁, hpass, hrep₁, -⟩ := expire_passed hrep hq hround
    have hfirst := expire_least hround
    have hlater := ih hrep₁ (hpass.queued hq) hrest
    refine ⟨BitVec.le_trans hlater.le_start hfirst.le_start, fun u hu hp => ?_, ?_⟩
    · rcases List.mem_cons.1 hu with hut | hul
      · exact BitVec.le_trans hlater.le_start
          (hfirst.le_left u (List.mem_singleton.2 hut) hp)
      · rw [← hpass.left_eq hp]
        exact hlater.le_left u hul (hpass.stillWaits_iff.2 hp)
    · rcases hlater.attained with hn | ⟨u, hul, hp, hn⟩
      · rcases hfirst.attained with hn₁ | ⟨u, hut, hp, hn₁⟩
        · exact .inl (hn.trans hn₁)
        · rw [List.mem_singleton.1 hut] at hp hn₁
          exact .inr ⟨t, List.mem_cons_self, hp, hn.trans hn₁⟩
      · have hp' := hpass.stillWaits_iff.1 hp
        exact .inr ⟨u, List.mem_cons_of_mem t hul, hp', hn.trans (hpass.left_eq hp')⟩

theorem expire_isSome (hrep : Rep s W O) (hq : Queued s W)
    (hnull : mc.nullQueueNextEnds = true ∨ NoLastDue s W) (t : τ) (n : U32) :
    ∃ s' n', expire mc (s, n) t = some (s', n') := by
  rw [expire]
  dsimp only
  split
  case isTrue hdue =>
    have hd : Due s t := ⟨⟨hdue.1, hdue.2.1⟩, hdue.2.2⟩
    split
    case isTrue hty =>
      obtain ⟨m, hby, hmem⟩ := hq t hdue.1 hty
      obtain ⟨s', hs'⟩ := removeFromBlocker_isSome hrep hby hnull hd
      rw [hs']
      exact ⟨_, _, rfl⟩
    case isFalse => exact ⟨_, _, rfl⟩
  case isFalse =>
    split
    · exact ⟨_, _, rfl⟩
    · exact ⟨_, _, rfl⟩

theorem expire_foldlM_isSome (hrep : Rep s W O) (hq : Queued s W)
    (hnull : mc.nullQueueNextEnds = true ∨ NoLastDue s W) (l : List τ) (n : U32) :
    ∃ s' n', l.foldlM (expire mc) (s, n) = some (s', n') := by
  induction l generalizing s n W with
  | nil => exact ⟨s, n, rfl⟩
  | cons t l ih =>
    obtain ⟨s₁, n₁, hround⟩ := expire_isSome hrep hq hnull t n
    obtain ⟨W₁, hpass, hrep₁, hlast⟩ := expire_passed hrep hq hround
    obtain ⟨s', n', hrest⟩ := ih hrep₁ (hpass.queued hq) (hnull.imp_right hlast) n₁
    refine ⟨s', n', ?_⟩
    rw [List.foldlM_cons, hround]
    exact hrest

end Timeouts

/-! ## The choice -/

section Choice

/-- A thread that the loop over the threads takes into account. -/
def Candidate (s : Sched τ μ ω) (t : τ) : Prop :=
  (s.thr t).state = .ready ∧ (s.thr t).priority ≠ 0

/-- The share of the processor that `t` had, for its priority. -/
def score (s : Sched τ μ ω) (t : τ) : U32 :=
  (s.thr t).cputimeCurrent / (s.thr t).priority.setWidth 32

/-- The score that counts, which is that of a penalised thread for `block`. -/
def scoreOf (s : Sched τ μ ω) (block : Option τ) (t : τ) : U32 :=
  if some t = block then 0xfffffffe else score s t

variable {mc : Machine τ ω} {s : Sched τ μ ω} {block : Option τ} {l : List τ} {t : τ}

theorem pick_eq (acc : τ × U32) : pick s block acc t =
    if (s.thr t).state = .ready ∧ (s.thr t).priority ≠ 0 then
      if scoreOf s block t < acc.2 then (t, scoreOf s block t) else acc
    else acc := rfl

/-- `r` is the best of `acc` and the candidates of `l`. -/
structure Best (s : Sched τ μ ω) (block : Option τ) (l : List τ) (acc r : τ × U32) : Prop where
  le_start : r.2 ≤ acc.2
  le_score : ∀ t ∈ l, Candidate s t → r.2 ≤ scoreOf s block t
  attained : r = acc ∨ ∃ t ∈ l, Candidate s t ∧ r = (t, scoreOf s block t)

theorem pick_best (acc : τ × U32) : Best s block [t] acc (pick s block acc t) := by
  rw [pick_eq]
  split
  case isTrue hc =>
    split
    case isTrue hlt =>
      refine ⟨BitVec.le_of_lt hlt, fun u hu _ => ?_, .inr ⟨t, List.mem_singleton_self t, hc, rfl⟩⟩
      rw [List.mem_singleton.1 hu]
      exact BitVec.le_refl _
    case isFalse hge =>
      refine ⟨BitVec.le_refl _, fun u hu _ => ?_, .inl rfl⟩
      rw [List.mem_singleton.1 hu]
      exact BitVec.not_lt.1 hge
  case isFalse hc =>
    refine ⟨BitVec.le_refl _, fun u hu hcu => ?_, .inl rfl⟩
    rw [List.mem_singleton.1 hu] at hcu
    exact absurd hcu hc

theorem pick_foldl_best (l : List τ) (acc : τ × U32) :
    Best s block l acc (l.foldl (pick s block) acc) := by
  induction l generalizing acc with
  | nil => exact ⟨BitVec.le_refl _, (fun t ht => by cases ht), .inl rfl⟩
  | cons t l ih =>
    have hfirst : Best s block [t] acc (pick s block acc t) := pick_best acc
    have hlater := ih (pick s block acc t)
    refine ⟨BitVec.le_trans hlater.le_start hfirst.le_start, fun u hu hc => ?_, ?_⟩
    · rcases List.mem_cons.1 hu with hut | hul
      · exact BitVec.le_trans hlater.le_start (hfirst.le_score u (List.mem_singleton.2 hut) hc)
      · exact hlater.le_score u hul hc
    · rcases hlater.attained with hr | ⟨u, hul, hc, hr⟩
      · rw [List.foldl_cons, hr]
        rcases hfirst.attained with hr₁ | ⟨u, hut, hc, hr₁⟩
        · exact .inl hr₁
        · exact .inr ⟨u, List.mem_cons.2 (.inl (List.mem_singleton.1 hut)), hc, hr₁⟩
      · exact .inr ⟨u, List.mem_cons_of_mem t hul, hc, hr⟩

namespace Best

variable {i : τ} {r : τ × U32}

/-- A candidate that is not penalised is preferred, and the least of them is taken. -/
theorem least (h : Best s block l (i, 0xffffffff) r)
    (hscore : ∀ t ∈ l, (s.thr t).priority ≠ 0 → score s t < 0xfffffffe) (ht : t ∈ l)
    (hc : Candidate s t) (hb : some t ≠ block) :
    r.1 ∈ l ∧ Candidate s r.1 ∧ some r.1 ≠ block ∧ score s r.1 ≤ score s t := by
  have hle := h.le_score t ht hc
  rw [scoreOf, if_neg hb] at hle
  have hlt : r.2 < 0xfffffffe := Nat.lt_of_le_of_lt hle (hscore t ht hc.2)
  rcases h.attained with hr | ⟨u, hul, hcu, hr⟩
  · rw [hr] at hlt
    exact absurd hlt (by decide : ¬ (0xffffffff : U32) < 0xfffffffe)
  · subst hr
    have hbu : some u ≠ block := by
      intro hbu
      rw [scoreOf, if_pos hbu] at hlt
      exact absurd hlt (by decide : ¬ (0xfffffffe : U32) < 0xfffffffe)
    rw [scoreOf, if_neg hbu] at hle
    exact ⟨hul, hcu, hbu, hle⟩

theorem penalised (h : Best s block l (i, 0xffffffff) r) (ht : t ∈ l) (hc : Candidate s t)
    (honly : ∀ u ∈ l, Candidate s u → some u = block) : r.1 = t := by
  have hb := honly t ht hc
  have hle := h.le_score t ht hc
  rw [scoreOf, if_pos hb] at hle
  rcases h.attained with hr | ⟨u, hul, hcu, hr⟩
  · rw [hr] at hle
    exact absurd hle (by decide : ¬ (0xffffffff : U32) ≤ 0xfffffffe)
  · rw [hr]
    exact Option.some.inj ((honly u hul hcu).trans hb.symm)

theorem idle (h : Best s block l (i, 0xffffffff) r) (hno : ∀ u ∈ l, ¬ Candidate s u) :
    r.1 = i := by
  rcases h.attained with hr | ⟨u, hul, hcu, -⟩
  · rw [hr]
  · exact absurd hcu (hno u hul)

end Best

/-- Unless a thread is asked for that is ready, the loop over the threads decides. -/
theorem choose_best {thread : Option τ} (hn : ∀ t, thread = some t → (s.thr t).state ≠ .ready) :
    ∃ r, Best s block s.threads (mc.idleThread, 0xffffffff) r ∧ choose mc s thread block = r.1 := by
  refine ⟨_, pick_foldl_best s.threads (mc.idleThread, 0xffffffff), ?_⟩
  cases thread with
  | none => rfl
  | some t => exact if_neg (hn t rfl)

theorem choose_requested (hready : (s.thr t).state = .ready) :
    choose mc s (some t) block = t := if_pos hready

end Choice

/-! ## The switch -/

section Switch

/-- `t` is `READY` when the next thread is chosen. -/
def Ready (p : Sched τ μ ω) (now : Nat) (since : τ → Nat) (t : τ) : Prop :=
  (p.thr t).state = .ready ∨ t ∈ p.threads ∧ Ended p now since t

/-- A thread that can be chosen without being asked for. -/
def Contender (p : Sched τ μ ω) (now : Nat) (since : τ → Nat) (t : τ) : Prop :=
  t ∈ p.threads ∧ Ready p now since t ∧ (p.thr t).priority ≠ 0

/-- No thread is asked for that is ready. -/
def NoneRequested (p : Sched τ μ ω) (now : Nat) (since : τ → Nat) (thread : Option τ) : Prop :=
  ∀ t, thread = some t → ¬ Ready p now since t

/-- What is left of the timeout of a thread. -/
def leftOf (p : Sched τ μ ω) (now : Nat) (since : τ → Nat) (t : τ) : Nat :=
  since t + (p.thr t).timeout.toNat - now

/-- How the second part of `scheduler_switch` gets from `p` to `s'`, with the queues `W` before
and `W'` afterwards. -/
structure SwitchedTo (mc : Machine τ ω) (p s' : Sched τ μ ω) (W W' : μ → List τ)
    (thread block : Option τ) (now : Nat) (since : τ → Nat) : Prop where
  running : ∀ t, (s'.thr t).state = .running ↔ t = s'.currentThread
  ended : ∀ t ∈ p.threads, Ended p now since t →
    ((s'.thr t).state = .ready ∨ t = s'.currentThread) ∧ (s'.thr t).blockType = .notBlocked ∧
      (s'.thr t).blockedBy = none ∧ ((p.thr t).blockType = .mutex → ∀ m, t ∉ W' m)
  blocked : ∀ t ∈ p.threads, (p.thr t).state = .blocked → ¬ Ended p now since t →
    (s'.thr t).state = .blocked ∧ (s'.thr t).blockType = (p.thr t).blockType ∧
      (s'.thr t).blockedBy = (p.thr t).blockedBy ∧ ∀ m, t ∈ W' m ↔ t ∈ W m
  requested : ∀ t, thread = some t → Ready p now since t → s'.currentThread = t
  best : NoneRequested p now since thread → ∀ t, Contender p now since t → some t ≠ block →
    Contender p now since s'.currentThread ∧ some s'.currentThread ≠ block ∧
      score p s'.currentThread ≤ score p t
  penalised : NoneRequested p now since thread →
    (∀ t, Contender p now since t → some t = block) →
    ∀ t, Contender p now since t → s'.currentThread = t
  idle : NoneRequested p now since thread → (∀ t, ¬ Contender p now since t) →
    s'.currentThread = mc.idleThread
  timer : s'.currentThread = mc.idleThread → ∃ v, s'.timer = some v ∧
    (∀ t ∈ p.threads, Waits p t → ¬ Ended p now since t → v.toNat ≤ leftOf p now since t) ∧
    ((∃ t ∈ p.threads, Waits p t ∧ ¬ Ended p now since t ∧
        v.toNat = leftOf p now since t) ∨
      v = 0xffffffff ∧ ∀ t ∈ p.threads, Waits p t → Ended p now since t)

variable {mc : Machine τ ω} {s s' p q : Sched τ μ ω} {W W' : μ → List τ} {O : τ → List μ}
  {thread block : Option τ} {now : Nat} {since : τ → Nat} {t : τ} {m : μ} {n : U32}

theorem Prepared.queued (h : Prepared s p) (hq : Queued s W) : Queued p W := by
  intro t hst hty
  obtain ⟨hst', -, -, hty', hby'⟩ := h.blocked t hst
  obtain ⟨m, hby, hmem⟩ := hq t hst' (hty'.symm.trans hty)
  exact ⟨m, hby'.trans hby, hmem⟩

theorem Prepared.due (h : Prepared s p) (hd : Due p t) : Due s t := by
  obtain ⟨-, hto, hsi, -⟩ := h.blocked t hd.1.1
  refine ⟨h.waits hd.1, ?_⟩
  rw [← hto, ← hsi, ← h.usec]
  exact hd.2

namespace Passed

variable (h : Passed p.threads p q W W') (hc : Clock p now since)
include h hc

theorem ready_iff (t : τ) : (q.thr t).state = .ready ↔ Ready p now since t := by
  by_cases hd : t ∈ p.threads ∧ Due p t
  · rw [h.ended t hd.1 hd.2]
    exact ⟨fun _ => .inr ⟨hd.1, (hc.due_iff hd.1).1 hd.2⟩, fun _ => rfl⟩
  · rw [h.kept t fun hm hdue => hd ⟨hm, hdue⟩]
    refine ⟨.inl, fun hr => hr.resolve_right fun he => hd ⟨he.1, (hc.due_iff he.1).2 he.2⟩⟩

omit hc in
theorem priority_eq (t : τ) : (q.thr t).priority = (p.thr t).priority := by
  by_cases hd : t ∈ p.threads ∧ Due p t
  · rw [h.ended t hd.1 hd.2]
    rfl
  · rw [h.kept t fun hm hdue => hd ⟨hm, hdue⟩]

omit hc in
theorem score_eq (t : τ) : score q t = score p t := by
  rw [score, score]
  by_cases hd : t ∈ p.threads ∧ Due p t
  · rw [h.ended t hd.1 hd.2]
    rfl
  · rw [h.kept t fun hm hdue => hd ⟨hm, hdue⟩]

theorem candidate_iff (t : τ) : t ∈ q.threads ∧ Candidate q t ↔ Contender p now since t := by
  rw [Candidate, h.threads, h.ready_iff hc, h.priority_eq]
  exact Iff.rfl

theorem notRunning (hr : ∀ t, (p.thr t).state ≠ .running) (t : τ) :
    (q.thr t).state ≠ .running := by
  by_cases hd : t ∈ p.threads ∧ Due p t
  · rw [h.ended t hd.1 hd.2]
    exact fun he => by cases he
  · rw [h.kept t fun hm hdue => hd ⟨hm, hdue⟩]
    exact hr t

end Passed

variable (mc thread block) in
/-- Which thread is chosen. -/
theorem choose_spec (h : Passed p.threads p q W W') (hc : Clock p now since)
    (hscore : ∀ t ∈ p.threads, (p.thr t).priority ≠ 0 → score p t < 0xfffffffe) :
    (∀ t, thread = some t → Ready p now since t → choose mc q thread block = t) ∧
      (NoneRequested p now since thread → ∀ t, Contender p now since t → some t ≠ block →
        Contender p now since (choose mc q thread block) ∧
          some (choose mc q thread block) ≠ block ∧
          score p (choose mc q thread block) ≤ score p t) ∧
      (NoneRequested p now since thread → (∀ t, Contender p now since t → some t = block) →
        ∀ t, Contender p now since t → choose mc q thread block = t) ∧
      (NoneRequested p now since thread → (∀ t, ¬ Contender p now since t) →
        choose mc q thread block = mc.idleThread) := by
  have hbest : NoneRequested p now since thread → ∃ r,
      Best q block q.threads (mc.idleThread, 0xffffffff) r ∧ choose mc q thread block = r.1 := by
    intro hn
    exact choose_best fun t ht hready => hn t ht ((h.ready_iff hc t).1 hready)
  refine ⟨fun t ht hready => ?_, fun hn t ht hb => ?_, fun hn honly t ht => ?_,
    fun hn hno => ?_⟩
  · rw [ht]
    exact choose_requested ((h.ready_iff hc t).2 hready)
  · obtain ⟨r, hr, hchoose⟩ := hbest hn
    have hcand := (h.candidate_iff hc t).2 ht
    have hscore' : ∀ t ∈ q.threads, (q.thr t).priority ≠ 0 → score q t < 0xfffffffe := by
      intro u hu hp
      rw [h.score_eq]
      rw [h.threads] at hu
      rw [h.priority_eq] at hp
      exact hscore u hu hp
    obtain ⟨hmem, hcr, hbr, hle⟩ := hr.least hscore' hcand.1 hcand.2 hb
    rw [h.score_eq, h.score_eq] at hle
    rw [hchoose]
    exact ⟨(h.candidate_iff hc r.1).1 ⟨hmem, hcr⟩, hbr, hle⟩
  · obtain ⟨r, hr, hchoose⟩ := hbest hn
    have hcand := (h.candidate_iff hc t).2 ht
    rw [hchoose]
    exact hr.penalised hcand.1 hcand.2 fun u hu hcu =>
      honly u ((h.candidate_iff hc u).1 ⟨hu, hcu⟩)
  · obtain ⟨r, hr, hchoose⟩ := hbest hn
    rw [hchoose]
    exact hr.idle fun u hu hcu => hno u ((h.candidate_iff hc u).1 ⟨hu, hcu⟩)

theorem timer_spec (hl : Least p p.threads 0xffffffff n) (hc : Clock p now since) :
    (∀ t ∈ p.threads, Waits p t → ¬ Ended p now since t → n.toNat ≤ leftOf p now since t) ∧
      ((∃ t ∈ p.threads, Waits p t ∧ ¬ Ended p now since t ∧
          n.toNat = leftOf p now since t) ∨
        n = 0xffffffff ∧ ∀ t ∈ p.threads, Waits p t → Ended p now since t) := by
  have hle : ∀ t ∈ p.threads, Waits p t → ¬ Ended p now since t →
      n.toNat ≤ leftOf p now since t := by
    intro t ht hw hn
    have hleft := hl.le_left t ht ⟨hw, fun hd => hn ((hc.due_iff ht).1 hd)⟩
    rw [BitVec.le_def, hc.left_toNat ht hw hn] at hleft
    exact hleft
  refine ⟨hle, ?_⟩
  rcases hl.attained with hn | ⟨t, ht, hp, hn⟩
  · refine .inr ⟨hn, fun t ht hw => ?_⟩
    by_contra hnot
    have hlast := hle t ht hw hnot
    have htimeout := hc.timeout_lt t ht hw
    have hsince := hc.since_le t ht hw
    rw [hn, leftOf] at hlast
    have hmax : (0xffffffff : U32).toNat = 4294967295 := rfl
    omega
  · have hnot : ¬ Ended p now since t := fun he => hp.2 ((hc.due_iff ht).2 he)
    exact .inl ⟨t, ht, hp.1, hnot, by rw [hn, hc.left_toNat ht hp.1 hnot]; rfl⟩

/-- After `scheduler_switch`. -/
theorem selected_spec (h : Passed p.threads p q W W') (hc : Clock p now since)
    (hl : Least p p.threads 0xffffffff n)
    (hscore : ∀ t ∈ p.threads, (p.thr t).priority ≠ 0 → score p t < 0xfffffffe)
    (hr : ∀ t, (p.thr t).state ≠ .running) (hidle : (p.thr mc.idleThread).state ≠ .blocked)
    {c : τ} (hchoose : choose mc q thread block = c) {v : U32}
    (hv : v = if c = mc.idleThread then n else systemTick)
    (hs' : s' = ({ q with timer := some v, currentThread := c } : Sched τ μ ω).modThread c
      fun x => { x with state := .running }) :
    SwitchedTo mc p s' W W' thread block now since := by
  have hcur : s'.currentThread = c := by rw [hs']; rfl
  have hother : ∀ t, t ≠ c → s'.thr t = q.thr t := by
    intro t ht
    rw [hs', Sched.modThread_thr, if_neg ht]
  have hself : s'.thr c = { q.thr c with state := .running } := by
    rw [hs', Sched.modThread_thr, if_pos rfl]
  obtain ⟨hreq, hbest, hpen, hno⟩ := choose_spec mc thread block h hc hscore
  rw [hchoose] at hreq hbest hpen hno
  refine ⟨fun t => ?_, fun t ht he => ?_, fun t ht hb hn => ?_, ?_, ?_, ?_, ?_, ?_⟩
  · rw [hcur]
    by_cases htc : t = c
    · subst htc
      rw [hself]
      exact ⟨fun _ => rfl, fun _ => rfl⟩
    · rw [hother t htc]
      exact ⟨fun hrun => absurd hrun (h.notRunning hc hr t), fun he => absurd he htc⟩
  · have hd := (hc.due_iff ht).2 he
    have hq := h.ended t ht hd
    have hW : (p.thr t).blockType = .mutex → ∀ m, t ∉ W' m := fun hty m hm =>
      ((h.queue m t).1 hm).2 ⟨ht, hd, hty⟩
    by_cases htc : t = c
    · subst htc
      rw [hself, hq]
      exact ⟨.inr hcur.symm, rfl, rfl, hW⟩
    · rw [hother t htc, hq]
      exact ⟨.inl rfl, rfl, rfl, hW⟩
  · have hnd : ¬ Due p t := fun hd => hn ((hc.due_iff ht).1 hd)
    have hq := h.kept t fun _ => hnd
    have htc : t ≠ c := by
      intro htc
      have hready : (q.thr (choose mc q thread block)).state = .ready ∨
          choose mc q thread block = mc.idleThread := choose_ready q thread block
      rw [hchoose, ← htc] at hready
      rcases hready with hready | hid
      · rw [hq, hb] at hready
        cases hready
      · rw [hid] at hb
        exact hidle hb
    rw [hother t htc, hq]
    refine ⟨hb, rfl, rfl, fun m => ?_⟩
    rw [h.queue m t]
    exact ⟨fun hm => hm.1, fun hm => ⟨hm, fun hall => hnd hall.2.1⟩⟩
  · rw [hcur]
    exact hreq
  · rw [hcur]
    exact hbest
  · rw [hcur]
    exact hpen
  · rw [hcur]
    exact hno
  · rw [hcur]
    intro hid
    rw [if_pos hid] at hv
    obtain ⟨hle, hatt⟩ := timer_spec hl hc
    subst hv
    exact ⟨v, by rw [hs']; rfl, hle, hatt⟩

/-- The idle thread and two others at the time `usec`. -/
def three (first second : SchedulerThread Trio Unit Unit) (current : Trio) (usec : U32) :
    Sched Trio Unit Unit where
  threads := [.idle, .first, .second]
  thr t :=
    if t = .idle then { state := .ready, type := .core, stack := .noStack }
    else if t = .first then first
    else second
  mtx _ := { owner := some .first, count := 1, waiters := some .second }
  wkp _ := { waiter := some .second }
  currentThread := current
  lastTick := usec
  schedulerFrozen := false
  timer := none
  usecTimer := usec

/-- The second thread waits for the mutex of the first. The timer has wrapped around since. -/
def wrapped : Sched Trio Unit Unit :=
  three { state := .running, priority := 1, ownedMutexes := some () }
    { state := .blocked, blockType := .mutex, blockedBy := some (.mutex ()), priority := 1,
      timeout := 8, blockedSince := 0xfffffff6 } .first 5

theorem wrapped_rep : Rep wrapped (fun _ => [.second]) fun t => if t = .first then [()] else [] where
  waiters _ := ⟨rfl, rfl⟩
  owned t := by
    cases t
    · exact rfl
    · exact ⟨rfl, rfl⟩
    · exact rfl
  waiters_apart _ _ := rfl
  owned_apart {t u m} ht hu := by
    have hfirst : ∀ t : Trio, m ∈ (if t = .first then [()] else []) → t = .first := by
      intro t h
      split at h
      case isTrue he => exact he
      case isFalse => cases h
    exact (hfirst t ht).trans (hfirst u hu).symm

theorem wrapped_waits (t : Trio) (h : Waits wrapped t) : t = .second := by
  cases t
  · cases h.1
  · cases h.1
  · rfl

theorem wrapped_clock : Clock wrapped 4294967301 fun _ => 4294967286 where
  usec := by decide
  blockedSince t _ h := by rw [wrapped_waits t h]; decide
  since_le _ _ _ := by decide
  timeout_lt t _ h := by rw [wrapped_waits t h]; decide
  inTime t _ h := by rw [wrapped_waits t h]; decide

theorem wrapped_queued : Queued wrapped fun _ => [.second] := by
  intro t ht _
  cases t
  · cases ht
  · cases ht
  · exact ⟨(), rfl, List.mem_singleton_self _⟩

theorem wrapped_running (t : Trio) (ht : (wrapped.thr t).state = .running) :
    t = wrapped.currentThread := by
  cases t
  · cases ht
  · rfl
  · cases ht

/-- The first thread has overrun its stack. The second one waits for a signal for ever. -/
def overrun : Sched Trio Unit Unit :=
  three { state := .running, priority := 1, stack := .overwritten }
    { state := .blocked, blockType := .wakeup, blockedBy := some (.wakeup ()), type := .core,
      priority := 1, timeout := timeoutBlock } .first 5

/-- The second thread sleeps for a microsecond, and it is more than `2 ^ 31` later. -/
def overslept : Sched Trio Unit Unit :=
  three { state := .running, priority := 1 }
    { state := .blocked, blockType := .sleep, priority := 1, timeout := 1 } .first 0x80000002

/-- The first thread is ready, and has had all of the processor. -/
def greedy : Sched Trio Unit Unit :=
  three { state := .ready, priority := 1, cputimeCurrent := 0xffffffff }
    { state := .suspended, priority := 1 } .idle 5

end Switch

end Thread
end Freemyipod
