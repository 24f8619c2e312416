import Freemyipod.Thread.Model

/-!
# Thread.Queues

The two families of linked lists of `thread.c` as lists: `W m` for the waiters of the mutex `m`,
`O t` for the mutexes owned by the thread `t`. `Rep s W O` says that the pointers in `s`
represent them; one lemma for each pointer operation says which list operation it is.
-/

set_option linter.unusedSectionVars false

namespace Freemyipod
namespace Thread

section Defs

variable {τ μ ω : Type}

/-- The pointers of `s` represent the waiters lists `W` and the lists `O` of owned mutexes. -/
structure Rep (s : Sched τ μ ω) (W : μ → List τ) (O : τ → List μ) : Prop where
  waiters : ∀ m, Intrusive.Linked s.queueNext (s.mtx m).waiters (W m)
  owned : ∀ t, Intrusive.Linked s.ownedNext (s.thr t).ownedMutexes (O t)
  waiters_apart : ∀ {m n t}, t ∈ W m → t ∈ W n → m = n
  owned_apart : ∀ {t u m}, m ∈ O t → m ∈ O u → t = u

/-- `s'` is `s` but for the links of the waiters lists. -/
structure SameButQueues (s s' : Sched τ μ ω) : Prop where
  thr : ∀ t, s'.thr t = { s.thr t with queueNext := (s'.thr t).queueNext }
  mtx : ∀ m, s'.mtx m = { s.mtx m with waiters := (s'.mtx m).waiters }
  rest : { s' with thr := s.thr, mtx := s.mtx } = s

/-- `s'` is `s` but for the links of the lists of owned mutexes. -/
structure SameButOwned (s s' : Sched τ μ ω) : Prop where
  thr : ∀ t, s'.thr t = { s.thr t with ownedMutexes := (s'.thr t).ownedMutexes }
  mtx : ∀ m, s'.mtx m = { s.mtx m with ownedNext := (s'.mtx m).ownedNext }
  rest : { s' with thr := s.thr, mtx := s.mtx } = s

end Defs

variable {τ μ ω : Type} [DecidableEq τ] [DecidableEq μ] [DecidableEq ω]

section Fields

variable {s : Sched τ μ ω} {t : τ} {m : μ} {w : ω}
  {f : SchedulerThread τ μ ω → SchedulerThread τ μ ω} {g : Mutex τ μ → Mutex τ μ}
  {h : Wakeup τ → Wakeup τ} {qn : τ → Option τ} {on : μ → Option μ}

namespace Sched

@[simp] theorem modThread_thr (u : τ) :
    (s.modThread t f).thr u = if u = t then f (s.thr t) else s.thr u := by
  simp [modThread, Function.update_apply]
@[simp] theorem modThread_mtx : (s.modThread t f).mtx = s.mtx := rfl
@[simp] theorem modThread_wkp : (s.modThread t f).wkp = s.wkp := rfl
@[simp] theorem modThread_current : (s.modThread t f).currentThread = s.currentThread := rfl
@[simp] theorem modThread_threads : (s.modThread t f).threads = s.threads := rfl
@[simp] theorem modThread_usec : (s.modThread t f).usecTimer = s.usecTimer := rfl
@[simp] theorem modThread_frozen : (s.modThread t f).schedulerFrozen = s.schedulerFrozen := rfl

@[simp] theorem modMutex_mtx (n : μ) :
    (s.modMutex m g).mtx n = if n = m then g (s.mtx m) else s.mtx n := by
  simp [modMutex, Function.update_apply]
@[simp] theorem modMutex_thr : (s.modMutex m g).thr = s.thr := rfl
@[simp] theorem modMutex_wkp : (s.modMutex m g).wkp = s.wkp := rfl
@[simp] theorem modMutex_current : (s.modMutex m g).currentThread = s.currentThread := rfl
@[simp] theorem modMutex_threads : (s.modMutex m g).threads = s.threads := rfl
@[simp] theorem modMutex_usec : (s.modMutex m g).usecTimer = s.usecTimer := rfl
@[simp] theorem modMutex_frozen : (s.modMutex m g).schedulerFrozen = s.schedulerFrozen := rfl

@[simp] theorem modWakeup_wkp (v : ω) :
    (s.modWakeup w h).wkp v = if v = w then h (s.wkp w) else s.wkp v := by
  simp [modWakeup, Function.update_apply]
@[simp] theorem modWakeup_thr : (s.modWakeup w h).thr = s.thr := rfl
@[simp] theorem modWakeup_mtx : (s.modWakeup w h).mtx = s.mtx := rfl
@[simp] theorem modWakeup_current : (s.modWakeup w h).currentThread = s.currentThread := rfl
@[simp] theorem modWakeup_threads : (s.modWakeup w h).threads = s.threads := rfl
@[simp] theorem modWakeup_usec : (s.modWakeup w h).usecTimer = s.usecTimer := rfl
@[simp] theorem modWakeup_frozen : (s.modWakeup w h).schedulerFrozen = s.schedulerFrozen := rfl

@[simp] theorem setQueueNext_thr (u : τ) :
    (s.setQueueNext qn).thr u = { s.thr u with queueNext := qn u } := rfl
@[simp] theorem setQueueNext_mtx : (s.setQueueNext qn).mtx = s.mtx := rfl
@[simp] theorem setQueueNext_wkp : (s.setQueueNext qn).wkp = s.wkp := rfl
@[simp] theorem setQueueNext_current : (s.setQueueNext qn).currentThread = s.currentThread := rfl

@[simp] theorem setOwnedNext_mtx (n : μ) :
    (s.setOwnedNext on).mtx n = { s.mtx n with ownedNext := on n } := rfl
@[simp] theorem setOwnedNext_thr : (s.setOwnedNext on).thr = s.thr := rfl
@[simp] theorem setOwnedNext_wkp : (s.setOwnedNext on).wkp = s.wkp := rfl
@[simp] theorem setOwnedNext_current : (s.setOwnedNext on).currentThread = s.currentThread := rfl

theorem unblock_thr (u : τ) :
    (s.unblock t).thr u = if u = t then
      { s.thr t with state := .ready, blockType := .notBlocked, blockedBy := none, timeout := 0 }
    else s.thr u := modThread_thr u
@[simp] theorem unblock_mtx : (s.unblock t).mtx = s.mtx := rfl
@[simp] theorem unblock_wkp : (s.unblock t).wkp = s.wkp := rfl
@[simp] theorem unblock_current : (s.unblock t).currentThread = s.currentThread := rfl
@[simp] theorem unblock_threads : (s.unblock t).threads = s.threads := rfl
@[simp] theorem unblock_usec : (s.unblock t).usecTimer = s.usecTimer := rfl
@[simp] theorem unblock_frozen : (s.unblock t).schedulerFrozen = s.schedulerFrozen := rfl

end Sched
end Fields

section Rep

variable {s s' : Sched τ μ ω} {W : μ → List τ} {O : τ → List μ} {t : τ} {m : μ}

namespace SameButQueues

theorem wkp (h : SameButQueues s s') : s'.wkp = s.wkp := by
  have := congrArg Sched.wkp h.rest; exact this
theorem current (h : SameButQueues s s') : s'.currentThread = s.currentThread := by
  have := congrArg Sched.currentThread h.rest; exact this
theorem threads (h : SameButQueues s s') : s'.threads = s.threads := by
  have := congrArg Sched.threads h.rest; exact this
theorem usec (h : SameButQueues s s') : s'.usecTimer = s.usecTimer := by
  have := congrArg Sched.usecTimer h.rest; exact this
theorem frozen (h : SameButQueues s s') : s'.schedulerFrozen = s.schedulerFrozen := by
  have := congrArg Sched.schedulerFrozen h.rest; exact this
theorem state (h : SameButQueues s s') (t : τ) : (s'.thr t).state = (s.thr t).state := by
  rw [h.thr t]
theorem blockType (h : SameButQueues s s') (t : τ) :
    (s'.thr t).blockType = (s.thr t).blockType := by rw [h.thr t]
theorem blockedBy (h : SameButQueues s s') (t : τ) :
    (s'.thr t).blockedBy = (s.thr t).blockedBy := by rw [h.thr t]
theorem timeout (h : SameButQueues s s') (t : τ) : (s'.thr t).timeout = (s.thr t).timeout := by
  rw [h.thr t]
theorem blockedSince (h : SameButQueues s s') (t : τ) :
    (s'.thr t).blockedSince = (s.thr t).blockedSince := by rw [h.thr t]
theorem stack (h : SameButQueues s s') (t : τ) : (s'.thr t).stack = (s.thr t).stack := by
  rw [h.thr t]
theorem ownedMutexes (h : SameButQueues s s') (t : τ) :
    (s'.thr t).ownedMutexes = (s.thr t).ownedMutexes := by rw [h.thr t]
theorem count (h : SameButQueues s s') (m : μ) : (s'.mtx m).count = (s.mtx m).count := by
  rw [h.mtx m]
theorem owner (h : SameButQueues s s') (m : μ) : (s'.mtx m).owner = (s.mtx m).owner := by
  rw [h.mtx m]
theorem ownedNext (h : SameButQueues s s') : s'.ownedNext = s.ownedNext := by
  funext m; unfold Sched.ownedNext; rw [h.mtx m]

end SameButQueues

/-- `Rep` depends on the links and the list heads only. -/
theorem Rep.congr (h : Rep s W O) (hq : ∀ t, (s'.thr t).queueNext = (s.thr t).queueNext)
    (ho : ∀ t, (s'.thr t).ownedMutexes = (s.thr t).ownedMutexes)
    (hw : ∀ m, (s'.mtx m).waiters = (s.mtx m).waiters)
    (hn : ∀ m, (s'.mtx m).ownedNext = (s.mtx m).ownedNext) : Rep s' W O where
  waiters m := by
    rw [hw m, show s'.queueNext = s.queueNext from funext hq]; exact h.waiters m
  owned t := by
    rw [ho t, show s'.ownedNext = s.ownedNext from funext hn]; exact h.owned t
  waiters_apart := h.waiters_apart
  owned_apart := h.owned_apart

theorem Rep.modThread (h : Rep s W O) (t : τ)
    {f : SchedulerThread τ μ ω → SchedulerThread τ μ ω}
    (hq : ∀ x, (f x).queueNext = x.queueNext) (ho : ∀ x, (f x).ownedMutexes = x.ownedMutexes) :
    Rep (s.modThread t f) W O := by
  refine h.congr (fun u => ?_) (fun u => ?_) (fun _ => rfl) (fun _ => rfl) <;>
    rw [Sched.modThread_thr] <;> split <;> simp_all

theorem Rep.unblock (h : Rep s W O) (t : τ) : Rep (s.unblock t) W O :=
  h.modThread t (fun _ => rfl) fun _ => rfl

theorem Rep.modMutex (h : Rep s W O) (m : μ) {f : Mutex τ μ → Mutex τ μ}
    (hw : ∀ x, (f x).waiters = x.waiters) (hn : ∀ x, (f x).ownedNext = x.ownedNext) :
    Rep (s.modMutex m f) W O := by
  refine h.congr (fun _ => rfl) (fun _ => rfl) (fun u => ?_) (fun u => ?_) <;>
    rw [Sched.modMutex_mtx] <;> split <;> simp_all

theorem Rep.modWakeup (h : Rep s W O) (w : ω) {f : Wakeup τ → Wakeup τ} :
    Rep (s.modWakeup w f) W O :=
  h.congr (fun _ => rfl) (fun _ => rfl) (fun _ => rfl) fun _ => rfl

theorem Rep.nodup_waiters (h : Rep s W O) (m : μ) : (W m).Nodup := (h.waiters m).nodup

theorem Rep.nodup_owned (h : Rep s W O) (t : τ) : (O t).Nodup := (h.owned t).nodup

variable [Fintype τ] [Fintype μ]

theorem Rep.length_waiters (h : Rep s W O) (m : μ) : (W m).length ≤ Fintype.card τ :=
  (h.nodup_waiters m).length_le_card

theorem Rep.length_owned (h : Rep s W O) (t : τ) : (O t).length ≤ Fintype.card μ :=
  (h.nodup_owned t).length_le_card

/-- New links for the queue of one mutex: the queues of the others keep theirs. -/
theorem Rep.relink (h : Rep s W O) {next : τ → Option τ} {head : Option τ} {l : List τ}
    (hl : Intrusive.Linked next head l)
    (hfr : ∀ n b, n ≠ m → b ∈ W n → next b = s.queueNext b)
    (hap : ∀ n b, n ≠ m → b ∈ W n → b ∉ l) :
    Rep ((s.setQueueNext next).modMutex m fun o => { o with waiters := head })
      (Function.update W m l) O := by
  refine ⟨fun n => ?_, fun t => ?_, ?_, h.owned_apart⟩
  · have hnext : ((s.setQueueNext next).modMutex m
        fun o => { o with waiters := head }).queueNext = next := rfl
    rw [hnext, Sched.modMutex_mtx, Function.update_apply]
    split
    · exact hl
    · rename_i hn
      exact (h.waiters n).congr fun b hb => hfr n b hn hb
  · have hon : ((s.setQueueNext next).modMutex m
        fun o => { o with waiters := head }).ownedNext = s.ownedNext := by
      funext n; unfold Sched.ownedNext; rw [Sched.modMutex_mtx]; split <;> simp_all
    rw [hon]
    exact h.owned t
  · intro n k t hn hk
    rw [Function.update_apply] at hn hk
    split at hn <;> split at hk
    · simp_all
    · rename_i he hne; exact absurd hn (hap k t hne hk)
    · rename_i hne he; exact absurd hk (hap n t hne hn)
    · exact h.waiters_apart hn hk

theorem sameButQueues_relink {next : τ → Option τ} {head : Option τ} :
    SameButQueues s ((s.setQueueNext next).modMutex m fun o => { o with waiters := head }) where
  thr _ := rfl
  mtx n := by rw [Sched.modMutex_mtx]; split <;> simp_all
  rest := rfl

/-- `mutex_add_to_queue` inserts behind the waiters of higher priority. -/
theorem mutexAddToQueue_rep (h : Rep s W O) (ht : ∀ n, t ∉ W n) :
    ∃ s', mutexAddToQueue s m t = some s' ∧ SameButQueues s s' ∧
      Rep s' (Function.update W m ((W m).orderedInsert
        (fun a b => (s.thr b).priority.toNat ≤ (s.thr a).priority.toNat) t)) O := by
  obtain ⟨next, head, hi, hl, hfr⟩ := Intrusive.insert_spec
    (fun t => (s.thr t).priority.toNat) (h.waiters m) (ht m) (h.length_waiters m)
  refine ⟨_, by simp only [mutexAddToQueue, hi]; rfl, sameButQueues_relink, h.relink hl ?_ ?_⟩
  · intro n b hn hb
    exact hfr b (fun he => ht n (he ▸ hb)) fun hm => hn (h.waiters_apart hb hm)
  · intro n b hn hb hm
    rcases (List.mem_orderedInsert _).mp hm with rfl | hm
    · exact ht n hb
    · exact hn (h.waiters_apart hb hm)

/-- `mutex_remove_from_queue` removes the thread, if it comes back. -/
theorem mutexRemoveFromQueue_rep {mc : Machine τ ω} (h : Rep s W O)
    (hr : mutexRemoveFromQueue mc s m t = some s') :
    SameButQueues s s' ∧ Rep s' (Function.update W m ((W m).erase t)) O := by
  simp only [mutexRemoveFromQueue, Option.bind_eq_bind, Option.bind_eq_some_iff, Prod.exists,
    Option.some.injEq] at hr
  obtain ⟨next, head, hu, rfl⟩ := hr
  obtain ⟨hl, hfr⟩ := Intrusive.unlink_spec (h.waiters m) (h.length_waiters m) hu
  refine ⟨sameButQueues_relink, h.relink hl ?_ ?_⟩
  · intro n b hn hb
    exact hfr b (.inr fun hm => hn (h.waiters_apart hb hm))
  · intro n b hn hb hm
    exact hn (h.waiters_apart hb (List.mem_of_mem_erase hm))

/-- `mutex_remove_from_queue` comes back unless the thread is a last but not first waiter and
the null pointer's `queue_next` is not null. -/
theorem mutexRemoveFromQueue_isSome {mc : Machine τ ω} (h : Rep s W O) :
    (mutexRemoveFromQueue mc s m t).isSome ↔
      (t ∈ (W m).tail → (s.thr t).queueNext = none → mc.nullQueueNextEnds = true) := by
  rw [← show s.queueNext t = (s.thr t).queueNext from rfl,
    ← Intrusive.unlink_isSome (h.waiters m) (h.length_waiters m)]
  simp only [mutexRemoveFromQueue]
  cases Intrusive.unlink mc.nullQueueNextEnds t (Fintype.card τ) s.queueNext (s.mtx m).waiters <;>
    simp

/-! ## Owned mutexes -/

theorem SameButOwned.wkp (h : SameButOwned s s') : s'.wkp = s.wkp := by
  have := congrArg Sched.wkp h.rest; exact this
theorem SameButOwned.current (h : SameButOwned s s') : s'.currentThread = s.currentThread := by
  have := congrArg Sched.currentThread h.rest; exact this

/-- A mutex that nobody owns becomes the first of the mutexes owned by `t`, while the waiters
lists become `W'`. -/
theorem Rep.push_owned {W' : μ → List τ} (h : Rep s W O) (hm : ∀ u, m ∉ O u)
    (hW : ∀ n, Intrusive.Linked s.queueNext (s'.mtx n).waiters (W' n))
    (hap : ∀ {n k u}, u ∈ W' n → u ∈ W' k → n = k)
    (hq : ∀ u, (s'.thr u).queueNext = (s.thr u).queueNext)
    (ho : ∀ u, (s'.thr u).ownedMutexes = if u = t then some m else (s.thr u).ownedMutexes)
    (hn : ∀ n, (s'.mtx n).ownedNext =
      if n = m then (s.thr t).ownedMutexes else (s.mtx n).ownedNext) :
    Rep s' W' (Function.update O t (m :: O t)) := by
  have hnext : s'.ownedNext = Function.update s.ownedNext m (s.thr t).ownedMutexes := by
    funext n
    rw [Function.update_apply]
    exact hn n
  refine ⟨fun n => ?_, fun u => ?_, hap, ?_⟩
  · rw [show s'.queueNext = s.queueNext from funext hq]
    exact hW n
  · rw [ho u, hnext, Function.update_apply]
    split
    · exact (h.owned t).push (hm t)
    · refine (h.owned u).congr fun b hb => Function.update_of_ne (fun he : b = m => ?_) _ _
      exact hm u (he ▸ hb)
  · intro u v n hu hv
    rw [Function.update_apply] at hu hv
    split at hu <;> split at hv
    · simp_all
    · rename_i he hne
      rcases List.mem_cons.mp hu with rfl | hu
      · exact absurd hv (hm v)
      · rw [he]; exact h.owned_apart hu hv
    · rename_i hne he
      rcases List.mem_cons.mp hv with rfl | hv
      · exact absurd hu (hm u)
      · rw [he]; exact h.owned_apart hu hv
    · exact h.owned_apart hu hv

/-- Unlinking a mutex from its owner's list. -/
theorem Rep.unlink_owned {mc : Machine τ ω} {next : μ → Option μ} {head : Option μ}
    (h : Rep s W O)
    (hu : Intrusive.unlink mc.nullOwnedNextEnds m (Fintype.card μ) s.ownedNext
      (s.thr t).ownedMutexes = some (next, head)) :
    SameButOwned s ((s.setOwnedNext next).modThread t fun x => { x with ownedMutexes := head }) ∧
    Rep ((s.setOwnedNext next).modThread t fun x => { x with ownedMutexes := head }) W
      (Function.update O t ((O t).erase m)) := by
  obtain ⟨hl, hfr⟩ := Intrusive.unlink_spec (h.owned t) (h.length_owned t) hu
  refine ⟨⟨fun u => ?_, fun _ => rfl, rfl⟩, fun n => ?_, fun u => ?_, h.waiters_apart, ?_⟩
  · rw [Sched.modThread_thr]; split <;> simp_all
  · have hq : ((s.setOwnedNext next).modThread t
        fun x => { x with ownedMutexes := head }).queueNext = s.queueNext := by
      funext u; unfold Sched.queueNext; rw [Sched.modThread_thr]; split <;> simp_all
    rw [hq]
    exact h.waiters n
  · have hn : ((s.setOwnedNext next).modThread t
        fun x => { x with ownedMutexes := head }).ownedNext = next := rfl
    rw [hn, Sched.modThread_thr, Function.update_apply]
    split
    · exact hl
    · rename_i hne
      exact (h.owned u).congr fun b hb => hfr b (.inr fun hm => hne (h.owned_apart hb hm))
  · intro u v n hu hv
    rw [Function.update_apply] at hu hv
    split at hu <;> split at hv
    · simp_all
    · rename_i he _; rw [he]; exact h.owned_apart (List.mem_of_mem_erase hu) hv
    · rename_i _ he; rw [he]; exact h.owned_apart hu (List.mem_of_mem_erase hv)
    · exact h.owned_apart hu hv

theorem handOver_none (hw : (s.mtx m).waiters = none) :
    handOver s m = s.modMutex m fun o => { o with count := 0 } := by
  simp [handOver, hw]

/-- Handing over in one piece: the first waiter is unblocked and becomes the owner. -/
theorem handOver_some {w : τ} (hw : (s.mtx m).waiters = some w) :
    handOver s m = (s.modMutex m fun o =>
      { o with
        count := 1
        owner := some w
        waiters := (s.thr w).queueNext
        ownedNext := (s.thr w).ownedMutexes }).modThread w fun x =>
      { x with
        state := .ready
        blockType := .notBlocked
        blockedBy := none
        timeout := 0
        ownedMutexes := some m } := by
  simp [handOver, hw, Sched.unblock, Sched.modThread, Sched.modMutex]

theorem handOver_rep_free (h : Rep s W O) (hw : W m = []) :
    handOver s m = s.modMutex m (fun o => { o with count := 0 }) ∧ Rep (handOver s m) W O := by
  have hn : (s.mtx m).waiters = none := by
    have := (h.waiters m).head_eq
    rwa [hw] at this
  rw [handOver_none hn]
  exact ⟨rfl, h.modMutex m (fun _ => rfl) fun _ => rfl⟩

theorem handOver_rep_waiter {w : τ} {r : List τ} (h : Rep s W O) (hw : W m = w :: r)
    (hm : ∀ u, m ∉ O u) :
    (s.mtx m).waiters = some w ∧
    Rep (handOver s m) (Function.update W m r) (Function.update O w (m :: O w)) := by
  have hlk := h.waiters m
  rw [hw] at hlk
  have hs : (s.mtx m).waiters = some w := hlk.1
  have hsub : ∀ {n u}, u ∈ Function.update W m r n → u ∈ W n := by
    intro n u hu
    rw [Function.update_apply] at hu
    split at hu
    · rename_i he; rw [he, hw]; exact List.mem_cons_of_mem _ hu
    · exact hu
  refine ⟨hs, ?_⟩
  rw [handOver_some hs]
  refine h.push_owned hm (fun n => ?_) (fun hu hv => h.waiters_apart (hsub hu) (hsub hv))
    (fun u => ?_) (fun u => ?_) (fun n => ?_)
  · rw [Sched.modThread_mtx, Sched.modMutex_mtx, Function.update_apply]
    split
    · exact hlk.2
    · exact h.waiters n
  · rw [Sched.modThread_thr]; split <;> simp_all
  · rw [Sched.modThread_thr]; split <;> simp_all
  · rw [Sched.modThread_mtx, Sched.modMutex_mtx]; split <;> simp_all

/-- `mutex_unlock_internal` on a mutex in its owner's list: unlink it, then hand it over. -/
theorem mutexUnlockInternal_rep {mc : Machine τ ω} (h : Rep s W O)
    (ho : (s.mtx m).owner = some t) (hm : m ∈ O t)
    (hr : mutexUnlockInternal mc s m = some s') :
    ∃ s₁, SameButOwned s s₁ ∧ Rep s₁ W (Function.update O t ((O t).erase m)) ∧
      (∀ u, m ∉ Function.update O t ((O t).erase m) u) ∧
      (s₁.mtx m).ownedNext = (s.mtx m).ownedNext ∧ s' = handOver s₁ m := by
  have hne : (s.thr t).ownedMutexes ≠ none := by
    rw [(h.owned t).head_eq]
    intro he
    rw [List.head?_eq_none_iff.mp he] at hm
    cases hm
  simp only [mutexUnlockInternal, ho, Option.bind_eq_bind, Option.bind_some, if_neg hne,
    Option.bind_eq_some_iff, Prod.exists, Option.some.injEq] at hr
  obtain ⟨next, head, hu, rfl⟩ := hr
  obtain ⟨hs, hrep⟩ := h.unlink_owned hu
  refine ⟨_, hs, hrep, fun u hmu => ?_,
    (Intrusive.unlink_spec (h.owned t) (h.length_owned t) hu).2 m (.inl rfl), rfl⟩
  rw [Function.update_apply] at hmu
  split at hmu
  · exact (List.Nodup.not_mem_erase (h.nodup_owned t)) hmu
  · rename_i hut
    exact hut (h.owned_apart hmu hm)

end Rep

end Thread
end Freemyipod
