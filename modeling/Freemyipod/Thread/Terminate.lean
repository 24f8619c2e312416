import Freemyipod.Thread.Wakeup

/-!
# Thread.Terminate

What `thread_terminate` leaves behind.

The loop that releases the mutexes of the thread walks along `owned_next`, which
`mutex_unlock_internal` redirects into the list of the new owner when it hands the mutex over. A
thread blocked on a mutex is taken out of the queue of whatever the uninitialised `t` points to,
and only a thread that is `BLOCKED` on a wakeup is taken out of it. `threadTerminate_iff` says for
which threads all goes well nevertheless.
-/

set_option linter.unusedSectionVars false

namespace Freemyipod
namespace Thread

section Defs

variable {τ μ ω : Type}

/-- The lists of waiters and of owned mutexes, and that the latter agree with the mutexes. -/
structure OwnedLists (s : Sched τ μ ω) (W : μ → List τ) (O : τ → List μ) : Prop where
  rep : Rep s W O
  owns : ∀ t m, m ∈ O t ↔ Owns s t m

/-- `thread` holds nothing any more in `s'`, and nobody else has lost anything since `s`. -/
structure Released [DecidableEq τ] (s s' : Sched τ μ ω) (thread : τ) : Prop where
  owned : ∀ m, Owns s thread m → (s'.mtx m).count = 0 ∨
    ∃ u, (s.mtx m).waiters = some u ∧ Owns s' u m ∧ (s'.thr u).state = .ready
  others : ∀ u m, u ≠ thread → Owns s u m → (s'.mtx m).owner = some u ∧
    (s'.mtx m).count = (s.mtx m).count ∧ ∀ l, Intrusive.Linked s.queueNext (s.mtx m).waiters l →
      Intrusive.Linked s'.queueNext (s'.mtx m).waiters (l.filter (· ≠ thread))
  waiters : ∀ m l, Intrusive.Linked s'.queueNext (s'.mtx m).waiters l → thread ∉ l
  wakeups : ∀ w, (s'.wkp w).waiter ≠ some thread

/-- Of the mutexes in a list, none but the last has waiters, and the first waiter of the last owns
no other mutex. -/
def Releasable (s : Sched τ μ ω) : List μ → Prop
  | [] => True
  | [m] => ∀ w, (s.mtx m).waiters = some w → (s.thr w).ownedMutexes = none
  | m :: n :: l => (s.mtx m).waiters = none ∧ Releasable s (n :: l)

/-- What must hold of a thread for its termination to work as intended. -/
structure Terminable (s : Sched τ μ ω) (thread : τ) : Prop where
  notMutex : ¬ ((s.thr thread).state = .blocked ∧ (s.thr thread).blockType = .mutex)
  wakeup : ∀ w, (s.wkp w).waiter = some thread → (s.thr thread).state = .blocked ∧
    (s.thr thread).blockType = .wakeup ∧ (s.thr thread).blockedBy = some (.wakeup w)
  owned : ∀ l, Intrusive.Linked s.ownedNext (s.thr thread).ownedMutexes l → Releasable s l

end Defs

variable {τ μ ω : Type} [DecidableEq τ] [DecidableEq μ] [DecidableEq ω] [Fintype τ] [Fintype μ]
  {mc : Machine τ ω} {s s' s₁ : Sched τ μ ω} {W : μ → List τ} {O : τ → List μ} {t u w : τ}
  {m n : μ} {l : List μ} {p : Option μ} {fuel : Nat}

/-! ## One round of the loop -/

/-- What `mutex_unlock_internal` leaves alone. -/
structure UnlockFrame (s s' : Sched τ μ ω) (m : μ) : Prop where
  count : ∀ n, n ≠ m → (s'.mtx n).count = (s.mtx n).count
  owner : ∀ n, n ≠ m → (s'.mtx n).owner = (s.mtx n).owner
  waiters : ∀ n, n ≠ m → (s'.mtx n).waiters = (s.mtx n).waiters
  wkp : s'.wkp = s.wkp
  queueNext : s'.queueNext = s.queueNext
  state : ∀ u, (s.mtx m).waiters ≠ some u → (s'.thr u).state = (s.thr u).state

theorem OwnedLists.mem_erase (h : OwnedLists s W O) (hm : m ∈ O t) (u : τ) (n : μ) :
    n ∈ Function.update O t ((O t).erase m) u ↔ n ∈ O u ∧ n ≠ m := by
  rw [Function.update_apply]
  split
  · rename_i hu; subst hu
    rw [(h.rep.nodup_owned u).mem_erase_iff]; exact and_comm
  · rename_i hu
    refine ⟨fun hn => ⟨hn, ?_⟩, fun hn => hn.1⟩
    rintro rfl
    exact hu (h.rep.owned_apart hn hm)

theorem mutexUnlockInternal_owned (h : OwnedLists s W O) (hm : m ∈ O t)
    (hr : mutexUnlockInternal mc s m = some s') :
    UnlockFrame s s' m ∧
      (W m = [] ∧ (s'.mtx m).count = 0 ∧ s'.ownedNext m = s.ownedNext m ∧
          OwnedLists s' W (Function.update O t ((O t).erase m)) ∨
        ∃ w r, W m = w :: r ∧ Owns s' w m ∧ (s'.thr w).state = .ready ∧
          (w ≠ t → s'.ownedNext m = (s.thr w).ownedMutexes) ∧
          ∃ O', OwnedLists s' (Function.update W m r) O' ∧
            (∀ u n, n ∈ O' u ↔ if n = m then u = w else n ∈ O u) ∧
            ∀ n, s'.ownedNext m = some n → n ∈ O' w) := by
  have ho := (h.owns t m).mp hm
  obtain ⟨s₁, hsame, hrep, hout, hnext, rfl⟩ := mutexUnlockInternal_rep h.rep ho.2 hm hr
  have hO := fun u n => h.mem_erase hm u n
  have hq₁ : s₁.queueNext = s.queueNext := by
    funext u; unfold Sched.queueNext; rw [hsame.thr]
  have hmtx₁ : ∀ n, (s₁.mtx n).count = (s.mtx n).count ∧ (s₁.mtx n).owner = (s.mtx n).owner ∧
      (s₁.mtx n).waiters = (s.mtx n).waiters := fun n => by
    rw [hsame.mtx n]; exact ⟨rfl, rfl, rfl⟩
  cases hWm : W m with
  | nil =>
    obtain ⟨he, hrep'⟩ := handOver_rep_free hrep hWm
    have hmtx : ∀ n, (handOver s₁ m).mtx n =
        if n = m then { s₁.mtx m with count := 0 } else s₁.mtx n := fun n => by
      rw [he, Sched.modMutex_mtx]
    refine ⟨⟨fun n hn => ?_, fun n hn => ?_, fun n hn => ?_, by rw [he]; exact hsame.wkp,
      by rw [he]; exact hq₁, fun u _ => by rw [he]; exact (hsame.sameBlock u).state⟩,
      .inl ⟨rfl, by rw [hmtx, if_pos rfl], ?_, hrep', fun u n => ?_⟩⟩
    · rw [hmtx, if_neg hn]; exact (hmtx₁ n).1
    · rw [hmtx, if_neg hn]; exact (hmtx₁ n).2.1
    · rw [hmtx, if_neg hn]; exact (hmtx₁ n).2.2
    · show ((handOver s₁ m).mtx m).ownedNext = _
      rw [hmtx, if_pos rfl]
      exact hnext
    · rw [hO, h.owns]
      by_cases hn : n = m
      · simp [Owns, hmtx, hn]
      · simp [Owns, hmtx, hn, hmtx₁]
  | cons w r =>
    obtain ⟨hw, hrep'⟩ := handOver_rep_waiter hrep hWm hout
    have hhand := handOver_some hw
    have hws : (s.mtx m).waiters = some w := (hmtx₁ m).2.2.symm.trans hw
    have hmtx : ∀ n, (handOver s₁ m).mtx n = if n = m then
        { s₁.mtx m with
          count := 1
          owner := some w
          waiters := (s₁.thr w).queueNext
          ownedNext := (s₁.thr w).ownedMutexes } else s₁.mtx n := fun n => by
      rw [hhand, Sched.modThread_mtx, Sched.modMutex_mtx]
    have hnext' : (handOver s₁ m).ownedNext m = (s₁.thr w).ownedMutexes := by
      show ((handOver s₁ m).mtx m).ownedNext = _
      rw [hmtx, if_pos rfl]
    have hO' : ∀ u n, n ∈ Function.update (Function.update O t ((O t).erase m)) w
        (m :: Function.update O t ((O t).erase m) w) u ↔ if n = m then u = w else n ∈ O u :=
      fun u n => by
        rw [Function.update_apply]
        split
        · rename_i hu; subst hu
          rw [List.mem_cons, hO]
          by_cases hn : n = m <;> simp [hn]
        · rename_i hu
          rw [hO]
          by_cases hn : n = m <;> simp [hn, hu]
    refine ⟨⟨fun n hn => ?_, fun n hn => ?_, fun n hn => ?_, by rw [hhand]; exact hsame.wkp,
      ?_, fun u hu => ?_⟩, .inr ⟨w, r, rfl, ?_, ?_, fun hwt => ?_, _, ⟨hrep', fun u n => ?_⟩, hO',
      fun n hn => ?_⟩⟩
    · rw [hmtx, if_neg hn]; exact (hmtx₁ n).1
    · rw [hmtx, if_neg hn]; exact (hmtx₁ n).2.1
    · rw [hmtx, if_neg hn]; exact (hmtx₁ n).2.2
    · rw [← hq₁]
      funext u
      unfold Sched.queueNext
      rw [hhand, Sched.modThread_thr]
      split
      · rename_i hu; subst hu; rfl
      · rfl
    · have huw : u ≠ w := fun he => hu (he ▸ hws)
      rw [hhand, Sched.modThread_thr, if_neg huw]
      exact (hsame.sameBlock u).state
    · simp [Owns, hmtx]
    · rw [hhand, Sched.modThread_thr, if_pos rfl]
    · have h₁ := (hrep.owned w).head_eq
      rw [Function.update_of_ne hwt] at h₁
      rw [hnext', h₁, (h.rep.owned w).head_eq]
    · rw [hO', h.owns]
      by_cases hn : n = m
      · simp [Owns, hmtx, hn, eq_comm]
      · simp [Owns, hmtx, hn, hmtx₁]
    · rw [hnext'] at hn
      have := (hrep.owned w).head_eq
      rw [hn] at this
      rw [Function.update_self]
      exact List.mem_cons_of_mem _ (List.mem_of_head? this.symm)

/-- The first mutex in the list of its owner is unlinked at once. -/
theorem mutexUnlockInternal_head (mc : Machine τ ω) (ho : (s.mtx m).owner = some t)
    (hh : (s.thr t).ownedMutexes = some m) : ∃ s', mutexUnlockInternal mc s m = some s' := by
  simp [mutexUnlockInternal, ho, hh, Intrusive.unlink]

theorem OwnedLists.mem_waiters (h : OwnedLists s W O) (hw : (s.mtx m).waiters = some w) :
    w ∈ W m := by
  have := (h.rep.waiters m).head_eq
  rw [hw] at this
  exact List.mem_of_head? this.symm

theorem OwnedLists.waiters_nil (h : OwnedLists s W O) (hw : W m = []) :
    (s.mtx m).waiters = none := by
  have := h.rep.waiters m
  rwa [hw] at this

theorem OwnedLists.owned_head (h : OwnedLists s W O) (t : τ) :
    (s.thr t).ownedMutexes = (O t).head? := (h.rep.owned t).head_eq

/-! ## The loop -/

/-- A mutex that was taken away from a thread that waits for none does not come back to it. -/
theorem releaseMutexes_lost (h : OwnedLists s W O) (hp : ∀ m, p = some m → ∃ u, m ∈ O u)
    (hw : ∀ m, w ∉ W m) (hn : n ∉ O w) (hr : releaseMutexes mc fuel s p = some s') :
    ¬ Owns s' w n := by
  induction fuel generalizing s W O p with
  | zero => cases hr
  | succ fuel ih =>
    cases p with
    | none =>
      cases hr
      rwa [← h.owns]
    | some m =>
      obtain ⟨u, hu⟩ := hp m rfl
      simp only [releaseMutexes, Option.bind_eq_bind, Option.bind_eq_some_iff] at hr
      obtain ⟨s₁, hs₁, hr⟩ := hr
      obtain ⟨-, ⟨hWm, -, hnext, hl⟩ | ⟨v, r, hWm, -, -, -, O', hl, hO', hnext⟩⟩ :=
        mutexUnlockInternal_owned h hu hs₁
      · refine ih hl (fun k hk => ⟨u, ?_⟩) hw (fun hn' => hn ((h.mem_erase hu w n).mp hn').1) hr
        rw [hnext] at hk
        exact (h.mem_erase hu u k).mpr ((h.rep.owned u).mem_of_next hu hk)
      · have hwv : w ≠ v := fun he => hw m (by rw [hWm, he]; exact List.mem_cons_self)
        refine ih hl (fun k hk => ⟨v, hnext k hk⟩) (fun k hk => ?_) (fun hn' => ?_) hr
        · rw [Function.update_apply] at hk
          split at hk
          · exact hw m (by rw [hWm]; exact List.mem_cons_of_mem _ hk)
          · exact hw k hk
        · rw [hO'] at hn'
          split at hn'
          · exact hwv hn'
          · exact hn hn'

/-- When the loop gets into the list of a thread, it takes the mutex it finds there away. -/
theorem releaseMutexes_takes (h : OwnedLists s W O) (hn : n ∈ O w) (hw : ∀ m, w ∉ W m)
    (hr : releaseMutexes mc fuel s (some n) = some s') : ¬ Owns s' w n := by
  cases fuel with
  | zero => cases hr
  | succ fuel =>
    simp only [releaseMutexes, Option.bind_eq_bind, Option.bind_eq_some_iff] at hr
    obtain ⟨s₁, hs₁, hr⟩ := hr
    obtain ⟨-, ⟨hWn, -, hnext, hl⟩ | ⟨v, r, hWn, -, -, -, O', hl, hO', hnext⟩⟩ :=
      mutexUnlockInternal_owned h hn hs₁
    · refine releaseMutexes_lost hl (fun k hk => ⟨w, ?_⟩) hw
        (fun hn' => ((h.mem_erase hn w n).mp hn').2 rfl) hr
      rw [hnext] at hk
      exact (h.mem_erase hn w k).mpr ((h.rep.owned w).mem_of_next hn hk)
    · refine releaseMutexes_lost hl (fun k hk => ⟨v, hnext k hk⟩) (fun k hk => ?_) (fun hn' => ?_)
        hr
      · rw [Function.update_apply] at hk
        split at hk
        · exact hw n (by rw [hWn]; exact List.mem_cons_of_mem _ hk)
        · exact hw k hk
      · rw [hO', if_pos rfl] at hn'
        exact hw n (by rw [hWn, hn']; exact List.mem_cons_self)

theorem Releasable.congr (h : Releasable s₁ l)
    (hw : ∀ m ∈ l, (s₁.mtx m).waiters = (s.mtx m).waiters)
    (ho : ∀ m ∈ l, ∀ w, (s.mtx m).waiters = some w →
      (s₁.thr w).ownedMutexes = (s.thr w).ownedMutexes) : Releasable s l := by
  induction l with
  | nil => trivial
  | cons m l ih =>
    cases l with
    | nil =>
      intro w hm
      rw [← ho m List.mem_cons_self w hm]
      exact h w ((hw m List.mem_cons_self).trans hm)
    | cons n l =>
      exact ⟨(hw m List.mem_cons_self).symm.trans h.1,
        ih h.2 (fun k hk => hw k (List.mem_cons_of_mem _ hk))
          fun k hk => ho k (List.mem_cons_of_mem _ hk)⟩

/-- The loop does what it should only on a list that is fit for it. -/
theorem releasable_of_releaseMutexes (h : OwnedLists s W O) (hl : O t = l)
    (ht : ∀ m u, u ∈ W m → u ≠ t) (hr : releaseMutexes mc fuel s l.head? = some s')
    (hown : ∀ m ∈ l, (s'.mtx m).count = 0 ∨ ∃ u, (s.mtx m).waiters = some u ∧ Owns s' u m)
    (hoth : ∀ u m, u ≠ t → Owns s u m → Owns s' u m) : Releasable s l := by
  induction l generalizing s W O fuel with
  | nil => trivial
  | cons m l ih =>
    cases fuel with
    | zero => cases hr
    | succ fuel =>
      have hm : m ∈ O t := by rw [hl]; exact List.mem_cons_self
      have hnd : m ∉ l := by
        have := h.rep.nodup_owned t
        rw [hl] at this
        exact (List.nodup_cons.mp this).1
      simp only [releaseMutexes, List.head?_cons, Option.bind_eq_bind,
        Option.bind_eq_some_iff] at hr
      obtain ⟨s₁, hs₁, hr⟩ := hr
      obtain ⟨hf, ⟨hWm, hc, hnext, h₁⟩ | ⟨w, r, hWm, how, -, hnext, O', h₁, hO', -⟩⟩ :=
        mutexUnlockInternal_owned h hm hs₁
      · -- nobody waits for the mutex, and the loop goes on to the next one
        have hl₁ : Function.update O t ((O t).erase m) t = l := by
          rw [Function.update_self, hl, List.erase_cons_head]
        have hp : s₁.ownedNext m = l.head? := by
          have := h.rep.owned t
          rw [hl] at this
          rw [hnext]
          exact (this.2 : Intrusive.Linked s.ownedNext (s.ownedNext m) l).head_eq
        rw [hp] at hr
        have hne : ∀ k ∈ l, k ≠ m := fun k hk he => hnd (he ▸ hk)
        have hrec := ih h₁ hl₁ ht hr
          (fun k hk => by
            rcases hown k (List.mem_cons_of_mem _ hk) with hz | ⟨u, hu, ho⟩
            · exact .inl hz
            · exact .inr ⟨u, (hf.waiters k (hne k hk)).trans hu, ho⟩)
          fun u k hu ho => by
            have hkm : k ≠ m := fun he => ho.1 (he ▸ hc)
            exact hoth u k hu ⟨fun he => ho.1 ((hf.count k hkm).trans he),
              (hf.owner k hkm).symm.trans ho.2⟩
        have hrel : Releasable s l := hrec.congr (fun k hk => hf.waiters k (hne k hk))
          fun k hk u hu => by
            have hut : u ≠ t := ht k u (h.mem_waiters hu)
            rw [h₁.owned_head, h.owned_head, Function.update_of_ne hut]
        cases l with
        | nil =>
          intro u hu
          rw [h.waiters_nil hWm] at hu
          cases hu
        | cons k l => exact ⟨h.waiters_nil hWm, hrel⟩
      · -- the first waiter gets the mutex, and the loop goes on in its list
        have hwm : w ∈ W m := by rw [hWm]; exact List.mem_cons_self
        have hwt : w ≠ t := ht m w hwm
        have hws : (s.mtx m).waiters = some w := by
          rw [(h.rep.waiters m).head_eq, hWm, List.head?_cons]
        have hout : ∀ k, w ∉ Function.update W m r k := fun k hk => by
          rw [Function.update_apply] at hk
          split at hk
          · have := h.rep.nodup_waiters m
            rw [hWm] at this
            exact (List.nodup_cons.mp this).1 hk
          · rename_i hkm
            exact hkm (h.rep.waiters_apart hk hwm)
        have hnone : (s.thr w).ownedMutexes = none := by
          cases hown' : (s.thr w).ownedMutexes with
          | none => rfl
          | some n =>
            exfalso
            rw [hnext hwt, hown'] at hr
            have hn : n ∈ O w := by
              have := h.owned_head w
              rw [hown'] at this
              exact List.mem_of_head? this.symm
            have hnm : n ≠ m := by
              rintro rfl
              exact hwt (h.rep.owned_apart hn hm)
            refine releaseMutexes_takes h₁ ((hO' w n).mpr ?_) hout hr
              (hoth w n hwt ((h.owns w n).mp hn))
            rw [if_neg hnm]
            exact hn
        cases l with
        | nil =>
          intro u hu
          cases hws.symm.trans hu
          exact hnone
        | cons k l =>
          exfalso
          rw [hnext hwt, hnone] at hr
          cases fuel with
          | zero => cases hr
          | succ fuel =>
            cases hr
            have hkm : k ≠ m := fun he => hnd (he ▸ List.mem_cons_self)
            have hk : Owns s t k :=
              (h.owns t k).mp (by rw [hl]; exact List.mem_cons_of_mem _ List.mem_cons_self)
            rcases hown k (List.mem_cons_of_mem _ List.mem_cons_self) with hz | ⟨u, hu, ho⟩
            · exact hk.1 ((hf.count k hkm).symm.trans hz)
            · have := (hf.owner k hkm).symm.trans ho.2
              rw [hk.2] at this
              cases this
              exact ht k t (h.mem_waiters hu) rfl

/-- On a list that is fit for it the loop does what it should. -/
theorem releaseMutexes_of_releasable (mc : Machine τ ω) (h : OwnedLists s W O) (hl : O t = l)
    (ht : ∀ m u, u ∈ W m → u ≠ t) (hrel : Releasable s l) (hf : l.length < fuel) :
    ∃ s', releaseMutexes mc fuel s l.head? = some s' ∧
      (∀ m ∈ l, (s'.mtx m).count = 0 ∨
        ∃ u, (s.mtx m).waiters = some u ∧ Owns s' u m ∧ (s'.thr u).state = .ready) ∧
      (∀ n, n ∉ l → (s'.mtx n).count = (s.mtx n).count ∧ (s'.mtx n).owner = (s.mtx n).owner ∧
        (s'.mtx n).waiters = (s.mtx n).waiters) ∧
      s'.wkp = s.wkp ∧ s'.queueNext = s.queueNext ∧
      ∃ W' O', OwnedLists s' W' O' ∧ ∀ m u, u ∈ W' m → u ∈ W m := by
  induction l generalizing s W O fuel with
  | nil =>
    obtain ⟨fuel, rfl⟩ := Nat.exists_eq_succ_of_ne_zero (Nat.ne_zero_of_lt hf)
    exact ⟨s, rfl, (fun m hm => nomatch hm), fun _ _ => ⟨rfl, rfl, rfl⟩, rfl, rfl, W, O, h,
      fun _ _ hu => hu⟩
  | cons m l ih =>
    obtain ⟨fuel, rfl⟩ := Nat.exists_eq_succ_of_ne_zero (Nat.ne_zero_of_lt hf)
    have hf : l.length < fuel := Nat.lt_of_succ_lt_succ hf
    have hm : m ∈ O t := by rw [hl]; exact List.mem_cons_self
    have hnd : m ∉ l := by
      have := h.rep.nodup_owned t
      rw [hl] at this
      exact (List.nodup_cons.mp this).1
    have hhead : (s.thr t).ownedMutexes = some m := by rw [h.owned_head, hl, List.head?_cons]
    obtain ⟨s₁, hs₁⟩ := mutexUnlockInternal_head mc ((h.owns t m).mp hm).2 hhead
    have hstep : releaseMutexes mc (fuel + 1) s (some m) =
        releaseMutexes mc fuel s₁ (s₁.ownedNext m) := by
      simp only [releaseMutexes, hs₁, Option.bind_eq_bind, Option.bind_some]
    obtain ⟨hfr, ⟨hWm, hc, hnext, h₁⟩ | ⟨w, r, hWm, how, hst, hnext, O', h₁, hO', -⟩⟩ :=
      mutexUnlockInternal_owned h hm hs₁
    · have hl₁ : Function.update O t ((O t).erase m) t = l := by
        rw [Function.update_self, hl, List.erase_cons_head]
      have hp : s₁.ownedNext m = l.head? := by
        have := h.rep.owned t
        rw [hl] at this
        rw [hnext]
        exact (this.2 : Intrusive.Linked s.ownedNext (s.ownedNext m) l).head_eq
      have hne : ∀ k ∈ l, k ≠ m := fun k hk he => hnd (he ▸ hk)
      have hrel₁ : Releasable s₁ l := by
        have hrel' : Releasable s l := by
          cases l with
          | nil => trivial
          | cons k l => exact hrel.2
        refine hrel'.congr (fun k hk => (hfr.waiters k (hne k hk)).symm) fun k hk u hu => ?_
        have hut : u ≠ t := ht k u (h₁.mem_waiters hu)
        rw [h₁.owned_head, h.owned_head, Function.update_of_ne hut]
      obtain ⟨s', hs', h1, h2, h3, h4, W', O', h5, h6⟩ := ih h₁ hl₁ ht hrel₁ hf
      refine ⟨s', by rw [List.head?_cons, hstep, hp, hs'], fun k hk => ?_, fun k hk => ?_,
        h3.trans hfr.wkp, h4.trans hfr.queueNext, W', O', h5, h6⟩
      · rcases List.mem_cons.mp hk with rfl | hk
        · exact .inl ((h2 k hnd).1.trans hc)
        · rw [← hfr.waiters k (hne k hk)]
          exact h1 k hk
      · have hkm : k ≠ m := fun he => hk (he ▸ List.mem_cons_self)
        obtain ⟨q1, q2, q3⟩ := h2 k fun hk' => hk (List.mem_cons_of_mem _ hk')
        exact ⟨q1.trans (hfr.count k hkm), q2.trans (hfr.owner k hkm),
          q3.trans (hfr.waiters k hkm)⟩
    · -- a mutex with a waiter is the last of the list
      have hws : (s.mtx m).waiters = some w := by
        rw [(h.rep.waiters m).head_eq, hWm, List.head?_cons]
      cases l with
      | cons k l =>
        have := hrel.1
        rw [hws] at this
        cases this
      | nil =>
        have hwt : w ≠ t := ht m w (by rw [hWm]; exact List.mem_cons_self)
        obtain ⟨fuel, rfl⟩ := Nat.exists_eq_succ_of_ne_zero (Nat.ne_zero_of_lt hf)
        have hp : s₁.ownedNext m = none := (hnext hwt).trans (hrel w hws)
        refine ⟨s₁, by rw [List.head?_cons, hstep, hp]; rfl, fun k hk => ?_, fun k hk => ?_,
          hfr.wkp, hfr.queueNext, _, O', h₁, fun k u hu => ?_⟩
        · rw [List.mem_singleton] at hk
          subst hk
          exact .inr ⟨w, hws, how, hst⟩
        · have hkm : k ≠ m := fun he => hk (he ▸ List.mem_cons_self)
          exact ⟨hfr.count k hkm, hfr.owner k hkm, hfr.waiters k hkm⟩
        · rw [Function.update_apply] at hu
          split at hu
          · rename_i hkm
            rw [hkm, hWm]
            exact List.mem_cons_of_mem _ hu
          · exact hu

/-! ## The whole function -/

/-- A thread that is not blocked on a mutex leaves its wakeup, and nothing else. -/
theorem leaveBlocker_spec {pc : τ → Pc μ ω} (h : Base mc s pc W O) (x : Option τ)
    (hm : ¬ ((s.thr t).state = .blocked ∧ (s.thr t).blockType = .mutex)) :
    ∃ s₁, leaveBlocker mc x s t = some s₁ ∧ s₁.thr = s.thr ∧ s₁.mtx = s.mtx ∧
      ∀ w, (s₁.wkp w).waiter = if (s.thr t).state = .blocked ∧ (s.thr t).blockType = .wakeup ∧
        (s.thr t).blockedBy = some (.wakeup w) then none else (s.wkp w).waiter := by
  unfold leaveBlocker
  by_cases hbl : (s.thr t).state = .blocked
  · rw [if_pos hbl]
    cases hbt : (s.thr t).blockType with
    | mutex => exact absurd ⟨hbl, hbt⟩ hm
    | wakeup =>
      obtain ⟨v, hv⟩ := h.wakes t hbt
      rw [hv]
      refine ⟨_, rfl, rfl, rfl, fun w => ?_⟩
      rw [Sched.modWakeup_wkp]
      by_cases hw : w = v
      · simp [hw, hbl]
      · simp [hw, hbl, Ne.symm hw]
    | _ => exact ⟨s, rfl, rfl, rfl, fun w => by simp⟩
  · exact ⟨s, if_neg hbl, rfl, rfl, fun w => by simp [hbl]⟩

theorem detach_spec {pc : τ → Pc μ ω} (h : Base mc s pc W O) (x : Option τ)
    (hm : ¬ ((s.thr t).state = .blocked ∧ (s.thr t).blockType = .mutex)) :
    ∃ s₀, detach mc x s t = some s₀ ∧ s₀.mtx = s.mtx ∧ s₀.queueNext = s.queueNext ∧
      OwnedLists s₀ W O ∧ ∀ w, (s₀.wkp w).waiter = if (s.thr t).state = .blocked ∧ (s.thr t).blockType = .wakeup ∧
        (s.thr t).blockedBy = some (.wakeup w) then none else (s.wkp w).waiter := by
  unfold detach
  by_cases hrun : (s.thr t).state = .running
  · refine ⟨s, if_pos hrun, rfl, rfl, ⟨h.rep, h.owns⟩, fun w => ?_⟩
    rw [hrun, if_neg (by simp)]
  · obtain ⟨s₁, hs₁, hthr, hmtx, hwkp⟩ := leaveBlocker_spec h x hm
    have hrep : Rep s₁ W O := h.rep.congr (fun u => by rw [hthr]) (fun u => by rw [hthr])
      (fun n => by rw [hmtx]) fun n => by rw [hmtx]
    refine ⟨s₁.modThread t fun x => { x with state := .suspended },
      by rw [if_neg hrun, hs₁, Option.map_some], hmtx, ?_,
      ⟨hrep.modThread t (fun _ => rfl) fun _ => rfl, fun u n => ?_⟩, hwkp⟩
    · funext u
      unfold Sched.queueNext
      rw [Sched.modThread_thr, hthr]
      split
      · rename_i hu; subst hu; rfl
      · rfl
    · rw [h.owns, Owns, Owns, Sched.modThread_mtx, hmtx]

/-- The loop in its place. -/
theorem threadTerminateInternal_eq {pc : τ → Pc μ ω} (h : Base mc s pc W O) (x : Option τ)
    (hm : ¬ ((s.thr t).state = .blocked ∧ (s.thr t).blockType = .mutex)) :
    ∃ s₀, s₀.mtx = s.mtx ∧ s₀.queueNext = s.queueNext ∧ OwnedLists s₀ W O ∧
      (∀ w, (s₀.wkp w).waiter = if (s.thr t).state = .blocked ∧ (s.thr t).blockType = .wakeup ∧
        (s.thr t).blockedBy = some (.wakeup w) then none else (s.wkp w).waiter) ∧
      threadTerminateInternal mc x s (some t) =
        (releaseMutexes mc (Fintype.card τ + Fintype.card μ + 1) s₀ (O t).head?).map fun s =>
          { s with threads := s.threads.take 1 ++ (s.threads.drop 1).erase t } := by
  obtain ⟨s₀, hs₀, hmtx, hq, hl, hwkp⟩ := detach_spec h x hm
  refine ⟨s₀, hmtx, hq, hl, hwkp, ?_⟩
  rw [← hl.owned_head]
  simp only [threadTerminateInternal, Option.getD_some, Option.bind_eq_bind, hs₀,
    Option.bind_some]
  cases releaseMutexes mc (Fintype.card τ + Fintype.card μ + 1) s₀ (s₀.thr t).ownedMutexes <;> rfl

theorem Base.not_waiter {pc : τ → Pc μ ω} (h : Base mc s pc W O)
    (hm : ¬ ((s.thr t).state = .blocked ∧ (s.thr t).blockType = .mutex)) (m : μ) (u : τ)
    (hu : u ∈ W m) : u ≠ t := by
  rintro rfl
  obtain ⟨h1, h2, -⟩ := (h.waits m u).mp hu
  exact hm ⟨h1, h2⟩

/-- The loop keeps the objects of the wakeups. -/
theorem releaseMutexes_wkp (h : OwnedLists s W O) (hp : ∀ m, p = some m → ∃ u, m ∈ O u)
    (hr : releaseMutexes mc fuel s p = some s') : s'.wkp = s.wkp := by
  induction fuel generalizing s W O p with
  | zero => cases hr
  | succ fuel ih =>
    cases p with
    | none => cases hr; rfl
    | some m =>
      obtain ⟨u, hu⟩ := hp m rfl
      simp only [releaseMutexes, Option.bind_eq_bind, Option.bind_eq_some_iff] at hr
      obtain ⟨s₁, hs₁, hr⟩ := hr
      obtain ⟨hf, ⟨-, -, hnext, hl⟩ | ⟨v, r, -, -, -, -, O', hl, -, hnext⟩⟩ :=
        mutexUnlockInternal_owned h hu hs₁
      · refine (ih hl (fun k hk => ⟨u, ?_⟩) hr).trans hf.wkp
        rw [hnext] at hk
        exact (h.mem_erase hu u k).mpr ((h.rep.owned u).mem_of_next hu hk)
      · exact (ih hl (fun k hk => ⟨v, hnext k hk⟩) hr).trans hf.wkp

theorem terminable_of_released {pc : τ → Pc μ ω} (h : Base mc s pc W O)
    (hall : ∀ x, ∃ s', threadTerminateInternal mc x s (some t) = some s' ∧ Released s s' t) :
    Terminable s t := by
  have hm : ¬ ((s.thr t).state = .blocked ∧ (s.thr t).blockType = .mutex) := by
    rintro ⟨h1, h2⟩
    -- the uninitialised pointer may be null
    obtain ⟨s', hs', -⟩ := hall none
    simp [threadTerminateInternal, detach, leaveBlocker, h1, h2] at hs'
  obtain ⟨s', hs', hrel⟩ := hall none
  obtain ⟨s₀, hmtx, hq, hl, hwkp, heq⟩ := threadTerminateInternal_eq h none hm
  rw [heq] at hs'
  obtain ⟨s₁, hs₁, rfl⟩ := Option.map_eq_some_iff.mp hs'
  have hown : ∀ u m, Owns s u m ↔ Owns s₀ u m := fun u m => by rw [Owns, Owns, hmtx]
  refine ⟨hm, fun w hw => ?_, fun l hl' => ?_⟩
  · have hkeep : s₁.wkp = s₀.wkp := releaseMutexes_wkp hl
      (fun k hk => ⟨t, List.mem_of_head? hk⟩) hs₁
    by_contra hne
    refine hrel.wakeups w ?_
    show (s₁.wkp w).waiter = some t
    rw [hkeep, hwkp, if_neg hne, hw]
  · have hlO : l = O t := hl'.unique (h.rep.owned t)
    rw [← hlO] at hs₁
    have hr₀ : Releasable s₀ l := by
      refine releasable_of_releaseMutexes hl hlO.symm (h.not_waiter hm) hs₁ (fun m hml => ?_)
        fun u m hu ho => ?_
      · rcases hrel.owned m ((h.owns t m).mp (hlO ▸ hml)) with hz | ⟨u, hu, ho, -⟩
        · exact .inl hz
        · exact .inr ⟨u, by rw [hmtx]; exact hu, ho⟩
      · have ho := (hown u m).mpr ho
        obtain ⟨h1, h2, -⟩ := hrel.others u m hu ho
        exact ⟨fun hz => ho.1 (h2.symm.trans hz), h1⟩
    refine hr₀.congr (fun m _ => by rw [hmtx]) fun m _ u _ => ?_
    rw [hl.owned_head, (h.rep.owned u).head_eq]

theorem released_of_terminable {pc : τ → Pc μ ω} (h : Base mc s pc W O) (hc : Terminable s t)
    (x : Option τ) :
    ∃ s', threadTerminateInternal mc x s (some t) = some s' ∧ Released s s' t := by
  obtain ⟨s₀, hmtx, hq, hl, hwkp, heq⟩ := threadTerminateInternal_eq h x hc.notMutex
  have hnot := h.not_waiter hc.notMutex
  have hown : ∀ u m, Owns s u m ↔ Owns s₀ u m := fun u m => by rw [Owns, Owns, hmtx]
  have hrel : Releasable s₀ (O t) :=
    (hc.owned _ (h.rep.owned t)).congr (fun m _ => by rw [hmtx]) fun m _ u _ => by
      rw [hl.owned_head, (h.rep.owned u).head_eq]
  obtain ⟨s₁, hs₁, h1, h2, h3, h4, W', O', h5, h6⟩ := releaseMutexes_of_releasable mc hl
    rfl hnot hrel (show (O t).length < Fintype.card τ + Fintype.card μ + 1 by
      have := h.rep.length_owned t; omega)
  refine ⟨_, by rw [heq, hs₁, Option.map_some], ⟨fun m ho => ?_, fun u m hu ho => ?_,
    fun m l hml hmem => ?_, fun w hw => ?_⟩⟩
  · rcases h1 m ((h.owns t m).mpr ho) with hz | ⟨u, hu, ho', hst⟩
    · exact .inl hz
    · exact .inr ⟨u, by rw [← hmtx]; exact hu, ho', hst⟩
  · have hmt : m ∉ O t := fun hmt => by
      have := ((h.owns t m).mp hmt).2
      rw [ho.2] at this
      cases this
      exact hu rfl
    obtain ⟨q1, q2, q3⟩ := h2 m hmt
    refine ⟨?_, ?_, fun l hml => ?_⟩
    · show (s₁.mtx m).owner = _
      rw [q2, hmtx]; exact ho.2
    · show (s₁.mtx m).count = _
      rw [q1, hmtx]
    · have hlW : l = W m := hml.unique (h.rep.waiters m)
      have hfil : l.filter (· ≠ t) = l := List.filter_eq_self.mpr fun u hu => by
        simpa using hnot m u (hlW ▸ hu)
      rw [hfil]
      show Intrusive.Linked s₁.queueNext (s₁.mtx m).waiters l
      rw [h4, hq, q3, hmtx]
      exact hml
  · have hlW : l = W' m := hml.unique (h5.rep.waiters m)
    exact hnot m t (h6 m t (hlW ▸ hmem)) rfl
  · have hw : (s₁.wkp w).waiter = some t := hw
    rw [h3, hwkp] at hw
    split at hw
    · cases hw
    · rename_i hne
      exact hne (hc.wakeup w hw)

/-- Terminating a thread leaves the mutexes and wakeups as it should, whatever the uninitialised
variable holds, exactly if the thread is not blocked on a mutex, no wakeup refers to it but the
one it is blocked on, and its mutexes are fit for the loop that releases them. -/
theorem threadTerminate_iff {z₀ z : Sys τ μ ω} {es : List (Entry τ μ ω)} (h₀ : Initial mc z₀)
    (hr : Lts.Runs (step mc) (fun _ _ => True) z₀ es z) (thread : τ) :
    (∀ t, ∃ s', threadTerminateInternal mc t z.sched (some thread) = some s' ∧
      Released z.sched s' thread) ↔ Terminable z.sched thread := by
  obtain ⟨W, O, hi⟩ := inv_reachable h₀ hr
  exact ⟨terminable_of_released hi.base, released_of_terminable hi.base⟩

/-! ## Runs of three threads -/

/-- Terminating the owner of a mutex hands it to the thread that waits for it. -/
theorem threadTerminate_contend : ∃ z,
    Lts.exec (step bench) (booted bench [.idle, .first, .second]) contend = some z ∧ Owns z.sched .first () ∧
      BlockedOn z.sched .second () ∧ ∃ s', threadTerminateInternal bench none z.sched (some .first) = some s' ∧
        Released z.sched s' .first := by
  have hex : (Lts.exec (step bench) (booted bench [.idle, .first, .second]) contend).any (fun z =>
      decide ((z.sched.mtx ()).count = 1) && decide ((z.sched.mtx ()).owner = some .first) &&
      decide (BlockedOn z.sched .second ()) && decide ((z.sched.thr .first).state = .running) &&
      decide ((z.sched.wkp ()).waiter = none) &&
      decide ((z.sched.thr .first).ownedMutexes = some ()) &&
      decide ((z.sched.mtx ()).ownedNext = none) && decide ((z.sched.mtx ()).waiters = some .second) &&
      decide ((z.sched.thr .second).ownedMutexes = none)) = true := by decide +kernel
  obtain ⟨z, hz, hb⟩ := Option.any_eq_true _ _ |>.mp hex
  simp only [Bool.and_eq_true, decide_eq_true_eq] at hb
  obtain ⟨⟨⟨⟨⟨⟨⟨⟨h1, h2⟩, h3⟩, h4⟩, h5⟩, h6⟩, h7⟩, h8⟩, h9⟩ := hb
  obtain ⟨es, -, hr⟩ := Lts.exec_runs hz
  refine ⟨z, hz, ⟨by rw [h1]; decide, h2⟩, h3,
    (threadTerminate_iff (booted_initial bench _) hr .first).mpr ⟨?_, fun w hw => ?_, fun l hl => ?_⟩ _⟩
  · rintro ⟨hst, -⟩
    rw [h4] at hst
    cases hst
  · rw [h5] at hw
    cases hw
  · have hl' : l = [()] := hl.unique ⟨h6, h7⟩
    rw [hl']
    intro w hw
    rw [h8] at hw
    cases hw
    exact h9

/-- Each of two threads locks a mutex, and the second one waits for that of the first. -/
def chain : List (Action Trio Bool Unit) :=
  [.irq .timer, .call (.mutexLock false timeoutBlock), .call .yield, .run,
    .call (.mutexLock true timeoutBlock), .call (.mutexLock false timeoutBlock), .run]

/-- Terminating the first thread frees the mutex of the second. -/
theorem threadTerminate_frees_other : ∃ z,
    Lts.exec (step bench) (booted bench [.idle, .first, .second]) chain = some z ∧ Owns z.sched .second true ∧
      ∀ t s', threadTerminateInternal bench t z.sched (some .first) = some s' →
        ¬ Released z.sched s' .first := by
  have hex : (Lts.exec (step bench) (booted bench [.idle, .first, .second]) chain).any (fun z =>
      decide ((z.sched.mtx true).count = 1) && decide ((z.sched.mtx true).owner = some .second) &&
      decide (∀ t : Option Trio,
        (threadTerminateInternal bench t z.sched (some .first)).all fun s' =>
          (s'.mtx true).count = 0)) = true := by decide +kernel
  obtain ⟨z, hz, hb⟩ := Option.any_eq_true _ _ |>.mp hex
  simp only [Bool.and_eq_true, decide_eq_true_eq] at hb
  obtain ⟨⟨h1, h2⟩, h3⟩ := hb
  have how : Owns z.sched .second true := ⟨by rw [h1]; decide, h2⟩
  refine ⟨z, hz, how, fun t s' hs' hrel => ?_⟩
  have hfree := h3 t
  rw [hs', Option.all_some, decide_eq_true_eq] at hfree
  obtain ⟨-, hc, -⟩ := hrel.others .second true (by decide) how
  rw [hfree, h1] at hc
  cases hc

end Thread
end Freemyipod
