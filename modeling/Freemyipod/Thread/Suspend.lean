import Freemyipod.Thread.Mutex

/-!
# Thread.Suspend

`thread_suspend` and `thread_resume` over whole runs.

A suspended thread stays suspended until it is resumed, and then goes on waiting for what it
waited for and as long as was left. This fails in five cases, which `Resumable` excludes:
`wakeup_signal` readies a waiter whether it is suspended or not; `thread_resume` forgets the
state of a sleeping thread; the time that is left of a timeout may happen to be the number that
means no timeout; the idle thread runs whatever its state; and a thread that is `READY` while it
still runs goes on running when it is suspended.
-/

set_option linter.unusedSectionVars false

namespace Freemyipod
namespace Thread

section Defs

variable {τ μ ω : Type}

/-- What is left of the timeout of a blocked thread, a negative number once it has elapsed. -/
def remaining (s : Sched τ μ ω) (t : τ) : U32 :=
  (s.thr t).blockedSince + (s.thr t).timeout - s.usecTimer

/-- What must hold of a step for the suspension of `t` to work as intended. -/
structure Resumable (mc : Machine τ ω) (t : τ) (z : Sys τ μ ω) (a : Action τ μ ω) : Prop where
  notIdle : t ≠ mc.idleThread
  signal : ∀ w, a.signals = some w → (z.sched.wkp w).waiter = some t →
    (z.sched.thr t).state ≠ .suspended
  sleep : a.resumes z.sched.currentThread = some t → (z.sched.thr t).state = .suspended →
    (z.sched.thr t).blockType ≠ .sleep
  wrap : a.suspends z.sched.currentThread = some t → (z.sched.thr t).state = .blocked →
    (z.sched.thr t).timeout ≠ timeoutBlock →
    z.sched.usecTimer - (z.sched.thr t).blockedSince ≠ (z.sched.thr t).timeout + 1
  running : a.suspends z.sched.currentThread = some t → t = z.sched.currentThread →
    (z.sched.thr t).state = .running ∨ ∃ p, z.pc t = .yield p

/-- The resumed thread waits again as it did in `s`, where it was blocked. -/
structure WaitsAgain (t : τ) (s s' : Sched τ μ ω) : Prop where
  state : (s'.thr t).state = .blocked
  blockType : (s'.thr t).blockType = (s.thr t).blockType
  blockedBy : (s'.thr t).blockedBy = (s.thr t).blockedBy
  endless : (s'.thr t).timeout = timeoutBlock ↔ (s.thr t).timeout = timeoutBlock
  remaining : (s.thr t).timeout ≠ timeoutBlock → remaining s' t = remaining s t
  elapsed : (s.thr t).timeout ≠ timeoutBlock →
    timeAfter s'.usecTimer ((s'.thr t).blockedSince + (s'.thr t).timeout) =
      timeAfter s.usecTimer ((s.thr t).blockedSince + (s.thr t).timeout)

/-- What holds of `t` from the step that suspended it, in the state `s`, to the step that resumes
it. -/
structure Held (mc : Machine τ ω) (s : Sched τ μ ω) (t : τ) (z : Sys τ μ ω) : Prop where
  inv : ∃ W O, Inv mc z W O
  away : Away z t
  stopped : Stopped s.usecTimer (s.thr t) (z.sched.thr t)

end Defs

variable {τ μ ω : Type} [DecidableEq τ] [DecidableEq μ] [DecidableEq ω] [Fintype τ] [Fintype μ]
  {mc : Machine τ ω} {z z₀ z₁ z₂ z₃ z₄ z' : Sys τ μ ω} {W : μ → List τ} {O : τ → List μ}
  {t : τ} {a b : Action τ μ ω} {o p : Out μ ω}

/-- A step that does not resume a suspended thread leaves it alone. -/
theorem Held.step {s : Sched τ μ ω} (h : Held mc s t z) (hok : Resumable mc t z a)
    (hr : step mc z a = some (z', o)) (hres : a.resumes z.sched.currentThread ≠ some t) :
    Held mc s t z' := by
  obtain ⟨W, O, hi⟩ := h.inv
  have hf := step_facts hi hr
  have hst := h.stopped.state
  have hk := hf.suspended t hst hok.notIdle (fun hc => h.away hc hst) hres
    fun w hs hw => hok.signal w hs hw hst
  exact ⟨hf.inv, hf.away t h.away hok.running, h.stopped.kept hk⟩

/-- Over the time a thread is suspended, the time that is left does not change. -/
theorem remaining_of_stopped {usec usec' : U32} {x y y' : SchedulerThread τ μ ω}
    (h : Stopped usec x y) (h' : Resumed usec' y y') (hst : x.state = .blocked)
    (hto : x.timeout ≠ timeoutBlock) (hb : x.blockType ≠ .notBlocked) :
    y'.blockedSince + y'.timeout - usec' = x.blockedSince + x.timeout - usec := by
  have h1 : y'.blockedSince = usec' := h'.blockedSince (by rwa [h.blockType])
  have h2 : y'.timeout = x.timeout - (usec - x.blockedSince) := by
    rw [h'.timeout, h.timeout, if_pos ⟨hst, hto⟩]
  rw [h1, h2]
  bv_omega

theorem Resumable.of_none (ht : t ≠ mc.idleThread) (hs : a.signals = none)
    (hsu : a.suspends z.sched.currentThread = none)
    (hre : a.resumes z.sched.currentThread = none) : Resumable mc t z a where
  notIdle := ht
  signal w h := by rw [hs] at h; cases h
  sleep h := by rw [hre] at h; cases h
  wrap h := by rw [hsu] at h; cases h
  running h := by rw [hsu] at h; cases h

/-- The second thread waits for the mutex of the first for at most 1000 microseconds, 600 of which pass. -/
def waitAWhile : List (Action Trio Unit Unit) :=
  [.irq .timer, .call (.mutexLock () timeoutBlock), .call .yield, .run,
    .call (.mutexLock () 1000), .run, .elapse 600]

/-- The second thread waits for a wakeup, and the first one suspends it. -/
def suspendWaiter : List (Action Trio Unit Unit) :=
  [.irq .timer, .call .yield, .run, .call (.wakeupWait () timeoutBlock), .run,
    .call (.threadSuspend (some .second))]

end Thread
end Freemyipod
