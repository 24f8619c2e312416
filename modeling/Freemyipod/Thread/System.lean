import Freemyipod.Lib.Runs
import Freemyipod.Thread.Model

/-!
# Thread.System

The scheduler as a transition system. Besides the scheduler's memory a state has, for every
thread, the point in the code it has reached: outside the functions of `thread.c`, about to
yield, or in the part of `mutex_lock` or `wakeup_wait` behind the yield.

* `Action.call`: the running thread enters a function of `thread.c` and runs to the end of its
  critical section. The idle thread only idles.
* `Action.run`: the running thread takes the next step of the call it is in. The four accesses
  behind the yield of `wakeup_wait` are outside of any critical section; each is a step.
* `Action.irq`: an interrupt handler runs, between any two steps.
* `Action.elapse`: `USEC_TIMER` moves on.
-/

namespace Freemyipod
namespace Thread

/-- What a thread does next when a yield returns. -/
inductive After (μ ω : Type) where
  | user
  | lockTest (m : μ)
  | waitClear (w : ω)
  deriving DecidableEq, Repr

/-- Where a thread stands. -/
inductive Pc (μ ω : Type) where
  | user
  | yield (after : After μ ω)
  | lockTest (m : μ)
  | waitClear (w : ω)
  | waitTest (w : ω)
  | waitReset (w : ω)
  deriving DecidableEq, Repr

def After.pc {μ ω : Type} : After μ ω → Pc μ ω
  | .user => .user
  | .lockTest m => .lockTest m
  | .waitClear w => .waitClear w

/-- The functions a thread may call. -/
inductive Call (τ μ ω : Type) where
  | mutexLock (m : μ) (timeout : U32)
  | mutexUnlock (m : μ)
  | wakeupWait (w : ω) (timeout : U32)
  | wakeupSignal (w : ω)
  | sleep (usecs : U32)
  | yield
  | threadSuspend (t : Option τ)
  | threadResume (t : Option τ)
  | threadSetPriority (t : Option τ) (priority : BitVec 8)
  deriving DecidableEq, Repr

/-- What interrupt handlers do: drivers signal wakeups, the timer switches threads, and the USB
monitor suspends, resumes and freezes. -/
inductive Irq (τ ω : Type) where
  | wakeupSignal (w : ω)
  | timer
  | threadSuspend (t : Option τ)
  | threadResume (t : Option τ)
  | freeze (value : Bool)
  deriving DecidableEq, Repr

inductive Action (τ μ ω : Type) where
  | call (c : Call τ μ ω)
  | run
  | irq (i : Irq τ ω)
  | elapse (usec : U32)
  deriving DecidableEq, Repr

/-- What a step gives back: nothing yet, or the result of a call that ends in this step. -/
inductive Out (μ ω : Type) where
  | none
  | lock (m : μ) (code : Int)
  | wait (w : ω) (code : Int)
  | other (code : Int)
  deriving DecidableEq, Repr

structure Sys (τ μ ω : Type) where
  sched : Sched τ μ ω
  pc : τ → Pc μ ω

section

variable {τ μ ω : Type} [DecidableEq τ] [DecidableEq μ] [DecidableEq ω] [Fintype τ] [Fintype μ]

namespace Sys

/-- The running thread reaches `p` in the scheduler state `s`. -/
@[grind =] def goto (z : Sys τ μ ω) (s : Sched τ μ ω) (p : Pc μ ω) : Sys τ μ ω :=
  ⟨s, Function.update z.pc z.sched.currentThread p⟩

end Sys

/-- A call by the running thread, up to the end of its critical section. -/
@[grind =] def stepCall (mc : Machine τ ω) (z : Sys τ μ ω) :
    Call τ μ ω → Option (Sys τ μ ω × Out μ ω)
  | .mutexLock m timeout => do
    match ← mutexLock z.sched m timeout with
    | (s, .ret code) => some (z.goto s .user, .lock m code)
    | (s, .yield) => some (z.goto s (.yield (.lockTest m)), .none)
  | .mutexUnlock m => do
    let (s, code) ← mutexUnlock mc z.sched m
    some (z.goto s .user, .other code)
  | .wakeupWait w timeout => do
    match ← wakeupWait z.sched w timeout with
    | (s, .ret code) => some (z.goto s .user, .wait w code)
    | (s, .yield) => some (z.goto s (.yield (.waitClear w)), .none)
  | .wakeupSignal w => do
    let (s, code) ← wakeupSignal mc z.sched w
    some (z.goto s .user, .other code)
  | .sleep usecs => some (z.goto (sleep z.sched usecs) (.yield .user), .none)
  | .yield => some (z.goto z.sched (.yield .user), .none)
  | .threadSuspend t => do
    let (s, code, needsswitch) ← threadSuspend mc z.sched t
    if needsswitch then some (z.goto s (.yield .user), .none)
    else some (z.goto s .user, .other code)
  | .threadResume t => do
    let (s, code) ← threadResume z.sched t
    some (z.goto s .user, .other code)
  | .threadSetPriority t p => some (z.goto (threadSetPriority z.sched t p) .user, .none)

/-- The next step of the call the running thread is in. -/
def stepRun (mc : Machine τ ω) (z : Sys τ μ ω) : Option (Sys τ μ ω × Out μ ω) :=
  match z.pc z.sched.currentThread with
  | .user => none
  | .yield p => do
    let s ← yield mc z.sched
    some (z.goto s p.pc, .none)
  | .lockTest m => some (z.goto z.sched .user, .lock m (mutexLockResumed z.sched m))
  | .waitClear w =>
    some (z.goto (z.sched.modWakeup w fun o => { o with waiter := none }) (.waitTest w), .none)
  | .waitTest w =>
    if (z.sched.wkp w).signalled then some (z.goto z.sched (.waitReset w), .none)
    else some (z.goto z.sched .user, .wait w threadTimeout)
  | .waitReset w =>
    some (z.goto (z.sched.modWakeup w fun o => { o with signalled := false }) .user,
      .wait w threadOk)

/-- What an interrupt handler does to the scheduler. Suspending the thread that was interrupted
yields inside the handler. -/
def irqHandler (mc : Machine τ ω) (s : Sched τ μ ω) : Irq τ ω → Option (Sched τ μ ω)
  | .wakeupSignal w => do
    let (s, _) ← wakeupSignal mc s w
    some s
  | .timer => schedulerSwitch mc s none none
  | .threadSuspend t => do
    let (s, _, needsswitch) ← threadSuspend mc s t
    if needsswitch then
      schedulerSwitch mc (schedulerPauseAccounting s) none (some s.currentThread)
    else some s
  | .threadResume t => do
    let (s, _) ← threadResume s t
    some s
  | .freeze value => schedulerSwitch mc { s with schedulerFrozen := value } none none

/-- `irq_handler` stops the running thread's accounting and resumes it for whichever thread runs
afterwards. -/
def stepIrq (mc : Machine τ ω) (z : Sys τ μ ω) (i : Irq τ ω) :
    Option (Sys τ μ ω × Out μ ω) := do
  let s ← irqHandler mc (schedulerPauseAccounting z.sched) i
  some (⟨schedulerResumeAccounting s, z.pc⟩, .none)

def step (mc : Machine τ ω) (z : Sys τ μ ω) : Action τ μ ω → Option (Sys τ μ ω × Out μ ω)
  | .call c =>
    if z.pc z.sched.currentThread = .user ∧ z.sched.currentThread ≠ mc.idleThread then
      stepCall mc z c
    else none
  | .run => stepRun mc z
  | .irq i => stepIrq mc z i
  | .elapse usec => some (⟨{ z.sched with usecTimer := usec }, z.pc⟩, .none)

/-- The state `scheduler_init` and the creation of the threads leave, with the idle thread
running and every mutex and wakeup as `mutex_init` and `wakeup_init` leave them. -/
structure Initial (mc : Machine τ ω) (z : Sys τ μ ω) : Prop where
  current : z.sched.currentThread = mc.idleThread
  idle : (z.sched.thr mc.idleThread).state = .running
  state : ∀ t, t ≠ mc.idleThread →
    (z.sched.thr t).state = .ready ∨ (z.sched.thr t).state = .suspended ∨
      (z.sched.thr t).state = .free
  notBlocked : ∀ t, (z.sched.thr t).blockType = .notBlocked
  owned : ∀ t, (z.sched.thr t).ownedMutexes = none
  stack : ∀ t, (z.sched.thr t).stack ≠ .overwritten
  mutexes : ∀ m, z.sched.mtx m = {}
  wakeups : ∀ w, z.sched.wkp w = {}
  pc : ∀ t, z.pc t = .user

/-- The idle thread runs, and the other threads are ready to run with priority 1. -/
def booted (mc : Machine τ ω) (threads : List τ) : Sys τ μ ω where
  sched :=
    { threads := threads
      thr := fun t =>
        if t = mc.idleThread then { state := .running, type := .core, stack := .noStack }
        else { state := .ready, priority := 1 }
      mtx := fun _ => {}
      wkp := fun _ => {}
      currentThread := mc.idleThread
      lastTick := 0
      schedulerFrozen := false
      timer := none
      usecTimer := 0 }
  pc := fun _ => .user

omit [DecidableEq μ] [DecidableEq ω] [Fintype τ] [Fintype μ] in
theorem booted_initial (mc : Machine τ ω) (threads : List τ) :
    Initial mc (booted mc threads : Sys τ μ ω) where
  current := rfl
  idle := by simp [booted]
  state t ht := by simp [booted, ht]
  notBlocked t := by simp only [booted]; split <;> rfl
  owned t := by simp only [booted]; split <;> rfl
  stack t := by simp only [booted]; split <;> simp
  mutexes _ := rfl
  wakeups _ := rfl
  pc _ := rfl

end

end Thread
end Freemyipod
