import Mathlib
import Freemyipod.Lib.Intrusive

/-!
# Thread.Model

The scheduler of `emcore/thread.c`: threads, mutexes, wakeups and the functions on them, each a
function of the whole scheduler state. `τ`, `μ` and `ω` are the addresses of thread, mutex and
wakeup structures; a null pointer is `none`.

Each critical section is one function. A function that leaves its critical section to `yield`
says so in its result, and what it does after the yield is in `System.lean`. A result `none`
means that the C code has none: it reads through a null or mistyped pointer, or loops for ever.
-/

namespace Freemyipod
namespace Thread

abbrev U32 := BitVec 32

/-- `enum thread_state` -/
inductive ThreadState where
  | free | suspended | ready | running | blocked | defunct | defunctAck
  deriving DecidableEq, Repr

/-- `enum thread_block` -/
inductive ThreadBlock where
  | notBlocked | sleep | mutex | wakeup | defunctStkov | defunctPanic
  deriving DecidableEq, Repr

/-- `enum thread_type` -/
inductive ThreadType where
  | user | os | core
  deriving DecidableEq, Repr

/-- What `stack` says about the guard word at the stack's end: there is no stack (`-1`, the idle
thread), the word is still `0xaffebeaf`, or it was overwritten. -/
inductive StackGuard where
  | noStack | intact | overwritten
  deriving DecidableEq, Repr

/-- What a `void* blocked_by` points to. -/
inductive Blocker (μ ω : Type) where
  | mutex (m : μ)
  | wakeup (w : ω)
  deriving DecidableEq, Repr

/-- `struct scheduler_thread`, without the saved registers. -/
structure SchedulerThread (τ μ ω : Type) where
  state : ThreadState := .free
  cputimeCurrent : U32 := 0
  cputimeTotal : BitVec 64 := 0
  startusec : U32 := 0
  queueNext : Option τ := none
  ownedMutexes : Option μ := none
  timeout : U32 := 0
  blockedSince : U32 := 0
  blockedBy : Option (Blocker μ ω) := none
  stack : StackGuard := .intact
  blockType : ThreadBlock := .notBlocked
  type : ThreadType := .user
  priority : BitVec 8 := 0
  cpuload : BitVec 8 := 0

/-- `struct mutex`. The recursion count stays far below the range of an `int`. -/
structure Mutex (τ μ : Type) where
  owner : Option τ := none
  waiters : Option τ := none
  ownedNext : Option μ := none
  count : Nat := 0

/-- `struct wakeup` -/
structure Wakeup (τ : Type) where
  waiter : Option τ := none
  signalled : Bool := false

/-- What does not change: the address of `idle_thread` and of `dbgwakeup`, and whether the words
at the null pointer's `queue_next` and `owned_next` are null. -/
structure Machine (τ ω : Type) where
  idleThread : τ
  dbgwakeup : ω
  nullQueueNextEnds : Bool
  nullOwnedNextEnds : Bool

/-- The memory of the scheduler. `threads` is the list from `head_thread` along `thread_next`,
`timer` what the wakeup timer was last set to. -/
structure Sched (τ μ ω : Type) where
  threads : List τ
  thr : τ → SchedulerThread τ μ ω
  mtx : μ → Mutex τ μ
  wkp : ω → Wakeup τ
  currentThread : τ
  lastTick : U32
  schedulerFrozen : Bool
  timer : Option U32
  usecTimer : U32

def threadOk : Int := 0
def threadFound : Int := 1
def threadTimeout : Int := -1
def alreadySuspended : Int := -4
def alreadyResumed : Int := -5

/-- `TIMEOUT_BLOCK`, the timeout that never ends. -/
def timeoutBlock : U32 := -1

/-- `SCHEDULER_TICK` and `SYSTEM_TICK` of `configmagic.h`. -/
def schedulerTick : U32 := 1048576
def systemTick : U32 := 10000

/-- `TIME_AFTER(a, b)`: the signed difference `b - a` is negative. -/
def timeAfter (a b : U32) : Bool := (b - a).msb

section Fields

variable {τ μ ω : Type} [DecidableEq τ] [DecidableEq μ] [DecidableEq ω]

namespace Sched

def modThread (s : Sched τ μ ω) (t : τ)
    (f : SchedulerThread τ μ ω → SchedulerThread τ μ ω) : Sched τ μ ω :=
  { s with thr := Function.update s.thr t (f (s.thr t)) }

def modMutex (s : Sched τ μ ω) (m : μ) (f : Mutex τ μ → Mutex τ μ) : Sched τ μ ω :=
  { s with mtx := Function.update s.mtx m (f (s.mtx m)) }

def modWakeup (s : Sched τ μ ω) (w : ω) (f : Wakeup τ → Wakeup τ) : Sched τ μ ω :=
  { s with wkp := Function.update s.wkp w (f (s.wkp w)) }

def queueNext (s : Sched τ μ ω) (t : τ) : Option τ := (s.thr t).queueNext

def setQueueNext (s : Sched τ μ ω) (next : τ → Option τ) : Sched τ μ ω :=
  { s with thr := fun t => { s.thr t with queueNext := next t } }

def ownedNext (s : Sched τ μ ω) (m : μ) : Option μ := (s.mtx m).ownedNext

def setOwnedNext (s : Sched τ μ ω) (next : μ → Option μ) : Sched τ μ ω :=
  { s with mtx := fun m => { s.mtx m with ownedNext := next m } }

/-- `state = THREAD_READY; block_type = THREAD_NOT_BLOCKED; blocked_by = NULL; timeout = 0;` -/
def unblock (s : Sched τ μ ω) (t : τ) : Sched τ μ ω :=
  s.modThread t fun x =>
    { x with state := .ready, blockType := .notBlocked, blockedBy := none, timeout := 0 }

end Sched
end Fields

section Mutex

variable {τ μ ω : Type} [DecidableEq τ] [DecidableEq μ] [DecidableEq ω] [Fintype τ] [Fintype μ]

/-- `mutex_add_to_queue`: behind the waiters of higher priority. -/
def mutexAddToQueue (s : Sched τ μ ω) (obj : μ) (thread : τ) : Option (Sched τ μ ω) := do
  let (next, head) ← Intrusive.insert (fun t => (s.thr t).priority.toNat) thread
    (Fintype.card τ) s.queueNext (s.mtx obj).waiters
  some ((s.setQueueNext next).modMutex obj fun o => { o with waiters := head })

/-- `mutex_remove_from_queue` -/
def mutexRemoveFromQueue (mc : Machine τ ω) (s : Sched τ μ ω) (obj : μ) (thread : τ) :
    Option (Sched τ μ ω) := do
  let (next, head) ← Intrusive.unlink mc.nullQueueNextEnds thread (Fintype.card τ) s.queueNext
    (s.mtx obj).waiters
  some ((s.setQueueNext next).modMutex obj fun o => { o with waiters := head })

/-- `(struct mutex*)t->blocked_by` followed into the queue of that mutex. -/
def removeFromBlocker (mc : Machine τ ω) (s : Sched τ μ ω) (blocker : Option (Blocker μ ω))
    (thread : τ) : Option (Sched τ μ ω) :=
  match blocker with
  | some (.mutex m) => mutexRemoveFromQueue mc s m thread
  | _ => none

/-- How a function with a wait in it leaves its critical section. -/
inductive Leave where
  | ret (code : Int)
  | yield
  deriving DecidableEq, Repr

/-- The `current_thread` fields that every wait sets. -/
def Sched.block (s : Sched τ μ ω) (type : ThreadBlock) (by_ : Option (Blocker μ ω))
    (timeout : U32) : Sched τ μ ω :=
  s.modThread s.currentThread fun x =>
    { x with
      state := .blocked
      blockType := type
      blockedBy := by_
      timeout := timeout
      blockedSince := s.usecTimer }

/-- `mutex_lock` up to the end of its critical section. -/
def mutexLock (s : Sched τ μ ω) (obj : μ) (timeout : U32) : Option (Sched τ μ ω × Leave) :=
  let cur := s.currentThread
  if (s.mtx obj).count = 0 then
    let s' := s.modMutex obj fun o =>
      { o with count := 1, owner := some cur, ownedNext := (s.thr cur).ownedMutexes }
    some (s'.modThread cur fun x => { x with ownedMutexes := some obj }, .ret threadOk)
  else if (s.mtx obj).owner = some cur then
    some (s.modMutex obj fun o => { o with count := o.count + 1 }, .ret threadOk)
  else if timeout ≠ 0 then do
    let s' ← mutexAddToQueue (s.block .mutex (some (.mutex obj)) timeout) obj cur
    some (s', .yield)
  else some (s, .ret threadTimeout)

/-- `mutex_lock` after the yield. -/
def mutexLockResumed (s : Sched τ μ ω) (obj : μ) : Int :=
  if (s.mtx obj).owner ≠ some s.currentThread then threadTimeout else threadOk

/-- The second half of `mutex_unlock_internal`: hand the mutex to its first waiter, or free it. -/
def handOver (s : Sched τ μ ω) (obj : μ) : Sched τ μ ω :=
  match (s.mtx obj).waiters with
  | some w =>
    let s := s.modMutex obj fun o => { o with count := 1, owner := some w }
    let s := s.unblock w
    let s := s.modMutex obj fun o =>
      { o with waiters := (s.thr w).queueNext, ownedNext := (s.thr w).ownedMutexes }
    s.modThread w fun x => { x with ownedMutexes := some obj }
  | none => s.modMutex obj fun o => { o with count := 0 }

/-- `mutex_unlock_internal` -/
def mutexUnlockInternal (mc : Machine τ ω) (s : Sched τ μ ω) (obj : μ) :
    Option (Sched τ μ ω) := do
  let owner ← (s.mtx obj).owner
  if (s.thr owner).ownedMutexes = none then some s
  else do
    let (next, head) ← Intrusive.unlink mc.nullOwnedNextEnds obj (Fintype.card μ) s.ownedNext
      (s.thr owner).ownedMutexes
    some (handOver ((s.setOwnedNext next).modThread owner fun x =>
      { x with ownedMutexes := head }) obj)

/-- `mutex_unlock`. Unlocking a mutex the caller does not own ends in a panic that kills the
caller, which is no result of this function. -/
def mutexUnlock (mc : Machine τ ω) (s : Sched τ μ ω) (obj : μ) : Option (Sched τ μ ω × Int) :=
  if (s.mtx obj).count = 0 then none
  else if (s.mtx obj).owner ≠ some s.currentThread then none
  else
    let s' := s.modMutex obj fun o => { o with count := o.count - 1 }
    if (s'.mtx obj).count ≠ 0 then some (s', (s'.mtx obj).count)
    else do
      let s'' ← mutexUnlockInternal mc s' obj
      some (s'', threadOk)

end Mutex

section Switch

variable {τ μ ω : Type} [DecidableEq τ] [DecidableEq μ] [DecidableEq ω] [Fintype τ] [Fintype μ]

/-- The stack check of `scheduler_switch`. The thread that overran its stack is not the idle
thread, which has none, so that `wakeup_signal` switches no thread here. -/
def stackCheck (mc : Machine τ ω) (s : Sched τ μ ω) : Sched τ μ ω :=
  if (s.thr s.currentThread).stack = .overwritten then
    let s := s.threads.foldl (fun s t =>
      if (s.thr t).type = .user then s.modThread t fun x => { x with state := .suspended } else s) s
    let s := s.modThread s.currentThread fun x =>
      { x with state := .defunct, blockType := .defunctStkov }
    let s := s.modWakeup mc.dbgwakeup fun w => { w with signalled := true }
    match (s.wkp mc.dbgwakeup).waiter with
    | some t => s.unblock t
    | none => s
  else s

/-- The load accounting of `scheduler_switch`, once in every `SCHEDULER_TICK`. -/
def loadAccounting (s : Sched τ μ ω) : Sched τ μ ω :=
  if s.usecTimer - s.lastTick > schedulerTick then
    let diff := s.usecTimer - s.lastTick
    let s := { s with lastTick := s.usecTimer }
    s.threads.foldl (fun s t => s.modThread t fun x =>
      { x with cpuload := (255 * x.cputimeCurrent / diff).setWidth 8, cputimeCurrent := 0 }) s
  else s

/-- One round of the loop that ends timeouts; the second component is `next_unblock`. -/
def expire (mc : Machine τ ω) (acc : Sched τ μ ω × U32) (t : τ) : Option (Sched τ μ ω × U32) :=
  let (s, nextUnblock) := acc
  let x := s.thr t
  if x.state = .blocked ∧ x.timeout ≠ timeoutBlock
      ∧ timeAfter s.usecTimer (x.blockedSince + x.timeout) = true then
    (if x.blockType = .mutex then removeFromBlocker mc s x.blockedBy t else some s).map fun s =>
      (s.unblock t, nextUnblock)
  else if x.state = .blocked ∧ x.timeout ≠ timeoutBlock then
    let left := x.blockedSince + x.timeout - s.usecTimer
    some (s, if left < nextUnblock then left else nextUnblock)
  else some (s, nextUnblock)

/-- One round of the loop that picks the ready thread of least score. -/
def pick (s : Sched τ μ ω) (block : Option τ) (acc : τ × U32) (t : τ) : τ × U32 :=
  let x := s.thr t
  if x.state = .ready ∧ x.priority ≠ 0 then
    let score : U32 :=
      if some t = block then 0xfffffffe else x.cputimeCurrent / x.priority.setWidth 32
    if score < acc.2 then (t, score) else acc
  else acc

/-- Which thread runs next: the one asked for if it is ready, else the best one. -/
def choose (mc : Machine τ ω) (s : Sched τ μ ω) (thread block : Option τ) : τ :=
  match thread with
  | some t =>
    if (s.thr t).state = .ready then t
    else (s.threads.foldl (pick s block) (mc.idleThread, 0xffffffff)).1
  | none => (s.threads.foldl (pick s block) (mc.idleThread, 0xffffffff)).1

/-- The second part of `scheduler_switch`: timeouts end, the next thread is chosen and the timer
set. A frozen scheduler only idles. -/
def selectThread (mc : Machine τ ω) (s : Sched τ μ ω) (thread block : Option τ) :
    Option (Sched τ μ ω × τ) :=
  if s.schedulerFrozen then some (s, mc.idleThread)
  else do
    let (s, nextUnblock) ← s.threads.foldlM (expire mc) (s, 0xffffffff)
    let next := choose mc s thread block
    some ({ s with timer := some (if next = mc.idleThread then nextUnblock else systemTick) }, next)

/-- `scheduler_switch` -/
def schedulerSwitch (mc : Machine τ ω) (s : Sched τ μ ω) (thread block : Option τ) :
    Option (Sched τ μ ω) := do
  let s := if (s.thr s.currentThread).state = .running then
      s.modThread s.currentThread fun x => { x with state := .ready }
    else s
  let s := loadAccounting { stackCheck mc s with timer := none }
  let (s, next) ← selectThread mc s thread block
  some ({ s with currentThread := next }.modThread next fun x => { x with state := .running })

/-- `scheduler_pause_accounting` -/
def schedulerPauseAccounting (s : Sched τ μ ω) : Sched τ μ ω :=
  s.modThread s.currentThread fun x =>
    { x with
      cputimeTotal := x.cputimeTotal + (s.usecTimer - x.startusec).setWidth 64
      cputimeCurrent := x.cputimeCurrent + (s.usecTimer - x.startusec) }

/-- `scheduler_resume_accounting` -/
def schedulerResumeAccounting (s : Sched τ μ ω) : Sched τ μ ω :=
  s.modThread s.currentThread fun x => { x with startusec := s.usecTimer }

/-- `yield` -/
def yield (mc : Machine τ ω) (s : Sched τ μ ω) : Option (Sched τ μ ω) := do
  let s ← schedulerSwitch mc (schedulerPauseAccounting s) none (some s.currentThread)
  some (schedulerResumeAccounting s)

end Switch

section Wakeup

variable {τ μ ω : Type} [DecidableEq τ] [DecidableEq μ] [DecidableEq ω] [Fintype τ] [Fintype μ]

/-- `wakeup_wait` up to the end of its critical section. A second waiter ends in a panic. -/
def wakeupWait (s : Sched τ μ ω) (obj : ω) (timeout : U32) : Option (Sched τ μ ω × Leave) :=
  if (s.wkp obj).waiter ≠ none then none
  else if (s.wkp obj).signalled then
    some (s.modWakeup obj fun o => { o with signalled := false }, .ret threadOk)
  else if timeout ≠ 0 then
    let s' := s.block .wakeup (some (.wakeup obj)) timeout
    some (s'.modWakeup obj fun o => { o with waiter := some s.currentThread }, .yield)
  else some (s, .ret threadTimeout)

/-- `wakeup_signal` -/
def wakeupSignal (mc : Machine τ ω) (s : Sched τ μ ω) (obj : ω) :
    Option (Sched τ μ ω × Int) :=
  let s := s.modWakeup obj fun o => { o with signalled := true }
  match (s.wkp obj).waiter with
  | some t =>
    (if s.currentThread = mc.idleThread then schedulerSwitch mc (s.unblock t) (some t) none
      else some (s.unblock t)).map fun s => (s, threadFound)
  | none => some (s, threadOk)

/-- `sleep` up to its yield. -/
def sleep (s : Sched τ μ ω) (usecs : U32) : Sched τ μ ω :=
  if usecs ≠ 0 then
    s.modThread s.currentThread fun x =>
      { x with
        state := .blocked
        blockType := .sleep
        timeout := usecs
        blockedSince := s.usecTimer }
  else s

end Wakeup

section Suspend

variable {τ μ ω : Type} [DecidableEq τ] [DecidableEq μ] [DecidableEq ω] [Fintype τ] [Fintype μ]

/-- `if (thread->timeout != -1) thread->timeout -= USEC_TIMER - thread->blocked_since;` -/
def Sched.stopTimeout (s : Sched τ μ ω) (thread : τ) : Sched τ μ ω :=
  s.modThread thread fun x =>
    if x.timeout ≠ timeoutBlock then
      { x with timeout := x.timeout - (s.usecTimer - x.blockedSince) }
    else x

/-- What `thread_suspend` does to a blocked thread: its timeout stops, and it leaves the queue of
a mutex. -/
def suspendBlocked (mc : Machine τ ω) (s : Sched τ μ ω) (thread : τ) : Option (Sched τ μ ω) :=
  match (s.thr thread).blockType with
  | .sleep => some (s.stopTimeout thread)
  | .mutex =>
    (removeFromBlocker mc s (s.thr thread).blockedBy thread).map fun s => s.stopTimeout thread
  | .wakeup => some (s.stopTimeout thread)
  | _ => some s

/-- `thread_suspend` up to the end of its critical section; the `Bool` is `needsswitch`. -/
def threadSuspend (mc : Machine τ ω) (s : Sched τ μ ω) (thread : Option τ) :
    Option (Sched τ μ ω × Int × Bool) :=
  let thread := thread.getD s.currentThread
  let state := (s.thr thread).state
  if state = .suspended then some (s, alreadySuspended, false)
  else
    (if state = .blocked then suspendBlocked mc s thread else some s).map fun s =>
      (s.modThread thread fun x => { x with state := .suspended }, threadOk,
        decide (state = .running))

/-- `thread_resume` -/
def threadResume (s : Sched τ μ ω) (thread : Option τ) : Option (Sched τ μ ω × Int) :=
  let thread := thread.getD s.currentThread
  let x := s.thr thread
  if x.state ≠ .suspended then some (s, alreadyResumed)
  else
    match x.blockType with
    | .sleep => some (s.modThread thread fun x => { x with blockedSince := s.usecTimer }, threadOk)
    | .mutex =>
      match x.blockedBy with
      | some (.mutex m) =>
        (mutexAddToQueue s m thread).map fun s =>
          (s.modThread thread fun x =>
            { x with blockedSince := s.usecTimer, state := .blocked }, threadOk)
      | _ => none
    | .wakeup =>
      some (s.modThread thread fun x =>
        { x with blockedSince := s.usecTimer, state := .blocked }, threadOk)
    | _ => some (s.modThread thread fun x => { x with state := .ready }, threadOk)

/-- `thread_set_priority` -/
def threadSetPriority (s : Sched τ μ ω) (thread : Option τ) (priority : BitVec 8) : Sched τ μ ω :=
  s.modThread (thread.getD s.currentThread) fun x => { x with priority := priority }

end Suspend

section Terminate

variable {τ μ ω : Type} [DecidableEq τ] [DecidableEq μ] [DecidableEq ω] [Fintype τ] [Fintype μ]

/-- `for (m = thread->owned_mutexes; m; m = m->owned_next) mutex_unlock_internal(m);` from `m`.
Every round frees a mutex or takes the first of its waiters, which bounds their number. -/
@[grind =] def releaseMutexes (mc : Machine τ ω) :
    Nat → Sched τ μ ω → Option μ → Option (Sched τ μ ω)
  | 0, _, _ => none
  | _ + 1, s, none => some s
  | fuel + 1, s, some m => do
    let s ← mutexUnlockInternal mc s m
    releaseMutexes mc fuel s (s.ownedNext m)

/-- A blocked thread leaves what it is blocked on. The queue it is taken out of is that of
`t->blocked_by`, for the local variable `t`, which nothing has been assigned to. -/
def leaveBlocker (mc : Machine τ ω) (t : Option τ) (s : Sched τ μ ω) (thread : τ) :
    Option (Sched τ μ ω) :=
  if (s.thr thread).state = .blocked then
    match (s.thr thread).blockType with
    | .mutex => t.bind fun t => removeFromBlocker mc s (s.thr t).blockedBy thread
    | .wakeup =>
      match (s.thr thread).blockedBy with
      | some (.wakeup w) => some (s.modWakeup w fun o => { o with waiter := none })
      | _ => none
    | _ => some s
  else some s

/-- The part of `thread_terminate_internal` before the loop. -/
def detach (mc : Machine τ ω) (t : Option τ) (s : Sched τ μ ω) (thread : τ) :
    Option (Sched τ μ ω) :=
  if (s.thr thread).state = .running then some s
  else (leaveBlocker mc t s thread).map fun s =>
    s.modThread thread fun x => { x with state := .suspended }

/-- `thread_terminate_internal`, as far as the scheduler's memory goes: what the thread holds of
libraries, files, buttons and the heap is released between the two critical sections. -/
def threadTerminateInternal (mc : Machine τ ω) (t : Option τ) (s : Sched τ μ ω)
    (thread : Option τ) : Option (Sched τ μ ω) := do
  let thread := thread.getD s.currentThread
  let s ← detach mc t s thread
  let s ← releaseMutexes mc (Fintype.card τ + Fintype.card μ + 1) s (s.thr thread).ownedMutexes
  some { s with threads := s.threads.take 1 ++ (s.threads.drop 1).erase thread }

end Terminate

end Thread
end Freemyipod
