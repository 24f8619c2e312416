import Mathlib.Data.List.Perm.Basic
import Freemyipod.Lib.Intrusive
import Freemyipod.Lib.Runs

/-!
# Button.Registry

The handlers of button events (`emcore/button.c`). They are kept in a linked list, whose functions
hold `button_mutex` from the first access to the last.

* `Tracked`: the memory beside the handlers that are to be in the list, newest first.
* `Kept`: the list holds exactly them.
* `kept_unregister_iff`: a handler other than the newest is never removed. The loop that is to find
  it has no body and ends at the last hook.
* `registry_iff`: when every event reaches exactly its handlers, for all runs.
-/

namespace Freemyipod
namespace Button

open Intrusive

/-- `enum button_event` -/
inductive ButtonEvent
  | buttonPress
  | buttonRelease
  | wheelTouch
  | wheelUntouch
  | wheelPosition
  | wheelMoved
  | wheelMovedAccel
  | wheelForward
  | wheelBackward
  deriving DecidableEq

variable {Addr Thread Handler User : Type}

/-- `struct button_hook_entry` -/
structure HookEntry (Addr Thread Handler User : Type) where
  next : Option Addr
  owner : Thread
  handler : Handler
  user : User
  deriving DecidableEq

/-- `h->handler(h->user, eventtype, which, value)` -/
structure Call (Handler User : Type) where
  handler : Handler
  user : User
  eventtype : ButtonEvent
  which : Int
  value : Int
  deriving DecidableEq

structure State (Addr Thread Handler User : Type) where
  hooks : Addr → HookEntry Addr Thread Handler User
  /-- `head_button_hook` -/
  head : Option Addr
  /-- The word at address 0, the link of the null pointer. -/
  nullNext : Option Addr
  /-- The hooks that have been allocated and not freed. -/
  allocated : List Addr

namespace State

variable (s : State Addr Thread Handler User)

def links (a : Addr) : Option Addr := (s.hooks a).next

/-- `p->next` -/
def next : Option Addr → Option Addr
  | none => s.nullNext
  | some a => s.links a

variable [DecidableEq Addr]

/-- `p->next = q` -/
def setNext (p q : Option Addr) : State Addr Thread Handler User :=
  match p with
  | none => { s with nullNext := q }
  | some a => { s with hooks := Function.update s.hooks a { s.hooks a with next := q } }

def free (p : Option Addr) : State Addr Thread Handler User :=
  { s with allocated := p.elim s.allocated s.allocated.erase }

end State

section Functions

variable [DecidableEq Addr] (s : State Addr Thread Handler User)

/-- `button_register_handler` of a thread, with what `malloc` returns. -/
def registerHandler (mem : Option Addr) (thread : Thread) (handler : Handler) (user : User) :
    State Addr Thread Handler User × Option Addr :=
  match mem with
  | none => (s, none)
  | some hook =>
    ({ s with
        hooks := Function.update s.hooks hook ⟨s.head, thread, handler, user⟩
        head := some hook
        allocated := hook :: s.allocated }, some hook)

/-- `button_unregister_handler` -/
def unregisterHandler (hook : Option Addr) : Option (State Addr Thread Handler User × Int) :=
  if s.head = hook then some ({ s with head := s.next hook }.free hook, 0)
  else
    (lastLoop (s.allocated.length + 1) s.links s.head).map fun h =>
      if s.next h = hook then ((s.setNext h (s.next (s.next h))).free hook, 0) else (s, -1)

/-- `button_send_event` -/
def sendEvent (eventtype : ButtonEvent) (which value : Int) :
    Option (List (Call Handler User)) :=
  (walk (s.allocated.length + 1) s.links s.head).map fun hs =>
    hs.map fun h => ⟨(s.hooks h).handler, (s.hooks h).user, eventtype, which, value⟩

/-- `button_unregister_all_of_thread` -/
def unregisterAllOfThread [DecidableEq Thread] (process : Thread) :
    Option (State Addr Thread Handler User) :=
  (removeAll (fun h => (s.hooks h).owner = process) (s.allocated.length + 1) s.links s.head).map
    fun r =>
      { s with
        hooks := fun h => { s.hooks h with next := r.1 h }
        head := r.2.1
        allocated := s.allocated.filter (· ∉ r.2.2) }

end Functions

/-! ### Runs -/

/-- The calls, and the events that the hardware reports. -/
inductive Action (Addr Thread Handler User : Type)
  | register (mem : Option Addr) (thread : Thread) (handler : Handler) (user : User)
  | unregister (hook : Option Addr)
  | unregisterAll (process : Thread)
  | event (eventtype : ButtonEvent) (which value : Int)
  deriving DecidableEq

inductive Output (Addr Handler User : Type)
  | hook (hook : Option Addr)
  | result (result : Int)
  | done
  | calls (calls : List (Call Handler User))
  deriving DecidableEq

/-- A handler that is to be called. -/
structure Registration (Addr Thread Handler User : Type) where
  hook : Addr
  owner : Thread
  handler : Handler
  user : User

/-- The memory, and beside it what has been registered and not been unregistered. -/
structure Tracked (Addr Thread Handler User : Type) where
  state : State Addr Thread Handler User
  regs : List (Registration Addr Thread Handler User)

variable [DecidableEq Addr]

/-- What the calls are for. -/
def registrations [DecidableEq Thread] (regs : List (Registration Addr Thread Handler User)) :
    Action Addr Thread Handler User → List (Registration Addr Thread Handler User)
  | .register (some hook) thread handler user => ⟨hook, thread, handler, user⟩ :: regs
  | .register none _ _ _ => regs
  | .unregister hook => regs.filter fun r => some r.hook ≠ hook
  | .unregisterAll process => regs.filter fun r => !decide (r.owner = process)
  | .event .. => regs

/-- What the functions do. A block that `malloc` returns is not in use. -/
@[grind =] def change [DecidableEq Thread] (s : State Addr Thread Handler User) :
    Action Addr Thread Handler User → Option (State Addr Thread Handler User × Output Addr Handler User)
  | .register mem thread handler user =>
    if ∀ a ∈ mem, a ∉ s.allocated then
      let r := registerHandler s mem thread handler user
      some (r.1, .hook r.2)
    else none
  | .unregister hook => (unregisterHandler s hook).map fun r => (r.1, .result r.2)
  | .unregisterAll process => (unregisterAllOfThread s process).map fun s => (s, .done)
  | .event eventtype which value => (sendEvent s eventtype which value).map fun c => (s, .calls c)

def step [DecidableEq Thread] (x : Tracked Addr Thread Handler User)
    (a : Action Addr Thread Handler User) :
    Option (Tracked Addr Thread Handler User × Output Addr Handler User) :=
  (change x.state a).map fun r => (⟨r.1, registrations x.regs a⟩, r.2)

/-- `button_init` -/
def init (hooks : Addr → HookEntry Addr Thread Handler User) (nullNext : Option Addr) :
    Tracked Addr Thread Handler User :=
  ⟨⟨hooks, none, nullNext, []⟩, []⟩

/-- The hook of `r` is in memory as it was registered, and has not been freed. -/
structure Held (s : State Addr Thread Handler User)
    (r : Registration Addr Thread Handler User) : Prop where
  owner : (s.hooks r.hook).owner = r.owner
  handler : (s.hooks r.hook).handler = r.handler
  user : (s.hooks r.hook).user = r.user
  allocated : r.hook ∈ s.allocated

/-- Exactly the registrations are in place. -/
structure Kept (x : Tracked Addr Thread Handler User) : Prop where
  linked : Linked x.state.links x.state.head (x.regs.map (·.hook))
  held : ∀ r ∈ x.regs, Held x.state r

/-- An event calls each registered handler once, and no other. -/
def Delivered (e : Tracked Addr Thread Handler User × Action Addr Thread Handler User ×
    Output Addr Handler User) : Prop :=
  ∀ eventtype which value, e.2.1 = .event eventtype which value →
    e.2.2 = .calls (e.1.regs.map fun r => ⟨r.handler, r.user, eventtype, which, value⟩)

/-- A registered handler is unregistered only when it is the newest one, and the null pointer only
when its link is null. -/
def NewestOnly (x : Tracked Addr Thread Handler User) : Action Addr Thread Handler User → Prop
  | .unregister none => x.state.nullNext = none
  | .unregister (some h) => h ∈ x.regs.map (·.hook) → x.state.head = some h
  | _ => True

instance (x : Tracked Addr Thread Handler User) :
    ∀ a : Action Addr Thread Handler User, Decidable (NewestOnly x a)
  | .unregister none => inferInstanceAs (Decidable (x.state.nullNext = none))
  | .unregister (some h) =>
    inferInstanceAs (Decidable (h ∈ x.regs.map (·.hook) → x.state.head = some h))
  | .register .. | .unregisterAll _ | .event .. => inferInstanceAs (Decidable True)

variable {x y : Tracked Addr Thread Handler User} {a : Action Addr Thread Handler User}
  {o : Output Addr Handler User} {s : State Addr Thread Handler User}

namespace Kept

omit [DecidableEq Addr] in
theorem nodup (hx : Kept x) : (x.regs.map (·.hook)).Nodup := hx.linked.nodup

omit [DecidableEq Addr] in
theorem fuel (hx : Kept x) : (x.regs.map (·.hook)).length < x.state.allocated.length + 1 := by
  have hsub : (x.regs.map (·.hook)) ⊆ x.state.allocated := by
    intro h hh
    obtain ⟨r, hr, rfl⟩ := List.mem_map.1 hh
    exact (hx.held r hr).allocated
  exact Nat.lt_succ_of_le (List.subperm_of_subset hx.nodup hsub).length_le

theorem register (hx : Kept x) {hook : Addr} (hfresh : hook ∉ x.state.allocated) (thread : Thread)
    (handler : Handler) (user : User) :
    Kept ⟨(registerHandler x.state (some hook) thread handler user).1,
      ⟨hook, thread, handler, user⟩ :: x.regs⟩ := by
  have hne : ∀ r ∈ x.regs, r.hook ≠ hook := by
    rintro r hr rfl
    exact hfresh (hx.held r hr).allocated
  constructor
  · have hnew : hook ∉ x.regs.map (·.hook) := by
      intro hmem
      obtain ⟨r, hr, he⟩ := List.mem_map.1 hmem
      exact hne r hr he
    have hlinks : (registerHandler x.state (some hook) thread handler user).1.links =
        Function.update x.state.links hook x.state.head := by
      funext b
      unfold registerHandler State.links Function.update
      by_cases hb : b = hook <;> simp [hb]
    simp only [hlinks]
    exact hx.linked.push hnew
  · intro r hr
    rcases List.mem_cons.1 hr with rfl | hr
    · constructor <;> simp [registerHandler]
    · obtain ⟨h1, h2, h3, h4⟩ := hx.held r hr
      constructor <;> simp [registerHandler, hne r hr, *]

omit [DecidableEq Addr] in
theorem filter_owner [DecidableEq Thread] (hx : Kept x) (process : Thread) :
    ((x.regs.filter fun r => !decide (r.owner = process)).map (·.hook)) =
      (x.regs.map (·.hook)).filter fun h => !decide ((x.state.hooks h).owner = process) := by
  rw [List.filter_map]
  congr 1
  apply List.filter_congr
  intro r hr
  simp [(hx.held r hr).owner]

theorem unregisterAll [DecidableEq Thread] (hx : Kept x) (process : Thread) :
    ∃ s, unregisterAllOfThread x.state process = some s ∧
      Kept ⟨s, x.regs.filter fun r => !decide (r.owner = process)⟩ := by
  obtain ⟨next', head', hr, hl, hfr⟩ := removeAll_spec
    (fun h => decide ((x.state.hooks h).owner = process)) hx.linked hx.fuel
  refine ⟨_, by rw [unregisterAllOfThread, hr]; rfl, ?_, ?_⟩
  · rw [hx.filter_owner]
    exact hl
  · intro r hr'
    obtain ⟨hmem, hne⟩ := List.mem_filter.1 hr'
    obtain ⟨h1, h2, h3, h4⟩ := hx.held r hmem
    refine ⟨h1, h2, h3, ?_⟩
    simp only [Bool.not_eq_true', decide_eq_false_iff_not] at hne
    simp [h4, h1, hne]

omit [DecidableEq Addr] in
theorem send (hx : Kept x) (eventtype : ButtonEvent) (which value : Int) :
    sendEvent x.state eventtype which value =
      some (x.regs.map fun r => ⟨r.handler, r.user, eventtype, which, value⟩) := by
  rw [sendEvent, walk_spec hx.linked hx.fuel, Option.map_some, List.map_map]
  congr 1
  apply List.map_congr_left
  intro r hr
  simp [(hx.held r hr).handler, (hx.held r hr).user]

end Kept

/-! ### One handler is unregistered -/

/-- The newest handler, which is the head of the list. -/
theorem Kept.unregister_newest (hx : Kept x) {h : Addr} (hhead : x.state.head = some h) :
    unregisterHandler x.state (some h) =
        some ({ x.state with head := x.state.links h }.free (some h), 0) ∧
      Kept ⟨{ x.state with head := x.state.links h }.free (some h),
        x.regs.filter fun r => some r.hook ≠ some h⟩ := by
  refine ⟨by rw [unregisterHandler, if_pos hhead]; rfl, ?_⟩
  have hl := hx.linked
  have hnd := hx.nodup
  have hheld := hx.held
  cases hregs : x.regs with
  | nil =>
    rw [hregs] at hl
    rw [hhead] at hl
    cases hl
  | cons r rest =>
    rw [hregs] at hl hnd hheld
    rw [List.map_cons, Linked.cons_iff] at hl
    obtain ⟨hr, hrest⟩ := hl
    rw [List.map_cons, List.nodup_cons] at hnd
    have hrh : r.hook = h := Option.some.inj (hr.symm.trans hhead)
    have hne : ∀ q ∈ rest, q.hook ≠ h := by
      rintro q hq rfl
      exact hnd.1 (hrh ▸ List.mem_map_of_mem hq)
    have hfilter : ((r :: rest).filter fun q => some q.hook ≠ some h) = rest := by
      rw [List.filter_cons_of_neg (by simp [hrh])]
      exact List.filter_eq_self.2 fun q hq => by simpa using hne q hq
    rw [hfilter]
    constructor
    · rw [hrh] at hrest
      exact hrest
    · intro q hq
      obtain ⟨h1, h2, h3, h4⟩ := hheld q (List.mem_cons_of_mem _ hq)
      exact ⟨h1, h2, h3, (List.mem_erase_of_ne (hne q hq)).2 h4⟩

omit [DecidableEq Addr] in
theorem Kept.next_getLast (hx : Kept x) {h : Addr}
    (hlast : (x.regs.map (·.hook)).getLast? = some h) : x.state.links h = none := by
  obtain ⟨l, hl⟩ := List.getLast?_eq_some_iff.1 hlast
  have hlinked := hx.linked
  rw [hl] at hlinked
  exact hlinked.tail_of_append

omit [DecidableEq Addr] in
theorem Kept.exists_getLast (hx : Kept x) {h : Addr} (hhead : x.state.head = some h) :
    ∃ z, (x.regs.map (·.hook)).getLast? = some z := by
  have hl := hx.linked
  rw [hhead] at hl
  obtain ⟨rest, hrest, -⟩ := Linked.some_iff.1 hl
  exact ⟨_, by rw [hrest]; exact List.getLast?_cons⟩

/-- The loop ends at the last hook, whose link is null, or at once. -/
theorem Kept.unregister_other (hx : Kept x) {hook : Option Addr} (hhead : x.state.head ≠ hook) :
    unregisterHandler x.state hook =
      let h := (x.regs.map (·.hook)).getLast?
      some (if x.state.next h = hook then
          ((x.state.setNext h (x.state.next (x.state.next h))).free hook, 0) else (x.state, -1)) := by
  rw [unregisterHandler, if_neg hhead, lastLoop_spec hx.linked hx.fuel, Option.map_some]

/-- With the null pointer the link of the null pointer ends up in the list. -/
theorem kept_unregister_null_iff (hx : Kept x) :
    (∀ s r, unregisterHandler x.state none = some (s, r) → Kept ⟨s, x.regs⟩) ↔
      x.state.nullNext = none := by
  cases hhead : x.state.head with
  | none =>
    have hl := hx.linked
    rw [hhead, Linked.none_iff, List.map_eq_nil_iff] at hl
    rw [unregisterHandler, if_pos hhead]
    constructor
    · intro hk
      have hk' := (hk _ _ rfl).linked
      simpa [hl, State.free, State.next] using hk'
    · rintro hnull s r hs
      cases hs
      constructor
      · simp [hl, State.free, State.next, hnull]
      · simp [hl]
  | some h =>
    obtain ⟨z, hz⟩ := hx.exists_getLast hhead
    have hzn := hx.next_getLast hz
    rw [hx.unregister_other (by simp [hhead]), hz]
    simp only [State.next, hzn, if_true, State.setNext]
    constructor
    · intro hk
      obtain ⟨l, hlz⟩ := List.getLast?_eq_some_iff.1 hz
      have hk' := (hk _ _ rfl).linked
      rw [hlz] at hk'
      have hnull := hk'.tail_of_append
      simpa [State.free, State.links] using hnull
    · rintro hnull s r hs
      cases hs
      have hsame :
          Function.update x.state.hooks z { x.state.hooks z with next := x.state.nullNext } =
            x.state.hooks := by
        rw [Function.update_eq_self_iff, hnull, ← hzn]
        rfl
      rw [hsame]
      exact ⟨hx.linked, hx.held⟩

/-- A hook that is not the first is left where it is: nothing changes unless the list is empty. -/
theorem Kept.unregister_inner (hx : Kept x) {h : Addr} (hhead : x.state.head ≠ some h)
    {r : Int} (hs : unregisterHandler x.state (some h) = some (s, r)) :
    s.head = x.state.head ∧ (x.regs ≠ [] → s = x.state) := by
  rw [hx.unregister_other hhead] at hs
  cases hlast : (x.regs.map (·.hook)).getLast? with
  | none =>
    rw [List.getLast?_eq_none_iff, List.map_eq_nil_iff] at hlast
    refine ⟨?_, fun hne => absurd hlast hne⟩
    simp only [hlast, List.map_nil, List.getLast?_nil, Option.some.injEq] at hs
    split at hs <;> cases hs <;> rfl
  | some z =>
    have hzn := hx.next_getLast hlast
    simp only [hlast, State.next, hzn, reduceCtorEq, if_false, Option.some.injEq] at hs
    cases hs
    exact ⟨rfl, fun _ => rfl⟩

theorem kept_unregister_iff (hx : Kept x) (hook : Option Addr) :
    (∀ s r, unregisterHandler x.state hook = some (s, r) →
      Kept ⟨s, x.regs.filter fun r => some r.hook ≠ hook⟩) ↔
        NewestOnly x (.unregister hook) := by
  cases hook with
  | none =>
    rw [NewestOnly]
    simpa using kept_unregister_null_iff hx
  | some h =>
    rw [NewestOnly]
    by_cases hhead : x.state.head = some h
    · obtain ⟨hr, hk⟩ := hx.unregister_newest hhead
      rw [hr]
      refine iff_of_true ?_ fun _ => hhead
      rintro s r hs
      cases hs
      exact hk
    · obtain ⟨⟨s, r⟩, hs⟩ : ∃ q, unregisterHandler x.state (some h) = some q :=
        ⟨_, hx.unregister_other hhead⟩
      obtain ⟨hsh, hsame⟩ := hx.unregister_inner hhead hs
      constructor
      · -- Both lists start at the same head, and so they are the same list.
        intro hk hmem
        obtain ⟨q, hq, hqh⟩ := List.mem_map.1 hmem
        have hne : x.regs ≠ [] := List.ne_nil_of_mem hq
        have hl := (hk s r hs).linked
        rw [hsame hne] at hl
        have hlen := congrArg List.length (hl.unique hx.linked)
        simp only [List.length_map, List.length_filter_eq_length_iff] at hlen
        simpa [hqh] using hlen q hq
      · intro hnot s' r' hs'
        rw [hs] at hs'
        cases hs'
        have hout : ∀ q ∈ x.regs, q.hook ≠ h := by
          rintro q hq rfl
          exact hhead (hnot (List.mem_map_of_mem hq))
        have hfilter : (x.regs.filter fun q => some q.hook ≠ some h) = x.regs :=
          List.filter_eq_self.2 fun q hq => by simpa using hout q hq
        rw [hfilter]
        by_cases hne : x.regs = []
        · have hl := hx.linked
          rw [hne] at hl ⊢
          exact ⟨hsh.trans hl, by simp⟩
        · rw [hsame hne]
          exact hx

/-! ### All runs -/

variable [DecidableEq Thread]

omit [DecidableEq Addr] [DecidableEq Thread] in
theorem kept_init (hooks : Addr → HookEntry Addr Thread Handler User) (nullNext : Option Addr) :
    Kept (init hooks nullNext) :=
  ⟨rfl, by simp [init]⟩

/-- In a state in which the registrations are in place, only a block that is in use is in the way of
a step. -/
theorem Kept.step_isSome_iff (hx : Kept x) :
    (∃ r, step x a = some r) ↔
      ∀ hook thread handler user, a = .register (some hook) thread handler user →
        hook ∉ x.state.allocated := by
  cases a with
  | register mem thread handler user =>
    cases mem with
    | none => simp [step, change]
    | some hook =>
      simp only [step, change, Option.mem_some_iff, forall_eq', Option.map_eq_some_iff]
      constructor
      · rintro ⟨r, q, hq, -⟩ hook' thread' handler' user' ha
        cases ha
        by_contra hin
        rw [if_neg (by simpa using hin)] at hq
        cases hq
      · intro hfresh
        exact ⟨_, _, if_pos (hfresh hook thread handler user rfl), rfl⟩
  | unregister hook =>
    have hr : ∃ r, unregisterHandler x.state hook = some r := by
      unfold unregisterHandler
      split
      · exact ⟨_, rfl⟩
      · exact ⟨_, by rw [lastLoop_spec hx.linked hx.fuel]; rfl⟩
    obtain ⟨r, hr⟩ := hr
    simp [step, change, hr]
  | unregisterAll process =>
    obtain ⟨s, hs, -⟩ := hx.unregisterAll process
    simp [step, change, hs]
  | event eventtype which value => simp [step, change, hx.send]

theorem Kept.step_iff (hx : Kept x) (hs : step x a = some (y, o)) :
    Kept y ↔ NewestOnly x a := by
  simp only [step, Option.map_eq_some_iff] at hs
  obtain ⟨⟨s, o'⟩, hc, he⟩ := hs
  cases he
  cases a with
  | register mem thread handler user =>
    refine iff_of_true ?_ trivial
    simp only [change] at hc
    split at hc
    · rename_i hfresh
      cases hc
      cases mem with
      | none => exact hx
      | some hook => exact hx.register (hfresh hook rfl) thread handler user
    · cases hc
  | unregister hook =>
    simp only [change, Option.map_eq_some_iff] at hc
    obtain ⟨⟨s', r⟩, hu, he⟩ := hc
    cases he
    rw [← kept_unregister_iff hx hook, hu]
    constructor
    · rintro hk s r hs
      cases hs
      exact hk
    · intro hk
      exact hk _ _ rfl
  | unregisterAll process =>
    refine iff_of_true ?_ trivial
    obtain ⟨s', hs', hk⟩ := hx.unregisterAll process
    simp only [change, hs', Option.map_some, Option.some.injEq] at hc
    cases hc
    exact hk
  | event eventtype which value =>
    refine iff_of_true ?_ trivial
    simp only [change, hx.send, Option.map_some, Option.some.injEq] at hc
    cases hc
    exact hx

theorem Kept.delivered (hx : Kept x) (hs : step x a = some (y, o)) : Delivered (x, a, o) := by
  rintro eventtype which value rfl
  simp only [step, change, hx.send, Option.map_some, Option.some.injEq] at hs
  cases hs
  rfl

/-- Every event reaches exactly the registered handlers, and every registration stays in place, if
and only if no handler but the newest is unregistered. -/
theorem registry_iff {hooks : Addr → HookEntry Addr Thread Handler User} {nullNext : Option Addr}
    {es : List (Tracked Addr Thread Handler User × Action Addr Thread Handler User ×
      Output Addr Handler User)}
    (h : Lts.Runs step (fun _ _ => True) (init hooks nullNext) es x) :
    ((∀ e ∈ es, Kept e.1 ∧ Delivered e) ∧ Kept x) ↔ ∀ e ∈ es, NewestOnly e.1 e.2.1 := by
  have hkept := h.forall_iff (I := fun _ => True) (G := Kept) (P := NewestOnly) trivial
    (kept_init hooks nullNext) fun z b y p _ hs => ⟨trivial, fun hz => hz.step_iff hs⟩
  rw [← hkept]
  constructor
  · rintro ⟨hes, hx⟩
    exact ⟨fun e he => (hes e he).1, hx⟩
  · rintro ⟨hes, hx⟩
    refine ⟨fun e he => ⟨hes e he, ?_⟩, hx⟩
    obtain ⟨pre, post, hsplit⟩ := List.append_of_mem he
    obtain ⟨-, -, v, hv, -⟩ := h.split hsplit
    exact (hes e he).delivered hv

/-! ### Two handlers -/

abbrev start : Tracked Nat Nat Nat Nat := init (fun _ => ⟨none, 0, 0, 0⟩) none

/-- Two threads register a handler each; the newer is unregistered, then the other thread goes. -/
def nestedActions : List (Action Nat Nat Nat Nat) :=
  [.register (some 0x100) 1 10 0, .register (some 0x200) 2 20 5, .event .buttonPress 3 0,
    .unregister (some 0x200), .event .buttonRelease 3 0, .unregisterAll 1, .event .wheelTouch 0 0]

theorem registry_nested : ∃ es x, Lts.Runs step (fun _ _ => True) start es x ∧ es.length = 7 ∧
    (∀ e ∈ es, Kept e.1 ∧ Delivered e) ∧ Kept x := by
  have hall : (Lts.trace step start nestedActions).map (fun q =>
      (q.1.length, q.1.all fun e => decide (NewestOnly e.1 e.2.1))) = some (7, true) := by
    decide
  obtain ⟨⟨es, x⟩, ht, hq⟩ := Option.map_eq_some_iff.1 hall
  obtain ⟨hlen, hmeets⟩ := Prod.mk.inj hq
  have hruns : Lts.Runs step (fun _ _ => True) start es x := Lts.trace_runs ht fun _ _ _ => trivial
  refine ⟨es, x, hruns, hlen, (registry_iff hruns).2 fun e he => ?_⟩
  exact of_decide_eq_true (List.all_eq_true.1 hmeets e he)

/-- The older of two handlers is unregistered, and is called by the next event. -/
def olderActions : List (Action Nat Nat Nat Nat) :=
  [.register (some 0x100) 1 10 0, .register (some 0x200) 2 20 5, .unregister (some 0x100),
    .event .buttonPress 3 0]

theorem calls_unregistered_handler : ¬ ∀ es x, Lts.Runs step (fun _ _ => True) start es x →
    (∀ e ∈ es, Kept e.1 ∧ Delivered e) ∧ Kept x := by
  intro h
  have hlast : (Lts.trace step start olderActions).map (fun q =>
      q.1.getLast?.map fun e => (e.2.1, e.2.2, e.1.regs.length)) =
        some (some (.event .buttonPress 3 0,
          .calls [⟨20, 5, .buttonPress, 3, 0⟩, ⟨10, 0, .buttonPress, 3, 0⟩], 1)) := by
    decide
  obtain ⟨⟨es, x⟩, ht, he⟩ := Option.map_eq_some_iff.1 hlast
  obtain ⟨⟨y, a, o⟩, hmem, he⟩ := Option.map_eq_some_iff.1 he
  obtain ⟨rfl, he⟩ := Prod.mk.inj he
  obtain ⟨rfl, hregs⟩ := Prod.mk.inj he
  have hright := ((h es x (Lts.trace_runs ht fun _ _ _ => trivial)).1 _
    (List.mem_of_getLast? hmem)).2 .buttonPress 3 0 rfl
  have hlen := congrArg List.length (Output.calls.inj hright)
  simp [hregs] at hlen

end Button
end Freemyipod
