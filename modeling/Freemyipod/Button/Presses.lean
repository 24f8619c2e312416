import Freemyipod.Button.Clickwheel

/-!
# Button.Presses

The buttons of the click wheel, and the lock of the hard disk that two of them take.

* `presses_thread`: a change packet sends an event for each button that it changes.
* `presses_iff`: when the events of all buttons alternate, for all runs. A packet of another kind
  changes what is remembered of the buttons, and sends nothing.
-/

namespace Freemyipod
namespace Button
namespace Clickwheel

/-- The values alternate, and `b` comes first. -/
@[grind =] def Alternates : Bool → List Bool → Prop
  | _, [] => True
  | b, x :: xs => x = b ∧ Alternates (!b) xs

/-- What comes next. -/
def expected (b : Bool) (xs : List Bool) : Bool := xs.foldl (fun b _ => !b) b

theorem alternates_append {b : Bool} {xs ys : List Bool} :
    Alternates b (xs ++ ys) ↔ Alternates b xs ∧ Alternates (expected b xs) ys := by
  induction xs generalizing b with
  | nil => simp [Alternates, expected]
  | cons x xs ih => simp [Alternates, ih, and_assoc, expected]

@[simp] theorem expected_append {b : Bool} {xs ys : List Bool} :
    expected b (xs ++ ys) = expected (expected b xs) ys := List.foldl_append

theorem alternates_nil {b : Bool} : Alternates b [] ↔ True := Iff.rfl

theorem alternates_singleton {b x : Bool} : Alternates b [x] ↔ x = b := by simp [Alternates]

/-! ## Events -/

/-- The presses of button `i` that are sent, and the releases as `false`. -/
def presses (i : Nat) (o : List Output) : List Bool :=
  o.filterMap fun x =>
    if x = .event .buttonPress i 0 then some true
    else if x = .event .buttonRelease i 0 then some false
    else none

/-- The calls of `ata_lock_exclusive`, and those of `ata_unlock_exclusive` as `false`. -/
def locks (o : List Output) : List Bool :=
  o.filterMap fun x =>
    if x = .ataLockExclusive then some true
    else if x = .ataUnlockExclusive then some false
    else none

/-- A change packet changes button `i`. -/
def Changes (i : Nat) (s : State) (p : Packet) : Prop :=
  p.IsChange ∧ s.oldbuttons.getLsbD i ≠ p.newbuttons.getLsbD i

instance (i : Nat) (s : State) (p : Packet) : Decidable (Changes i s p) :=
  inferInstanceAs (Decidable (_ ∧ _))

/-- Button `i` as the last change packet that changed it left it. -/
def told (i : Nat) (es : List (State × Packet × List Output)) : Bool :=
  es.foldl (fun b e => if Changes i e.1 e.2.1 then e.2.1.newbuttons.getLsbD i else b) false

variable {s t : State} {p : Packet} {classic : Bool} {i : Nat} {o : List Output}
  {es : List (State × Packet × List Output)}

@[simp] theorem presses_append {o' : List Output} :
    presses i (o ++ o') = presses i o ++ presses i o' := List.filterMap_append

@[simp] theorem locks_append {o' : List Output} : locks (o ++ o') = locks o ++ locks o' :=
  List.filterMap_append

@[simp] theorem told_append :
    told i (es ++ [(s, p, o)]) = if Changes i s p then p.newbuttons.getLsbD i else told i es := by
  simp [told]

theorem presses_eq_nil
    (h : ∀ x ∈ o, x ≠ .event .buttonPress i 0 ∧ x ≠ .event .buttonRelease i 0) :
    presses i o = [] := by
  rw [presses, List.filterMap_eq_nil_iff]
  intro x hx
  rw [if_neg (h x hx).1, if_neg (h x hx).2]

theorem locks_eq_nil (h : ∀ x ∈ o, ∃ e which value, x = .event e which value) : locks o = [] := by
  rw [locks, List.filterMap_eq_nil_iff]
  intro x hx
  obtain ⟨e, which, value, rfl⟩ := h x hx
  rfl

theorem presses_buttonEvents {a b : BitVec 32} (hi : i < 5) :
    presses i (buttonEvents a b) =
      if a.getLsbD i ≠ b.getLsbD i then [!a.getLsbD i] else [] := by
  have hrange : List.range 5 = [0, 1, 2, 3, 4] := rfl
  have hone : ∀ j : Nat, presses i (if (a ^^^ b).getLsbD j then
      [.event (if a.getLsbD j then .buttonRelease else .buttonPress) j 0] else []) =
        if j = i ∧ a.getLsbD i ≠ b.getLsbD i then [!a.getLsbD i] else [] := by
    intro j
    by_cases hj : j = i
    · subst hj
      cases ha : a.getLsbD j <;> cases hb : b.getLsbD j <;> simp [presses, ha, hb]
    · have hno : ¬ (j = i ∧ a.getLsbD i ≠ b.getLsbD i) := fun h => hj h.1
      have hcast : (j : Int) ≠ i := by exact_mod_cast hj
      rw [if_neg hno]
      refine presses_eq_nil fun x hx => ?_
      split at hx
      · rw [List.mem_singleton] at hx
        subst hx
        split <;> simp [hcast]
      · exact absurd hx List.not_mem_nil
  simp only [buttonEvents, hrange, List.flatMap_cons, List.flatMap_nil, presses_append, hone]
  obtain rfl | rfl | rfl | rfl | rfl : i = 0 ∨ i = 1 ∨ i = 2 ∨ i = 3 ∨ i = 4 := by omega
  all_goals simp [presses]

theorem presses_wheel : presses i (wheel s p).2 = [] := by
  refine presses_eq_nil fun x hx => ?_
  rw [wheel, wheelTouched, wheelUntouched] at hx
  split_ifs at hx <;> simp at hx <;> grind

theorem presses_ataLock {a b : BitVec 32} : presses i (ataLock classic a b) = [] := by
  refine presses_eq_nil fun x hx => ?_
  rw [ataLock] at hx
  split_ifs at hx <;> simp_all

/-- What a turn sends for a button. -/
theorem presses_thread (hi : i < 5) :
    presses i (clickwheelThread s p classic).2 =
      if Changes i s p then [!s.oldbuttons.getLsbD i] else [] := by
  by_cases hp : p.IsChange
  · have hchanges : Changes i s p ↔ s.oldbuttons.getLsbD i ≠ p.newbuttons.getLsbD i :=
      and_iff_right hp
    simp only [clickwheelThread, if_pos hp, changePacket, presses_append, presses_ataLock,
      presses_wheel, presses_buttonEvents hi, List.append_nil, hchanges]
  · have hno : ¬ Changes i s p := fun h => hp h.1
    simp only [clickwheelThread, if_neg hp, presses_append, presses_ataLock, List.append_nil,
      if_neg hno]
    split <;> rfl

theorem locks_buttonEvents {a b : BitVec 32} : locks (buttonEvents a b) = [] := by
  refine locks_eq_nil fun x hx => ?_
  obtain ⟨j, h | h⟩ := mem_buttonEvents hx
  · exact ⟨_, _, _, h⟩
  · exact ⟨_, _, _, h⟩

theorem locks_wheel : locks (wheel s p).2 = [] := by
  refine locks_eq_nil fun x hx => ?_
  rw [wheel, wheelTouched, wheelUntouched] at hx
  split_ifs at hx <;> simp at hx <;> grind

/-- What a turn does with the lock. -/
theorem locks_thread :
    locks (clickwheelThread s p true).2 =
      if p.newbuttons = 0x11 ∧ s.oldbuttons ≠ 0x11 then [true]
      else if p.newbuttons ≠ 0x11 ∧ s.oldbuttons = 0x11 then [false]
      else [] := by
  have hlock : ∀ a b, locks (ataLock true a b) =
      if b = 0x11 ∧ a ≠ 0x11 then [true] else if b ≠ 0x11 ∧ a = 0x11 then [false] else [] := by
    intro a b
    rw [ataLock, if_pos rfl]
    split_ifs <;> rfl
  by_cases hp : p.IsChange
  · simp only [clickwheelThread, if_pos hp, changePacket, locks_append, locks_buttonEvents,
      locks_wheel, List.nil_append, hlock]
  · simp only [clickwheelThread, if_neg hp, locks_append, hlock]
    split <;> rfl

theorem locks_thread_false : locks (clickwheelThread s p false).2 = [] := by
  have hlock : ∀ a b, locks (ataLock false a b) = [] := fun _ _ => rfl
  by_cases hp : p.IsChange
  · simp only [clickwheelThread, if_pos hp, changePacket, locks_append, locks_buttonEvents,
      locks_wheel, List.nil_append, hlock]
  · simp only [clickwheelThread, if_neg hp, locks_append, hlock]
    split <;> rfl

/-! ## Runs -/

theorem step_eq (h : step classic s p = some (t, o)) :
    t = (clickwheelThread s p classic).1 ∧ o = (clickwheelThread s p classic).2 := by
  cases h
  exact ⟨rfl, rfl⟩

/-- The events for each button alternate, and so do the calls for the lock. -/
structure Alternating (es : List (State × Packet × List Output)) : Prop where
  presses : ∀ i < 5, Alternates true (es.flatMap fun e => presses i e.2.2)
  locks : Alternates true (es.flatMap fun e => locks e.2.2)

/-- A change packet that changes buttons finds them remembered as the change packets before it have
left them. -/
def Faithful (es : List (State × Packet × List Output)) : Prop :=
  ∀ pre e post, es = pre ++ e :: post → ∀ i < 5, Changes i e.1 e.2.1 →
    e.1.oldbuttons.getLsbD i = told i pre

theorem locks_run (h : Lts.Runs (step classic) (fun _ _ => True) init es t) :
    Alternates true (es.flatMap fun e => locks e.2.2) := by
  cases classic with
  | false =>
    refine h.invariant_trace (I := fun es _ => Alternates true (es.flatMap fun e => locks e.2.2))
      trivial ?_
    rintro es s p t o hes - hstep
    obtain ⟨-, rfl⟩ := step_eq hstep
    simpa [locks_thread_false] using hes
  | true =>
    -- the lock is held as long as both buttons are remembered
    have hall := h.invariant_trace (I := fun es s =>
      Alternates true (es.flatMap fun e => locks e.2.2) ∧
        expected true (es.flatMap fun e => locks e.2.2) = decide (s.oldbuttons ≠ 0x11))
      ⟨trivial, rfl⟩ (by
        rintro es s p t o ⟨halt, hexp⟩ - hstep
        obtain ⟨rfl, rfl⟩ := step_eq hstep
        simp only [List.flatMap_append, List.flatMap_singleton, alternates_append, expected_append,
          hexp, locks_thread, clickwheelThread_oldbuttons]
        by_cases hnew : p.newbuttons = 17#32 <;> by_cases hold : s.oldbuttons = 17#32 <;>
          simp [hnew, hold, halt, Alternates, expected])
    exact hall.1

/-- The events for a button alternate if each finds the state that the last one told, and then the next
one is the other. -/
theorem presses_run (hi : i < 5) (h : Lts.Runs (step classic) (fun _ _ => True) init es t) :
    (Alternates true (es.flatMap fun e => presses i e.2.2) ↔
      ∀ pre e post, es = pre ++ e :: post → Changes i e.1 e.2.1 →
        e.1.oldbuttons.getLsbD i = told i pre) ∧
    (Alternates true (es.flatMap fun e => presses i e.2.2) →
      expected true (es.flatMap fun e => presses i e.2.2) = !told i es) := by
  induction h with
  | refl => simp [Alternates, expected, told]
  | @tail es s t p o _ _ hstep ih =>
    obtain ⟨rfl, rfl⟩ := step_eq hstep
    obtain ⟨ihalt, ihexp⟩ := ih
    rw [Lts.forall_splits_append]
    simp only [List.flatMap_append, List.flatMap_singleton, alternates_append, expected_append,
      presses_thread hi, ← ihalt, told_append]
    by_cases hc : Changes i s p
    · have hne := hc.2
      simp only [hc, if_true, true_imp_iff, alternates_singleton]
      refine ⟨and_congr_right fun halt => ?_, fun ⟨halt, heq⟩ => ?_⟩
      · rw [ihexp halt]
        cases s.oldbuttons.getLsbD i <;> cases told i es <;> simp
      · rw [← heq]
        revert hne
        cases s.oldbuttons.getLsbD i <;> cases p.newbuttons.getLsbD i <;> simp [expected]
    · simp only [hc, if_false, false_imp_iff, alternates_nil, and_true, true_and]
      exact ihexp

/-- For every run. -/
theorem presses_iff (h : Lts.Runs (step classic) (fun _ _ => True) init es t) :
    Alternating es ↔ Faithful es := by
  constructor
  · intro halt pre e post heq i hi
    exact (presses_run hi h).1.1 (halt.presses i hi) pre e post heq
  · intro hall
    refine ⟨fun i hi => (presses_run hi h).1.2 fun pre e post heq => ?_, locks_run h⟩
    exact hall pre e post heq i hi

def packet (data : BitVec 32) : Packet := ⟨data, 10000, 0⟩

/-- Button 4 is pressed and released. -/
theorem presses_once : ∃ es t, Lts.Runs (step true) (fun _ _ => True) init es t ∧
    (es.flatMap fun e => presses 4 e.2.2) = [true, false] ∧ Alternating es := by
  have hone : Lts.Runs (step true) (fun _ _ => True) init
      ([] ++ [(init, packet 0x8000101a, (clickwheelThread init (packet 0x8000101a) true).2)])
      (clickwheelThread init (packet 0x8000101a) true).1 := .tail .refl trivial rfl
  generalize hs : (clickwheelThread init (packet 0x8000101a) true).1 = s at hone
  have htwo : Lts.Runs (step true) (fun _ _ => True) init
      ([] ++ [(init, packet 0x8000101a, (clickwheelThread init (packet 0x8000101a) true).2)] ++
        [(s, packet 0x8000001a, (clickwheelThread s (packet 0x8000001a) true).2)])
      (clickwheelThread s (packet 0x8000001a) true).1 := .tail hone trivial rfl
  refine ⟨_, _, htwo, ?_, (presses_iff htwo).2 ?_⟩
  · subst hs
    decide
  · rw [Faithful, Lts.forall_splits_append, Lts.forall_splits_append]
    refine ⟨⟨fun pre e post heq => absurd heq (by simp), ?_⟩, ?_⟩
    · decide
    · subst hs
      decide

/-- An init packet without buttons leaves button 1 remembered, and the next change packet releases it. -/
theorem releases_first : ¬ ∀ es t, Lts.Runs (step false) (fun _ _ => True) init es t →
    Alternating es := by
  intro h
  have htrace : (Lts.trace (step false) init [packet 0x8000023a, packet 0x8000001a]).map (fun r =>
      r.1.flatMap fun e => presses 1 e.2.2) = some [false] := by decide
  obtain ⟨⟨es, t⟩, hr, hpresses⟩ := Option.map_eq_some_iff.1 htrace
  have halt := (h es t (Lts.trace_runs hr fun _ _ _ => trivial)).presses 1 (by decide)
  rw [show (es.flatMap fun e => presses 1 e.2.2) = [false] from hpresses, alternates_singleton] at halt
  cases halt

end Clickwheel
end Button
end Freemyipod
