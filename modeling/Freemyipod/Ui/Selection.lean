import Mathlib.Tactic.Linarith
import Freemyipod.Ui.Chooser

/-!
# Ui.Selection

The item that is selected in a list, against the position of the wheel.

* `Data.selected_prev`, `Data.selected_next`: a button selects the item beside the one that is selected.
* `OnItem.handleEvent`: an event keeps the position on the item that is selected.
* `selection_iff`: for all runs, when that is so all the time. The item that a list starts with is not
  checked, and a list that times out selects an item without moving to it.
-/

namespace Freemyipod
namespace Ui

open Button (ButtonEvent)

variable {U : Type} {info : Info U} {d : Data} {u : U}

/-! ## Positions -/

theorem and_not_mask (x : BitVec 32) (k : Nat) :
    x &&& ~~~ BitVec.ofNat 32 (2 ^ k - 1) = (x >>> k) <<< k := by
  apply BitVec.eq_of_getLsbD_eq
  intro i hi
  simp only [BitVec.getLsbD_and, BitVec.getLsbD_not, BitVec.getLsbD_ofNat,
    Nat.testBit_two_pow_sub_one, BitVec.getLsbD_shiftLeft, BitVec.getLsbD_ushiftRight, hi,
    decide_true, Bool.true_and]
  by_cases h : i < k
  · simp [h]
  · have hki : k + (i - k) = i := by omega
    simp [h, hki]

theorem roundDown_eq {p : Int} {k : Nat} (h0 : 0 ≤ p) (h1 : p < 2 ^ 31) :
    roundDown p (2 ^ k) = p - p % 2 ^ k := by
  obtain ⟨n, rfl⟩ := Int.eq_ofNat_of_zero_le h0
  have hn : n < 2 ^ 31 := by exact_mod_cast h1
  have hmask : ((2 : Int) ^ k - 1) = ((2 ^ k - 1 : Nat) : Int) := by
    rw [Nat.cast_sub Nat.one_le_two_pow]
    simp
  have hle : n / 2 ^ k * 2 ^ k ≤ n := Nat.div_mul_le_self n (2 ^ k)
  have hmod : n % 2 ^ k = n - n / 2 ^ k * 2 ^ k := by
    have hdiv := Nat.div_add_mod n (2 ^ k)
    rw [Nat.mul_comm] at hdiv
    omega
  have hval : (BitVec.ofNat 32 n &&& ~~~ BitVec.ofNat 32 (2 ^ k - 1)).toNat =
      n / 2 ^ k * 2 ^ k := by
    rw [and_not_mask, BitVec.toNat_shiftLeft, BitVec.toNat_ushiftRight, Nat.shiftLeft_eq,
      Nat.shiftRight_eq_div_pow, BitVec.toNat_ofNat, Nat.mod_eq_of_lt (show n < 2 ^ 32 by omega)]
    exact Nat.mod_eq_of_lt (by omega)
  rw [roundDown, hmask, BitVec.ofInt_natCast, BitVec.ofInt_natCast,
    BitVec.toInt_eq_toNat_of_lt (by rw [hval]; omega), hval]
  have hcast : ((n : Int) % 2 ^ k) = ((n % 2 ^ k : Nat) : Int) := by push_cast; rfl
  rw [hcast, hmod]
  omega

theorem wrap_eq {x : Int} (hl : -2 ^ 31 ≤ x) (hu : x < 2 ^ 31) : wrap x = x := by
  rw [wrap, Int.bmod_def]
  split <;> omega

/-- What a list is given. -/
structure Valid (info : Info U) : Prop where
  itemcount : 1 ≤ info.itemcount
  defaultitem : 0 ≤ info.defaultitem
  timeoutItem : info.params.timeoutItem = TIMEOUT_ITEM_NULL ∨
    info.params.timeoutItem = TIMEOUT_ITEM_KEEP ∨
    0 ≤ info.params.timeoutItem ∧ info.params.timeoutItem < info.itemcount
  steps : ∃ k : Nat, 1 ≤ k ∧ info.params.stepsperitem = 2 ^ k
  small : info.itemcount * info.params.stepsperitem < 2 ^ 30

/-- The position lies on an item, and that item is selected. -/
structure OnItem (info : Info U) (d : Data) : Prop where
  nonneg : 0 ≤ d.position
  lt : d.position < info.itemcount * info.params.stepsperitem
  selected : d.selected = d.position.tdiv info.params.stepsperitem

theorem Valid.two_le (hv : Valid info) : 2 ≤ info.params.stepsperitem := by
  obtain ⟨k, hk, heq⟩ := hv.steps
  have hpow : 2 ^ 1 ≤ 2 ^ k := Nat.pow_le_pow_right (by decide) hk
  rw [heq]
  exact_mod_cast hpow

theorem Valid.le_mul (hv : Valid info) :
    info.params.stepsperitem ≤ info.itemcount * info.params.stepsperitem := by
  nlinarith [hv.itemcount, hv.two_le]

/-- A position on item `i` of steps that `spi` of make an item. -/
theorem tdiv_eq {p spi i : Int} (h0 : 0 ≤ p) (hs : 0 < spi) (hl : i * spi ≤ p)
    (hu : p < i * spi + spi) : p.tdiv spi = i := by
  rw [Int.tdiv_eq_ediv_of_nonneg h0]
  exact (Int.ediv_eq_iff_of_pos hs).2 ⟨hl, hu⟩

theorem OnItem.selected_range (hv : Valid info) (h : OnItem info d) :
    0 ≤ d.selected ∧ d.selected < info.itemcount := by
  have hs := hv.two_le
  rw [h.selected, Int.tdiv_eq_ediv_of_nonneg h.nonneg]
  exact ⟨Int.ediv_nonneg h.nonneg (by omega), Int.ediv_lt_of_lt_mul (by omega) h.lt⟩

theorem OnItem.moveTo {p : Int} (h0 : 0 ≤ p) (h1 : p < info.itemcount * info.params.stepsperitem) :
    OnItem info (d.moveTo info.params.stepsperitem p) :=
  ⟨h0, h1, rfl⟩

theorem OnItem.prev (hv : Valid info) :
    OnItem info (d.prev info.itemcount info.params.stepsperitem) := by
  have hs := hv.two_le
  have hle := hv.le_mul
  refine OnItem.moveTo ?_ ?_ <;> omega

theorem OnItem.next (hv : Valid info) :
    OnItem info (d.next info.itemcount info.params.stepsperitem) := by
  have hs := hv.two_le
  have hle := hv.le_mul
  refine OnItem.moveTo ?_ ?_ <;> omega

theorem OnItem.move (hv : Valid info) {value : Int} :
    OnItem info (d.move info.itemcount info.params.stepsperitem value) := by
  have hs := hv.two_le
  have hle := hv.le_mul
  refine OnItem.moveTo ?_ ?_ <;> omega

/-- Where the item begins on which the position lies. -/
theorem OnItem.roundDown_eq (hv : Valid info) (h : OnItem info d) :
    roundDown d.position info.params.stepsperitem =
      d.selected * info.params.stepsperitem := by
  obtain ⟨k, -, heq⟩ := hv.steps
  have hsmall := hv.small
  have hlt := h.lt
  rw [h.selected, Int.tdiv_eq_ediv_of_nonneg h.nonneg, heq,
    Ui.roundDown_eq h.nonneg (by omega)]
  have hdiv := Int.mul_ediv_add_emod d.position (2 ^ k)
  linarith

/-- The button selects the item before, if there is one. -/
theorem Data.selected_prev (hv : Valid info) (h : OnItem info d) :
    (d.prev info.itemcount info.params.stepsperitem).selected = max 0 (d.selected - 1) := by
  have hs := hv.two_le
  obtain ⟨h0, h1⟩ := h.selected_range hv
  have hle : d.selected * info.params.stepsperitem ≤
      info.itemcount * info.params.stepsperitem := by nlinarith
  have hmul : info.params.stepsperitem ≤ info.itemcount * info.params.stepsperitem := hv.le_mul
  rw [Data.prev, Data.moveTo, h.roundDown_eq hv]
  by_cases hzero : d.selected = 0
  · refine tdiv_eq ?_ (by omega) ?_ ?_ <;> rw [hzero] <;> simp <;> omega
  · have hone : info.params.stepsperitem ≤ d.selected * info.params.stepsperitem := by
      nlinarith [show 1 ≤ d.selected by omega]
    have hmax : max 0 (d.selected - 1) = d.selected - 1 := by omega
    rw [max_eq_right hone, min_eq_right hle, hmax]
    refine tdiv_eq ?_ (by omega) ?_ ?_
    · omega
    · rw [Int.sub_mul]
      omega
    · rw [Int.sub_mul]
      omega

/-- The button selects the next item, if there is one. -/
theorem Data.selected_next (hv : Valid info) (h : OnItem info d) :
    (d.next info.itemcount info.params.stepsperitem).selected =
      min (info.itemcount - 1) (d.selected + 1) := by
  have hs := hv.two_le
  have hsmall := hv.small
  obtain ⟨h0, h1⟩ := h.selected_range hv
  have hmul := hv.le_mul
  have hle : 0 ≤ d.selected * info.params.stepsperitem := by nlinarith
  have hlt : d.selected * info.params.stepsperitem + info.params.stepsperitem ≤
      info.itemcount * info.params.stepsperitem := by nlinarith
  rw [Data.next, Data.moveTo, h.roundDown_eq hv, wrap_eq (by omega) (by omega)]
  by_cases hlast : d.selected = info.itemcount - 1
  · refine tdiv_eq ?_ (by omega) ?_ ?_ <;> rw [hlast] <;> simp [Int.sub_mul] <;> omega
  · have hnext : (d.selected + 2) * info.params.stepsperitem ≤
        info.itemcount * info.params.stepsperitem := by
      nlinarith [show d.selected + 2 ≤ info.itemcount by omega]
    have hmin : min (info.itemcount - 1) (d.selected + 1) = d.selected + 1 := by omega
    rw [max_eq_right (by omega), min_eq_right (by linarith), hmin]
    refine tdiv_eq ?_ (by omega) ?_ ?_
    · omega
    · rw [Int.add_mul]
      omega
    · rw [Int.add_mul]
      omega

/-! ## Events and turns -/

/-- Only the position and the selected item matter. -/
theorem OnItem.congr {d' : Data} (h : OnItem info d) (hpos : d'.position = d.position)
    (hsel : d'.selected = d.selected) : OnItem info d' :=
  ⟨hpos ▸ h.nonneg, hpos ▸ h.lt, by rw [hsel, hpos, h.selected]⟩

theorem OnItem.act (hv : Valid info) (h : OnItem info d) {action : Option Action} {value : Int} :
    OnItem info (act info d action value).1 := by
  cases action with
  | none => exact h
  | some action =>
    cases action with
    | none => exact OnItem.move hv
    | prev => exact OnItem.prev hv
    | next => exact OnItem.next hv
    | select => exact h
    | cancel => exact h

theorem OnItem.handleEvent (hv : Valid info) (h : OnItem info d) {event : ButtonEvent} {which : Nat}
    {value : Int} : OnItem info (handleEvent info d u event which value).1 := by
  by_cases hf : (filter info d u event which value).handled
  · simp only [Ui.handleEvent, hf, if_true]
    exact h.congr rfl rfl
  · simp only [Ui.handleEvent, hf, if_false, Bool.false_eq_true]
    refine OnItem.act hv ?_
    exact h.congr rfl rfl

theorem OnItem.buttonHandler (hv : Valid info) (h : OnItem info d) {event : ButtonEvent}
    {which : Nat} {value : Int} : OnItem info (buttonHandler info d u event which value).1 := by
  have hevent : OnItem info (Ui.handleEvent info d u event which value).1 := h.handleEvent hv
  unfold Ui.buttonHandler
  split <;> rename_i heq <;> rw [heq] at hevent
  · exact hevent.congr rfl rfl
  · exact hevent.congr rfl rfl
  · exact hevent.congr rfl rfl
  · exact hevent

/-- What the handler of the buttons changes besides the flags is what the action handler changes. -/
theorem buttonHandler_eq {event : ButtonEvent} {which : Nat} {value : Int} :
    (buttonHandler info d u event which value).1.selected =
        (Ui.handleEvent info d u event which value).1.selected ∧
      (buttonHandler info d u event which value).1.timeoutRemaining =
        (Ui.handleEvent info d u event which value).1.timeoutRemaining ∧
      (buttonHandler info d u event which value).2 =
        (Ui.handleEvent info d u event which value).2.1 := by
  unfold Ui.buttonHandler
  split <;> rename_i heq <;> rw [heq] <;> exact ⟨rfl, rfl, rfl⟩

theorem act_timeoutRemaining {action : Option Action} {value : Int} :
    (act info d action value).1.timeoutRemaining = d.timeoutRemaining := by
  cases action with
  | none => rfl
  | some action => cases action <;> rfl

/-- The filter sees every event, and no other function gets at its state. -/
theorem buttonHandler_user {event : ButtonEvent} {which : Nat} {value : Int} :
    (buttonHandler info d u event which value).2 = (filter info d u event which value).user := by
  rw [buttonHandler_eq.2.2, Ui.handleEvent]
  split <;> rfl

/-- An event that the filter handles, or that has no action, selects nothing. -/
theorem buttonHandler_selected {event : ButtonEvent} {which : Nat} {value : Int}
    (h : (filter info d u event which value).handled = true ∨ actionOf info event which = none) :
    (buttonHandler info d u event which value).1.selected = d.selected := by
  rw [buttonHandler_eq.1]
  by_cases hf : (filter info d u event which value).handled = true
  · simp only [Ui.handleEvent, hf, if_true]
  · simp only [Ui.handleEvent, hf, h.resolve_left hf, if_false, Bool.false_eq_true]
    rfl

theorem buttonHandler_timeoutRemaining {event : ButtonEvent} {which : Nat} {value : Int}
    (h : d.timeoutRemaining = info.params.timeoutIdle) :
    (buttonHandler info d u event which value).1.timeoutRemaining = info.params.timeoutIdle := by
  rw [buttonHandler_eq.2.1]
  by_cases hf : (filter info d u event which value).handled = true
  · simp only [Ui.handleEvent, hf, if_true, h]
  · simp only [Ui.handleEvent, hf, if_false, Bool.false_eq_true, act_timeoutRemaining]

/-- A list that never times out. -/
theorem poll_of_block (h : d.timeoutRemaining = TIMEOUT_BLOCK) {due : Bool} {time : Int} :
    poll info d due time =
      if d.canceled then (d, some none)
      else if d.finished then (d, some (some d.selected))
      else ({ d with redrawneeded := false }, none) := by
  have htick : handleTick info d time = (d, .redraw) ∨ handleTick info d time = (d, .ok) := by
    rw [handleTick, if_pos h]
    cases info.params.tickForceRedraw
    · exact .inr rfl
    · exact .inl rfl
  unfold poll
  split_ifs with hc hf hdue
  · rfl
  · rfl
  · rcases htick with htick | htick <;> rw [htick]
  · rfl

/-- In this turn the list selects an item because nothing has happened for too long. -/
def TimesOut (info : Info U) (d : Data) (due : Bool) (time : Int) : Prop :=
  d.canceled = false ∧ d.finished = false ∧ due = true ∧ d.timeoutRemaining ≠ TIMEOUT_BLOCK ∧
    remaining d time < 0 ∧ info.params.timeoutItem ≠ TIMEOUT_ITEM_NULL ∧
    info.params.timeoutItem ≠ TIMEOUT_ITEM_KEEP

theorem poll_of_timesOut {due : Bool} {time : Int} (h : TimesOut info d due time) :
    (poll info d due time).1.position = d.position ∧
      (poll info d due time).1.selected = info.params.timeoutItem ∧
      (poll info d due time).2 = some (some info.params.timeoutItem) := by
  obtain ⟨hc, hf, hdue, hblock, hneg, hnull, hkeep⟩ := h
  simp [poll, handleTick, hc, hf, hdue, hblock, hneg, hnull, hkeep]

theorem poll_of_not_timesOut {due : Bool} {time : Int} (h : ¬ TimesOut info d due time) :
    (poll info d due time).1.position = d.position ∧
      (poll info d due time).1.selected = d.selected ∧
      ∀ i, (poll info d due time).2 = some (some i) → i = d.selected := by
  by_cases hc : d.canceled
  · simp [poll, hc]
  by_cases hf : d.finished
  · simp [poll, hc, hf, eq_comm]
  by_cases hdue : due
  · by_cases hblock : d.timeoutRemaining = TIMEOUT_BLOCK
    · cases hforce : info.params.tickForceRedraw <;>
        simp [poll, handleTick, hc, hf, hdue, hblock, hforce]
    by_cases hneg : remaining d time < 0
    · by_cases hnull : info.params.timeoutItem = TIMEOUT_ITEM_NULL
      · simp [poll, handleTick, hc, hf, hdue, hblock, hneg, hnull]
      · have hkeep : info.params.timeoutItem = TIMEOUT_ITEM_KEEP := by
          by_contra hne
          exact h ⟨by simpa using hc, by simpa using hf, hdue, hblock, hneg, hnull, hne⟩
        simp [poll, handleTick, hc, hf, hdue, hblock, hneg, hkeep, TIMEOUT_ITEM_NULL,
          TIMEOUT_ITEM_KEEP, eq_comm]
    · cases hforce : info.params.tickForceRedraw <;>
        simp [poll, handleTick, hc, hf, hdue, hblock, hneg, hforce]
  · simp [poll, hc, hf, hdue]

/-! ## Runs -/

/-- `chooser_run` in its loop, or when it has returned. -/
inductive State (U : Type)
  | running (d : Data) (u : U)
  | returned (d : Data) (rc : Option Int)

inductive Input
  | event (event : ButtonEvent) (which : Nat) (value : Int)
  | turn (due : Bool) (time : Int)

def step (info : Info U) : State U → Input → Option (State U × Unit)
  | .running d u, .event event which value =>
    let r := buttonHandler info d u event which value
    some (.running r.1 r.2, ())
  | .running d u, .turn due time =>
    match poll info d due time with
    | (d, none) => some (.running d u, ())
    | (d, some rc) => some (.returned d rc, ())
  | .returned .., _ => none

def Legal : State U → Input → Prop
  | _, .event _ _ value => -2 ^ 30 < value ∧ value < 2 ^ 30
  | _, .turn .. => True

/-- The position lies on the selected item, and what is returned is an item if it is not `NULL`. -/
def Good (info : Info U) : State U → Prop
  | .running d _ => OnItem info d
  | .returned d rc => OnItem info d ∧ ∀ i, rc = some i → 0 ≤ i ∧ i < info.itemcount

/-- If the list times out to an item, the position lies on it. -/
def Fits (info : Info U) : State U → Input → Prop
  | .running d _, .turn due time =>
    TimesOut info d due time →
      info.params.timeoutItem = d.position.tdiv info.params.stepsperitem
  | _, _ => True

theorem good_step (hv : Valid info) {s t : State U} {x : Input} {o : Unit} (hgood : Good info s)
    (hstep : step info s x = some (t, o)) : Good info t ↔ Fits info s x := by
  cases s with
  | returned d rc => cases x <;> cases hstep
  | running d u =>
    have hitem : OnItem info d := hgood
    cases x with
    | event event which value =>
      cases hstep
      exact iff_of_true (hitem.buttonHandler hv) trivial
    | turn due time =>
      by_cases hout : TimesOut info d due time
      · obtain ⟨hpos, hsel, hrc⟩ := poll_of_timesOut hout
        have hfits : Fits info (.running d u) (.turn due time) ↔
            info.params.timeoutItem = d.position.tdiv info.params.stepsperitem :=
          ⟨fun h => h hout, fun h _ => h⟩
        rw [hfits]
        simp only [step] at hstep
        split at hstep <;> rename_i heq <;> cases hstep <;> rw [heq] at hpos hsel hrc
        · cases hrc
        · constructor
          · intro h
            rw [← hsel, h.1.selected, hpos]
          · intro h
            refine ⟨⟨hpos ▸ hitem.nonneg, hpos ▸ hitem.lt, by rw [hsel, hpos, h]⟩, ?_⟩
            intro i hi
            cases Option.some.inj hrc
            cases hi
            rw [h, ← hitem.selected]
            exact hitem.selected_range hv
      · obtain ⟨hpos, hsel, hrc⟩ := poll_of_not_timesOut hout
        refine iff_of_true ?_ fun h => absurd h hout
        simp only [step] at hstep
        split at hstep <;> rename_i heq <;> cases hstep <;> rw [heq] at hpos hsel hrc
        · exact hitem.congr hpos hsel
        · refine ⟨hitem.congr hpos hsel, fun i hi => ?_⟩
          rw [hrc i (by rw [hi])]
          exact hitem.selected_range hv

theorem chooserStart_eq {start : Start} (h : chooserStart info start = some d) :
    d.selected = info.defaultitem ∧
      d.position = wrap (info.defaultitem * info.params.stepsperitem +
        info.params.stepsperitem / 2) ∧
      d.timeoutRemaining = info.params.timeoutInitial := by
  simp only [chooserStart, wheelInit] at h
  split_ifs at h
  all_goals
    cases h
    exact ⟨rfl, rfl, rfl⟩

theorem good_start (hv : Valid info) {start : Start} (h : chooserStart info start = some d) :
    Good info (.running d u) ↔ info.defaultitem < info.itemcount := by
  obtain ⟨hsel, hpos, -⟩ := chooserStart_eq h
  constructor
  · intro hgood
    rw [← hsel]
    exact (OnItem.selected_range hv hgood).2
  · intro hlt
    have hs := hv.two_le
    have hsmall := hv.small
    have h0 := hv.defaultitem
    have hmul : info.defaultitem * info.params.stepsperitem + info.params.stepsperitem ≤
        info.itemcount * info.params.stepsperitem := by nlinarith
    have hnonneg : 0 ≤ info.defaultitem * info.params.stepsperitem := by nlinarith
    rw [wrap_eq (by omega) (by omega)] at hpos
    refine ⟨by omega, by omega, ?_⟩
    rw [hsel, tdiv_eq (i := info.defaultitem) (by omega) (by omega) (by omega) (by omega)]

/-- For all runs. -/
theorem selection_iff (hv : Valid info) {start : Start} (hstart : chooserStart info start = some d)
    {es : List (State U × Input × Unit)} {s : State U}
    (h : Lts.Runs (step info) Legal (.running d u) es s) :
    ((∀ e ∈ es, Good info e.1) ∧ Good info s) ↔
      info.defaultitem < info.itemcount ∧ ∀ e ∈ es, Fits info e.1 e.2.1 := by
  rw [← good_start (u := u) hv hstart]
  by_cases hgood : Good info (.running d u)
  · rw [and_iff_right hgood]
    exact h.forall_iff (I := fun _ => True) trivial hgood fun x b y p _ hs =>
      ⟨trivial, fun hx => good_step hv hx hs⟩
  · have hno : ¬ ((∀ e ∈ es, Good info e.1) ∧ Good info s) := fun hall =>
      hgood (h.start hall.1 hall.2)
    exact iff_of_false hno fun hboth => hgood hboth.1

/-- A list of three items that starts with the item `defaultitem`, and the buttons select, next and
previous. -/
def list (defaultitem : Int) : Info Unit where
  version := 1
  params :=
    { version := 1, stepsperitem := 128, eventfilter := none
      timeoutInitial := TIMEOUT_BLOCK, timeoutIdle := 1000000, timeoutItem := TIMEOUT_ITEM_KEEP
      tickForceRedraw := false, buttonmap := [.select, .next, .prev] }
  renderer := some 1
  itemcount := 3
  defaultitem := defaultitem

def start : Start := ⟨true, 0, 0, true⟩

/-- The list as it starts, after the checks. -/
def started (defaultitem : Int) : Data where
  selected := defaultitem
  position := wrap (defaultitem * 128 + 64)
  redrawneeded := false
  finished := false
  canceled := false
  timeoutRemaining := TIMEOUT_BLOCK
  lasttick := 0

theorem list_start (i : Int) : chooserStart (list i) start = some (started i) := rfl

theorem list_valid {i : Int} (h : 0 ≤ i) : Valid (list i) where
  itemcount := by simp [list]
  defaultitem := h
  timeoutItem := .inr (.inl rfl)
  steps := ⟨7, by decide, rfl⟩
  small := by simp [list]

/-- Button 1 selects the last item, and no time runs out. -/
theorem selects_last : ∃ es d, Lts.Runs (step (list 1)) Legal (.running (started 1) ()) es
    (.running d ()) ∧ d.selected = 2 ∧ (∀ e ∈ es, Good (list 1) e.1) ∧
      Good (list 1) (.running d ()) := by
  have hlegal : Legal (.running (started 1) ()) (.event .buttonPress 1 0) := by simp [Legal]
  have hrun : Lts.Runs (step (list 1)) Legal (.running (started 1) ())
      [(.running (started 1) (), .event .buttonPress 1 0, ())] _ := .single hlegal rfl
  refine ⟨_, _, hrun, by decide,
    (selection_iff (list_valid (by decide)) (list_start 1) hrun).2 ⟨by decide, ?_⟩⟩
  simp [Fits]

/-- A list of three items that starts with item 3 has it selected. -/
theorem starts_outside : ¬ ∀ (U : Type) (info : Info U) (_ : Valid info) (start : Start) (d : Data)
    (u : U), chooserStart info start = some d → ∀ es s,
      Lts.Runs (step info) Legal (.running d u) es s →
        (∀ e ∈ es, Good info e.1) ∧ Good info s := by
  intro h
  have hgood := (h Unit (list 3) (list_valid (by decide)) start (started 3) () (list_start 3) _ _
    .refl).2
  have hlt := (OnItem.selected_range (list_valid (by decide)) hgood).2
  exact absurd hlt (by decide)

end Ui
end Freemyipod
