import Freemyipod.Ui.Settingchooser

/-!
# Ui.SettingRuns

Runs of `settingchooser_run`.

* `edit_misread`, `adjust_values`: what the filter reads, and what it does to the settings.
* `Inv`, `inv_step`: every setting has a value that it can have, whatever the filter reads.
* `fine_step`: which steps leave the filter without a type of something that is no setting.
* `settings_iff`: for all runs, when that never happens, and what is returned is whether a setting has
  changed.
-/

namespace Freemyipod
namespace Ui
namespace Settingchooser

open Button (ButtonEvent)

variable {c : Settings} {looks : Pointee → Bool} {u : Store} {p : Pointee} {event : ButtonEvent}
  {which : Nat} {value : Int} {d : Data}

/-! ## The filter -/

/-- The filter reads the type. -/
def Reads (u : Store) (event : ButtonEvent) (which : Nat) : Prop :=
  event = .buttonPress ∧ which ≤ 1 ∨ event = .wheelMovedAccel ∧ u.editing = true

@[simp] theorem readType_values : (u.readType p).values = u.values := by cases p <;> rfl
@[simp] theorem readType_changed : (u.readType p).changed = u.changed := by cases p <;> rfl
@[simp] theorem readType_wild : (u.readType p).wild = u.wild := by cases p <;> rfl
@[simp] theorem readType_editing : (u.readType p).editing = u.editing := by cases p <;> rfl

theorem readType_misread :
    (u.readType p).misread = true ↔ u.misread = true ∨ ∀ i, p ≠ .item i := by
  cases p <;> simp [Store.readType]

theorem edit_values : (edit c looks u p event which value).user.values = u.values := by
  unfold edit
  repeat' split
  all_goals simp

theorem edit_changed : (edit c looks u p event which value).user.changed = u.changed := by
  unfold edit
  repeat' split
  all_goals simp

theorem edit_wild : (edit c looks u p event which value).user.wild = u.wild := by
  unfold edit
  repeat' split
  all_goals simp

theorem edit_misread : (edit c looks u p event which value).user.misread = true ↔
    u.misread = true ∨ Reads u event which ∧ ∀ i, p ≠ .item i := by
  cases event with
  | buttonPress =>
    by_cases hw : which ≤ 1
    · obtain rfl | rfl : which = 0 ∨ which = 1 := by omega
      all_goals by_cases hi : isInteger c looks p <;> simp [edit, hi, Reads, readType_misread]
    · have hno : ¬ Reads u .buttonPress which := by simp [Reads, hw]
      simp only [hno, false_and, or_false]
      unfold edit
      repeat' split
      all_goals simp_all
  | wheelMovedAccel =>
    by_cases he : u.editing
    · by_cases hi : isInteger c looks p <;> simp [edit, he, hi, Reads, readType_misread]
    · simp [edit, he, Reads]
  | _ => simp [edit, Reads]

/-- Only while a setting is edited does anything turn it. -/
theorem edit_change (h : (edit c looks u p event which value).change ≠ 0) : u.editing = true := by
  revert h
  unfold edit
  repeat' split
  all_goals simp_all

/-- An event that is left to the list, and moves it, is one that comes while nothing is edited. -/
theorem edit_not_handled (h : (edit c looks u p event which value).handled = false)
    (he : u.editing = true → isInteger c looks p = true)
    (hmoves : actionOf (mainInfo c looks 0) event which ≠ none) :
    (edit c looks u p event which value).user.editing = false := by
  revert h
  cases event with
  | buttonPress =>
    unfold edit
    repeat' split
    all_goals simp_all
  | wheelMovedAccel =>
    unfold edit
    repeat' split
    all_goals simp_all
  | _ => exact absurd rfl hmoves

/-- What an event that is handled leaves edited is a setting. -/
theorem edit_handled (he : u.editing = true → isInteger c looks p = true)
    (h : (edit c looks u p event which value).user.editing = true) : isInteger c looks p = true := by
  revert h
  unfold edit
  repeat' split
  all_goals simp_all

/-- Nothing else than buttons 0 and 1 lets a setting be edited. -/
theorem edit_editing (hno : ¬ (event = .buttonPress ∧ which ≤ 1))
    (h : (edit c looks u p event which value).user.editing = true) : u.editing = true := by
  revert h hno
  unfold edit
  repeat' split
  all_goals simp_all

/-- The event turns a setting. -/
def Turned (c : Settings) (looks : Pointee → Bool) (u : Store) (p : Pointee) (event : ButtonEvent)
    (which : Nat) (value : Int) : Prop :=
  ∃ i min max step validator, p = .item i ∧ c.items[i]? = some ⟨.integer min max step, validator⟩ ∧
    (edit c looks u p event which value).change ≠ 0 ∧
    turns (edit c looks u p event which value).user step
      (edit c looks u p event which value).change ≠ 0

/-- What a setting can be. -/
def InBounds : Config → Int → Prop
  | .integer min max _, x => min ≤ x ∧ x ≤ max
  | .select optioncount, x => 0 ≤ x ∧ x < optioncount

def ValuesOk (c : Settings) (values : Nat → Int) : Prop :=
  ∀ i item, c.items[i]? = some item → InBounds item.config (values i)

/-- The validators keep what a setting can be, and the lists are as short as the memory makes them. -/
structure Wf (c : Settings) : Prop where
  validator : ∀ item ∈ c.items, ∀ x, InBounds item.config x →
    InBounds item.config (validate item.validator x)
  small : ((c.items.length : Int) + 1) * 128 < 2 ^ 30
  optioncount : ∀ item ∈ c.items, ∀ n, item.config = .select n → (n + 1) * 128 < 2 ^ 30

theorem clamp_inBounds {min max setting n : Int} (h : min ≤ max) :
    min ≤ clamp min max setting n ∧ clamp min max setting n ≤ max := by
  unfold clamp
  split_ifs <;> omega

theorem ValuesOk.update {values : Nat → Int} (h : ValuesOk c values) {i : Nat} {x : Int}
    (hx : ∀ item, c.items[i]? = some item → InBounds item.config x) :
    ValuesOk c (Function.update values i x) := by
  intro j item hj
  by_cases hji : j = i
  · subst hji
    rw [Function.update_self]
    exact hx item hj
  · rw [Function.update_of_ne hji]
    exact h j item hj

theorem adjust_values (hwf : Wf c) (h : ValuesOk c u.values) {change : Int} :
    ValuesOk c (adjust c u p change).1.values := by
  unfold adjust
  split
  · rename_i i
    split
    · rename_i min max step validator heq
      dsimp only
      split_ifs
      · refine h.update fun item hitem => ?_
        rw [heq] at hitem
        cases hitem
        have hnow := h i _ heq
        exact hwf.validator _ (List.mem_of_getElem? heq) _ (clamp_inBounds (hnow.1.trans hnow.2))
      · exact h
    · exact h
  · exact h

theorem adjust_misread {change : Int} : (adjust c u p change).1.misread = u.misread := by
  unfold adjust
  repeat' split
  all_goals (dsimp only; try split_ifs)
  all_goals rfl

theorem adjust_editing {change : Int} : (adjust c u p change).1.editing = u.editing := by
  unfold adjust
  repeat' split
  all_goals (dsimp only; try split_ifs)
  all_goals rfl

/-- It points to an integer setting. -/
def IntegerAt (c : Settings) (p : Pointee) : Prop :=
  ∃ i min max step validator, p = .item i ∧ c.items[i]? = some ⟨.integer min max step, validator⟩

theorem IntegerAt.isInteger (h : IntegerAt c p) : isInteger c looks p = true := by
  obtain ⟨i, min, max, step, validator, rfl, hitem⟩ := h
  simp [Settingchooser.isInteger, hitem]

theorem integerAt_of_isInteger {i : Nat} (h : isInteger c looks (.item i) = true) :
    IntegerAt c (.item i) := by
  simp only [isInteger] at h
  split at h
  · rename_i min max step validator heq
    exact ⟨i, min, max, step, validator, rfl, heq⟩
  · cases h

theorem adjust_wild (hp : IntegerAt c p) {change : Int} : (adjust c u p change).1.wild = u.wild := by
  obtain ⟨i, min, max, step, validator, rfl, hitem⟩ := hp
  simp only [adjust, hitem]
  split_ifs <;> rfl

/-- What is done to the setting that an event turns, and that nothing is done otherwise. -/
theorem adjust_cases (c : Settings) (p : Pointee) (u : Store) (change : Int) :
    (∃ i min max step validator, p = .item i ∧
        c.items[i]? = some ⟨.integer min max step, validator⟩ ∧ turns u step change ≠ 0 ∧
        (adjust c u p change).1.changed = true) ∨
    (¬ ∃ i min max step validator, p = .item i ∧
        c.items[i]? = some ⟨.integer min max step, validator⟩ ∧ turns u step change ≠ 0) ∧
      (adjust c u p change).1.changed = u.changed ∧ (adjust c u p change).1.values = u.values := by
  by_cases h : ∃ i min max step validator, p = .item i ∧
      c.items[i]? = some ⟨.integer min max step, validator⟩ ∧ turns u step change ≠ 0
  · refine .inl ?_
    obtain ⟨i, min, max, step, validator, rfl, hitem, hne⟩ := h
    refine ⟨i, min, max, step, validator, rfl, hitem, hne, ?_⟩
    simp [adjust, hitem, hne]
  · refine .inr ⟨h, ?_⟩
    cases p with
    | item i =>
      simp only [adjust]
      split
      · rename_i min max step validator heq
        have hzero : turns u step change = 0 := by
          by_contra hne
          exact h ⟨i, min, max, step, validator, rfl, heq, hne⟩
        simp [hzero]
      · exact ⟨rfl, rfl⟩
    | null => exact ⟨rfl, rfl⟩
    | option i => exact ⟨rfl, rfl⟩

section Filter

variable {pointee : Int → Pointee}

theorem filter_user :
    (settingchooserEventFilter c looks pointee d event which value u).user =
      if (edit c looks u (pointee d.selected) event which value).change ≠ 0 then
        (adjust c (edit c looks u (pointee d.selected) event which value).user (pointee d.selected)
          (edit c looks u (pointee d.selected) event which value).change).1
      else (edit c looks u (pointee d.selected) event which value).user := by
  simp only [settingchooserEventFilter]
  split_ifs <;> rfl

theorem filter_values (hwf : Wf c) (h : ValuesOk c u.values) :
    ValuesOk c (settingchooserEventFilter c looks pointee d event which value u).user.values := by
  rw [filter_user]
  split_ifs
  · exact adjust_values hwf (by rw [edit_values]; exact h)
  · rw [edit_values]
    exact h

theorem filter_misread :
    (settingchooserEventFilter c looks pointee d event which value u).user.misread = true ↔
      u.misread = true ∨ Reads u event which ∧ ∀ i, pointee d.selected ≠ .item i := by
  rw [filter_user]
  split_ifs
  · rw [adjust_misread, edit_misread]
  · rw [edit_misread]

theorem filter_editing :
    (settingchooserEventFilter c looks pointee d event which value u).user.editing =
      (edit c looks u (pointee d.selected) event which value).user.editing := by
  rw [filter_user]
  split_ifs
  · rw [adjust_editing]
  · rfl

theorem filter_wild (he : u.editing = true → IntegerAt c (pointee d.selected)) :
    (settingchooserEventFilter c looks pointee d event which value u).user.wild = u.wild := by
  rw [filter_user]
  split_ifs with hne
  · rw [adjust_wild (he (edit_change hne)), edit_wild]
  · rw [edit_wild]

/-- The flag is set exactly when a setting is turned, and only then does one change. -/
theorem filter_changed :
    ((settingchooserEventFilter c looks pointee d event which value u).user.changed = true ↔
      u.changed = true ∨ Turned c looks u (pointee d.selected) event which value) ∧
    (¬ Turned c looks u (pointee d.selected) event which value →
      (settingchooserEventFilter c looks pointee d event which value u).user.values = u.values) := by
  rw [filter_user]
  split_ifs with hne
  · rcases adjust_cases c (pointee d.selected)
      (edit c looks u (pointee d.selected) event which value).user
      (edit c looks u (pointee d.selected) event which value).change with
      ⟨i, min, max, step, validator, hp, hitem, hturns, hchanged⟩ | ⟨hno, hchanged, hvalues⟩
    · have hturned : Turned c looks u (pointee d.selected) event which value :=
        ⟨i, min, max, step, validator, hp, hitem, hne, hturns⟩
      exact ⟨iff_of_true hchanged (.inr hturned), fun h => absurd hturned h⟩
    · have hno' : ¬ Turned c looks u (pointee d.selected) event which value := by
        rintro ⟨i, min, max, step, validator, hp, hitem, -, hturns⟩
        exact hno ⟨i, min, max, step, validator, hp, hitem, hturns⟩
      rw [hchanged, hvalues, edit_changed, edit_values]
      exact ⟨(or_iff_left hno').symm, fun _ => rfl⟩
  · have hno : ¬ Turned c looks u (pointee d.selected) event which value := by
      rintro ⟨i, min, max, step, validator, -, -, hchange, -⟩
      exact hne hchange
    rw [edit_changed, edit_values]
    exact ⟨(or_iff_left hno).symm, fun _ => rfl⟩

end Filter

/-! ## The lists -/

/-- A list is on an item, and never times out. -/
structure Listed (info : Info Store) (d : Data) : Prop where
  onItem : OnItem info d
  block : d.timeoutRemaining = TIMEOUT_BLOCK

def Inv (c : Settings) (looks : Pointee → Bool) : State → Prop
  | .main defaultitem d u =>
    0 ≤ defaultitem ∧ defaultitem ≤ c.items.length ∧ Listed (mainInfo c looks defaultitem) d ∧
      ValuesOk c u.values
  | .options item optioncount d u =>
    (∃ validator, c.items[item]? = some ⟨.select optioncount, validator⟩) ∧
      Listed (optionInfo c looks optioncount (u.values item)) d ∧ ValuesOk c u.values
  | .returned rc u => rc = u.changed ∧ ValuesOk c u.values
  | .wild u => ValuesOk c u.values

theorem mainInfo_valid (looks : Pointee → Bool) (hwf : Wf c) {defaultitem : Int} (h : 0 ≤ defaultitem) :
    Valid (mainInfo c looks defaultitem) where
  itemcount := by simp [mainInfo]
  defaultitem := h
  timeoutItem := .inr (.inr ⟨le_refl 0, by simp only [mainInfo, aparams]; omega⟩)
  steps := ⟨7, by decide, rfl⟩
  small := hwf.small

theorem optionInfo_valid (looks : Pointee → Bool) (hwf : Wf c) {i : Nat} {n x : Int} {validator : Option (Int → Int)}
    (hitem : c.items[i]? = some ⟨.select n, validator⟩) (h : 0 ≤ x ∧ x < n) :
    Valid (optionInfo c looks n x) where
  itemcount := by simp [optionInfo]; omega
  defaultitem := by simp [optionInfo]; omega
  timeoutItem := .inr (.inr ⟨le_refl 0, by simp only [optionInfo, aparams]; omega⟩)
  steps := ⟨7, by decide, rfl⟩
  small := hwf.optioncount _ (List.mem_of_getElem? hitem) _ rfl

theorem Listed.buttonHandler {info : Info Store} (hv : Valid info)
    (hidle : info.params.timeoutIdle = TIMEOUT_BLOCK) (h : Listed info d) :
    Listed info (buttonHandler info d u event which value).1 := by
  refine ⟨h.onItem.buttonHandler hv, ?_⟩
  rw [buttonHandler_timeoutRemaining (by rw [h.block, hidle]), hidle]

theorem listed_start {info : Info Store} (hv : Valid info) (hlt : info.defaultitem < info.itemcount)
    (hinit : info.params.timeoutInitial = TIMEOUT_BLOCK) {start : Start}
    (h : chooserStart info start = some d) : Listed info d := by
  refine ⟨(good_start (u := ⟨false, false, 0, fun _ => 0, false, false⟩) hv h).2 hlt, ?_⟩
  rw [(chooserStart_eq h).2.2, hinit]

theorem runMain_inv (hwf : Wf c) {i : Int} (h0 : 0 ≤ i) (h1 : i ≤ c.items.length)
    (hvalues : ValuesOk c u.values) {start : Start} : Inv c looks (runMain c looks i u start) := by
  unfold runMain
  split
  · rename_i d heq
    refine ⟨h0, h1, listed_start (mainInfo_valid looks hwf h0) ?_ rfl heq, hvalues⟩
    simp only [mainInfo]
    omega
  · exact ⟨rfl, hvalues⟩

theorem runMain_user {i : Int} {start : Start} : (runMain c looks i u start).user = u := by
  unfold runMain
  split <;> rfl

theorem chosen_inv (hwf : Wf c) (hvalues : ValuesOk c u.values) {result : Int} (h0 : 0 ≤ result)
    (h1 : result ≤ c.items.length) {malloc : Bool} {first second : Start} :
    Inv c looks (chosen c looks u result malloc first second) := by
  unfold chosen
  split
  · rename_i i _
    split
    · rename_i n validator hitem
      have hbounds : 0 ≤ u.values i ∧ u.values i < n := hvalues i _ hitem
      split_ifs
      · exact runMain_inv hwf h0 h1 hvalues
      · split
        · rename_i d heq
          refine ⟨⟨validator, hitem⟩, listed_start (optionInfo_valid looks hwf hitem hbounds) ?_ rfl heq,
            hvalues⟩
          simp only [optionInfo]
          omega
        · exact runMain_inv hwf h0 h1 hvalues
    · exact hvalues
  · exact ⟨rfl, hvalues⟩

theorem choose_values (hwf : Wf c) (hvalues : ValuesOk c u.values) {i : Nat} {n : Int}
    {validator : Option (Int → Int)} (hitem : c.items[i]? = some ⟨.select n, validator⟩)
    {result : Option Int} (hresult : ∀ x, result = some x → 0 ≤ x ∧ x < n + 1) :
    ValuesOk c (choose c i u result).values := by
  cases result with
  | none => exact hvalues
  | some x =>
    simp only [choose]
    split_ifs with hx
    · refine hvalues.update fun item hsome => ?_
      rw [hitem] at hsome
      cases hsome
      rw [hitem]
      have hrange := hresult x rfl
      refine hwf.validator _ (List.mem_of_getElem? hitem) (x - 1) ⟨?_, ?_⟩ <;> omega
    · exact hvalues

/-- Whatever the filter reads, every setting keeps a value that it can have. -/
theorem inv_step (hwf : Wf c) {s t : State} {x : Input} {o : Unit} (h : Inv c looks s)
    (hstep : step c looks s x = some (t, o)) : Inv c looks t := by
  cases s with
  | main i d u =>
    obtain ⟨h0, h1, hlisted, hvalues⟩ := h
    have hv := mainInfo_valid looks hwf h0
    cases x with
    | event event which value =>
      have hok : ValuesOk c
          (buttonHandler (mainInfo c looks i) d u event which value).2.values := by
        rw [buttonHandler_user]
        exact filter_values hwf hvalues
      simp only [step] at hstep
      cases hstep
      split_ifs
      · exact hok
      · exact ⟨h0, h1, hlisted.buttonHandler hv rfl, hok⟩
    | turn due time malloc first second =>
      obtain ⟨hr0, hr1⟩ := hlisted.onItem.selected_range hv
      simp only [step, poll_of_block hlisted.block] at hstep
      by_cases hc : d.canceled
      · rw [if_pos hc] at hstep
        cases hstep
        exact ⟨rfl, hvalues⟩
      by_cases hf : d.finished
      · rw [if_neg hc, if_pos hf] at hstep
        cases hstep
        exact chosen_inv hwf hvalues hr0 (by simp only [mainInfo] at hr1; omega)
      · rw [if_neg hc, if_neg hf] at hstep
        cases hstep
        exact ⟨h0, h1, ⟨hlisted.onItem.congr rfl rfl, hlisted.block⟩, hvalues⟩
  | options item n d u =>
    obtain ⟨⟨validator, hitem⟩, hlisted, hvalues⟩ := h
    have hbounds : 0 ≤ u.values item ∧ u.values item < n := hvalues item _ hitem
    have hv := optionInfo_valid looks hwf hitem hbounds
    cases x with
    | event event which value =>
      have hok : ValuesOk c
          (buttonHandler (optionInfo c looks n (u.values item)) d u event which value).2.values := by
        rw [buttonHandler_user]
        exact filter_values hwf hvalues
      have hnext : Listed (optionInfo c looks n (u.values item))
          (buttonHandler (optionInfo c looks n (u.values item)) d u event which value).1 :=
        hlisted.buttonHandler hv rfl
      simp only [step] at hstep
      cases hstep
      split_ifs
      · exact hok
      · exact ⟨⟨validator, hitem⟩, ⟨⟨hnext.onItem.nonneg, hnext.onItem.lt, hnext.onItem.selected⟩,
          hnext.block⟩, hok⟩
    | turn due time malloc first second =>
      obtain ⟨hr0, hr1⟩ := hlisted.onItem.selected_range hv
      have hlen : (item : Int) + 1 ≤ c.items.length := by
        have hlt := (List.getElem?_eq_some_iff.1 hitem).1
        omega
      simp only [step, poll_of_block hlisted.block] at hstep
      by_cases hc : d.canceled
      · rw [if_pos hc] at hstep
        cases hstep
        exact runMain_inv hwf (by omega) hlen hvalues
      by_cases hf : d.finished
      · rw [if_neg hc, if_pos hf] at hstep
        cases hstep
        refine runMain_inv hwf (by omega) hlen (choose_values hwf hvalues hitem fun x hx => ?_)
        cases hx
        exact ⟨hr0, hr1⟩
      · rw [if_neg hc, if_neg hf] at hstep
        cases hstep
        exact ⟨⟨validator, hitem⟩, ⟨hlisted.onItem.congr rfl rfl, hlisted.block⟩, hvalues⟩
  | returned rc u => cases x <;> cases hstep
  | wild u => cases x <;> cases hstep

/-! ## What the filter reads -/

/-- The filter has only read types of settings, and every setting has a value that it can have. -/
def Good (c : Settings) (s : State) : Prop :=
  (∀ u, s ≠ .wild u) ∧ s.user.misread = false ∧ ValuesOk c s.user.values

/-- What is edited is the integer setting that is selected. -/
def Fine (c : Settings) : State → Prop
  | .main _ d u =>
    u.misread = false ∧ u.wild = false ∧
      (u.editing = true → IntegerAt c (mainPointee d.selected))
  | .options _ _ _ u => u.misread = false ∧ u.wild = false ∧ u.editing = false
  | .returned _ u => u.misread = false
  | .wild _ => False

/-- Buttons 0 and 1 are not pressed on the item that returns or in a list of options, and no integer
setting is selected when a list is finished. -/
def Fair (c : Settings) : State → Input → Prop
  | .main _ d _, .event event which _ => event = .buttonPress → which ≤ 1 → d.selected ≠ 0
  | .options .., .event event which _ => event = .buttonPress → 1 < which
  | .main _ d _, .turn .. =>
    d.canceled = false → d.finished = true → ¬ IntegerAt c (mainPointee d.selected)
  | _, _ => True

theorem mainPointee_item {i : Int} (h : 0 ≤ i) : (∀ k, mainPointee i ≠ .item k) ↔ i = 0 := by
  rw [mainPointee]
  split_ifs with hle
  · simp
    omega
  · simp
    omega

theorem optionPointee_ne {i : Int} (k : Nat) : optionPointee i ≠ .item k := by
  rw [optionPointee]
  split_ifs <;> simp

theorem Fine.good {s : State} (hinv : Inv c looks s) (h : Fine c s) : Good c s := by
  cases s with
  | main i d u =>
    refine ⟨?_, h.1, hinv.2.2.2⟩
    intro u' heq
    cases heq
  | options item n d u =>
    refine ⟨?_, h.1, hinv.2.2⟩
    intro u' heq
    cases heq
  | returned rc u =>
    refine ⟨?_, h, hinv.2⟩
    intro u' heq
    cases heq
  | wild u => exact h.elim

theorem runMain_fine (hm : u.misread = false) (hw : u.wild = false) (he : u.editing = false) {i : Int}
    {start : Start} : Fine c (runMain c looks i u start) := by
  unfold runMain
  split
  · refine ⟨hm, hw, fun h => ?_⟩
    rw [he] at h
    cases h
  · exact hm

theorem chosen_fine (hm : u.misread = false) (hw : u.wild = false) (he : u.editing = false)
    {result : Int} (h1 : result ≤ c.items.length) (hint : ¬ IntegerAt c (mainPointee result))
    {malloc : Bool} {first second : Start} :
    Fine c (chosen c looks u result malloc first second) := by
  unfold chosen
  split
  · rename_i i hp
    split
    · split_ifs
      · exact runMain_fine hm hw he
      · split
        · exact ⟨hm, hw, he⟩
        · exact runMain_fine hm hw he
    · rename_i hno
      exfalso
      have hlt : i < c.items.length := by
        rw [mainPointee] at hp
        split_ifs at hp
        cases hp
        omega
      obtain ⟨item, hitem⟩ : ∃ item, c.items[i]? = some item := ⟨_, List.getElem?_eq_getElem hlt⟩
      obtain ⟨config, validator⟩ := item
      cases config with
      | integer min max step => exact hint ⟨i, min, max, step, validator, hp, hitem⟩
      | select n => exact hno n validator hitem
  · exact hm

/-- In the list of settings, an event. -/
theorem fine_event (hwf : Wf c) {i : Int} (hinv : Inv c looks (.main i d u))
    (hfine : Fine c (.main i d u)) {t : State} {o : Unit}
    (hstep : step c looks (.main i d u) (.event event which value) = some (t, o)) :
    (Good c t → Fair c (.main i d u) (.event event which value)) ∧
      (Fair c (.main i d u) (.event event which value) → Fine c t) := by
  obtain ⟨h0, h1, hlisted, hvalues⟩ := hinv
  obtain ⟨hm, hw, hedit⟩ := hfine
  have hv := mainInfo_valid looks hwf h0
  have hr := hlisted.onItem.selected_range hv
  have hwild : (settingchooserEventFilter c looks mainPointee d event which value u).user.wild =
      u.wild := filter_wild hedit
  have huser : (buttonHandler (mainInfo c looks i) d u event which value).2 =
      (settingchooserEventFilter c looks mainPointee d event which value u).user :=
    buttonHandler_user
  have hitem : u.editing = true → isInteger c looks (mainPointee d.selected) = true :=
    fun he => (hedit he).isInteger
  simp only [step] at hstep
  cases hstep
  rw [huser, if_neg (by rw [hwild, hw]; decide)]
  refine ⟨?_, fun hfair => ⟨?_, by rw [hwild, hw], ?_⟩⟩
  · rintro ⟨-, hmis', -⟩ rfl hwhich hzero
    have hread : (settingchooserEventFilter c looks mainPointee d .buttonPress which value
        u).user.misread = true :=
      filter_misread.2 (.inr ⟨.inl ⟨rfl, hwhich⟩, (mainPointee_item hr.1).2 hzero⟩)
    rw [State.user, hread] at hmis'
    cases hmis'
  · rw [Bool.eq_false_iff, ne_eq, filter_misread, hm]
    rintro (h | ⟨⟨rfl, hwhich⟩ | ⟨-, he⟩, hno⟩)
    · cases h
    · exact hfair rfl hwhich ((mainPointee_item hr.1).1 hno)
    · obtain ⟨k, _, _, _, _, hp, -⟩ := hedit he
      exact hno k hp
  · rw [filter_editing]
    intro he
    have hat : IntegerAt c (mainPointee d.selected) := by
      by_cases hpress : event = .buttonPress ∧ which ≤ 1
      · have hne := hfair hpress.1 hpress.2
        have hsome : ∃ k, mainPointee d.selected = .item k := by
          by_contra hno
          exact hne ((mainPointee_item hr.1).1 fun k hk => hno ⟨k, hk⟩)
        obtain ⟨k, hk⟩ := hsome
        have hi := edit_handled hitem he
        rw [hk] at hi ⊢
        exact integerAt_of_isInteger hi
      · exact hedit (edit_editing hpress he)
    rw [buttonHandler_selected]
    · exact hat
    · by_cases hhandled : (edit c looks u (mainPointee d.selected) event which value).handled = true
      · exact .inl hhandled
      · refine .inr (by_contra fun hmoves => ?_)
        have hidle := edit_not_handled (by simpa using hhandled) hitem hmoves
        rw [hidle] at he
        cases he

/-- In a list of options. -/
theorem fine_option {item : Nat} {n : Int} (hfine : Fine c (.options item n d u)) {t : State} {o : Unit}
    (hstep : step c looks (.options item n d u) (.event event which value) = some (t, o)) :
    (Good c t → Fair c (.options item n d u) (.event event which value)) ∧
      (Fair c (.options item n d u) (.event event which value) → Fine c t) := by
  obtain ⟨hm, hw, hedit⟩ := hfine
  have hwild : (settingchooserEventFilter c looks optionPointee d event which value u).user.wild =
      u.wild := filter_wild (by simp [hedit])
  have huser : (buttonHandler (optionInfo c looks n (u.values item)) d u event which value).2 =
      (settingchooserEventFilter c looks optionPointee d event which value u).user :=
    buttonHandler_user
  simp only [step] at hstep
  cases hstep
  rw [huser, if_neg (by rw [hwild, hw]; decide)]
  refine ⟨?_, fun hfair => ⟨?_, by rw [hwild, hw], ?_⟩⟩
  · rintro ⟨-, hmis', -⟩ rfl
    by_contra hle
    have hread : (settingchooserEventFilter c looks optionPointee d .buttonPress which value
        u).user.misread = true :=
      filter_misread.2 (.inr ⟨.inl ⟨rfl, by omega⟩, fun k => optionPointee_ne k⟩)
    rw [State.user, hread] at hmis'
    cases hmis'
  · rw [Bool.eq_false_iff, ne_eq, filter_misread, hm, Reads, hedit]
    rintro (h | ⟨⟨rfl, hwhich⟩ | ⟨-, he⟩, -⟩)
    · cases h
    · have hlt := hfair rfl
      omega
    · cases he
  · rw [filter_editing, Bool.eq_false_iff]
    intro he
    have hbefore := edit_editing (fun hpress => by
      have hlt := hfair hpress.1
      omega) he
    rw [hedit] at hbefore
    cases hbefore

theorem fine_step (hwf : Wf c) {s t : State} {x : Input} {o : Unit} (hinv : Inv c looks s)
    (hfine : Fine c s) (hstep : step c looks s x = some (t, o)) :
    (Good c t ↔ Fair c s x) ∧ (Fair c s x → Fine c t) := by
  have hboth : (Good c t → Fair c s x) ∧ (Fair c s x → Fine c t) := by
    cases s with
    | main i d u =>
      cases x with
      | event event which value => exact fine_event hwf hinv hfine hstep
      | turn due time malloc first second =>
        obtain ⟨h0, h1, hlisted, hvalues⟩ := hinv
        obtain ⟨hm, hw, hedit⟩ := hfine
        have hr := hlisted.onItem.selected_range (mainInfo_valid looks hwf h0)
        simp only [step, poll_of_block hlisted.block] at hstep
        by_cases hc : d.canceled = true
        · rw [if_pos hc] at hstep
          cases hstep
          refine ⟨fun _ hc' => ?_, fun _ => hm⟩
          rw [hc] at hc'
          cases hc'
        by_cases hf : d.finished = true
        · rw [if_neg hc, if_pos hf] at hstep
          cases hstep
          have hc' : d.canceled = false := by simpa using hc
          constructor
          · rintro hgood - - ⟨k, min, max, step, validator, hp, hitem⟩
            refine hgood.1 u ?_
            simp only [chosen, hp, hitem]
          · intro hfair
            have hno := hfair hc' hf
            have hidle : u.editing = false := by
              rw [Bool.eq_false_iff]
              exact fun he => hno (hedit he)
            exact chosen_fine hm hw hidle (by simp only [mainInfo] at hr; omega) hno
        · rw [if_neg hc, if_neg hf] at hstep
          cases hstep
          exact ⟨fun _ _ hf' => absurd hf' hf, fun _ => ⟨hm, hw, hedit⟩⟩
    | options item n d u =>
      cases x with
      | event event which value => exact fine_option hfine hstep
      | turn due time malloc first second =>
        obtain ⟨-, hlisted, -⟩ := hinv
        obtain ⟨hm, hw, hedit⟩ := hfine
        refine ⟨fun _ => trivial, fun _ => ?_⟩
        have hchoose : ∀ result, Fine c (runMain c looks (item + 1) (choose c item u result) first) := by
          intro result
          apply runMain_fine
          all_goals
            cases result with
            | none => assumption
            | some x =>
              simp only [choose]
              split_ifs <;> assumption
        simp only [step, poll_of_block hlisted.block] at hstep
        by_cases hc : d.canceled = true
        · rw [if_pos hc] at hstep
          cases hstep
          exact hchoose none
        by_cases hf : d.finished = true
        · rw [if_neg hc, if_pos hf] at hstep
          cases hstep
          exact hchoose (some d.selected)
        · rw [if_neg hc, if_neg hf] at hstep
          cases hstep
          exact ⟨hm, hw, hedit⟩
    | returned rc u => cases x <;> cases hstep
    | wild u => cases x <;> cases hstep
  exact ⟨⟨hboth.1, fun hfair => (hboth.2 hfair).good (inv_step hwf hinv hstep)⟩, hboth.2⟩

/-! ## What has changed -/

/-- The flag is set: a setting is turned, or another option is chosen. -/
def Sets (c : Settings) (looks : Pointee → Bool) : State → Input → Prop
  | .main _ d u, .event event which value =>
    Turned c looks u (mainPointee d.selected) event which value
  | .options item _ d u, .turn .. =>
    d.canceled = false ∧ d.finished = true ∧ d.selected ≠ 0 ∧ u.values item ≠ d.selected - 1
  | _, _ => False

/-- A setting changes. -/
def Alters (c : Settings) (looks : Pointee → Bool) (e : State × Input × Unit) : Prop :=
  ∃ t, step c looks e.1 e.2.1 = some (t, ()) ∧
    ∃ i < c.items.length, t.user.values i ≠ e.1.user.values i

theorem chosen_user {result : Int} {malloc : Bool} {first second : Start} :
    (chosen c looks u result malloc first second).user = u := by
  unfold chosen
  split
  · split
    · split_ifs
      · exact runMain_user
      · split
        · rfl
        · exact runMain_user
    · rfl
  · rfl

theorem changed_step {s t : State} {x : Input} {o : Unit} (hinv : Inv c looks s)
    (hstep : step c looks s x = some (t, o)) :
    (t.user.changed = true ↔ s.user.changed = true ∨ Sets c looks s x) ∧
      (¬ Sets c looks s x → t.user.values = s.user.values) := by
  cases s with
  | main i d u =>
    cases x with
    | event event which value =>
      have huser : (buttonHandler (mainInfo c looks i) d u event which value).2 =
          (settingchooserEventFilter c looks mainPointee d event which value u).user :=
        buttonHandler_user
      have ht : t.user = (settingchooserEventFilter c looks mainPointee d event which value u).user := by
        simp only [step] at hstep
        cases hstep
        rw [huser]
        split_ifs <;> rfl
      rw [ht]
      exact filter_changed
    | turn due time malloc first second =>
      have ht : t.user = u := by
        simp only [step, poll_of_block hinv.2.2.1.block] at hstep
        by_cases hc : d.canceled = true
        · rw [if_pos hc] at hstep
          cases hstep
          rfl
        by_cases hf : d.finished = true
        · rw [if_neg hc, if_pos hf] at hstep
          cases hstep
          exact chosen_user
        · rw [if_neg hc, if_neg hf] at hstep
          cases hstep
          rfl
      rw [ht]
      exact ⟨(or_iff_left fun h => h).symm, fun _ => rfl⟩
  | options item n d u =>
    cases x with
    | event event which value =>
      have huser : (buttonHandler (optionInfo c looks n (u.values item)) d u event which value).2 =
          (settingchooserEventFilter c looks optionPointee d event which value u).user :=
        buttonHandler_user
      have ht : t.user =
          (settingchooserEventFilter c looks optionPointee d event which value u).user := by
        simp only [step] at hstep
        cases hstep
        rw [huser]
        split_ifs <;> rfl
      have hno : ¬ Turned c looks u (optionPointee d.selected) event which value := by
        rintro ⟨i, _, _, _, _, hp, -⟩
        exact optionPointee_ne i hp
      rw [ht]
      exact ⟨filter_changed.1.trans (or_congr_right (iff_of_false hno fun h => h)),
        fun _ => filter_changed.2 hno⟩
    | turn due time malloc first second =>
      simp only [step, poll_of_block hinv.2.1.block] at hstep
      by_cases hc : d.canceled = true
      · rw [if_pos hc] at hstep
        cases hstep
        have hno : ¬ Sets c looks (.options item n d u) (.turn due time malloc first second) := by
          simp [Sets, hc]
        rw [runMain_user]
        exact ⟨(or_iff_left hno).symm, fun _ => rfl⟩
      by_cases hf : d.finished = true
      · rw [if_neg hc, if_pos hf] at hstep
        cases hstep
        have hsets : Sets c looks (.options item n d u) (.turn due time malloc first second) ↔
            d.selected ≠ 0 ∧ u.values item ≠ d.selected - 1 := by
          simp [Sets, hc, hf]
        rw [runMain_user, hsets]
        by_cases hx : d.selected ≠ 0 ∧ u.values item ≠ d.selected - 1
        · simp only [choose, if_pos hx]
          exact ⟨iff_of_true trivial (.inr hx), fun h => absurd hx h⟩
        · simp only [choose, if_neg hx]
          exact ⟨(or_iff_left hx).symm, fun _ => rfl⟩
      · rw [if_neg hc, if_neg hf] at hstep
        cases hstep
        simp [Sets, hf, State.user]
  | returned rc u => cases x <;> cases hstep
  | wild u => cases x <;> cases hstep

/-! ## Runs -/

theorem start_inv (hwf : Wf c) {values : Nat → Int} (hvalues : ValuesOk c values) {malloc : Bool}
    {start : Start} : Inv c looks (settingchooserRun c looks values malloc start) := by
  unfold settingchooserRun
  dsimp only
  split_ifs
  · exact ⟨rfl, hvalues⟩
  · exact ⟨rfl, hvalues⟩
  · exact runMain_inv hwf (le_refl 0) (by omega) hvalues

theorem start_fine {values : Nat → Int} {malloc : Bool} {start : Start} :
    Fine c (settingchooserRun c looks values malloc start) := by
  unfold settingchooserRun
  dsimp only
  split_ifs
  · rfl
  · rfl
  · exact runMain_fine rfl rfl rfl

theorem start_changed {values : Nat → Int} {malloc : Bool} {start : Start} :
    (settingchooserRun c looks values malloc start).user.changed = false := by
  unfold settingchooserRun
  dsimp only
  split_ifs
  · rfl
  · rfl
  · rw [runMain_user]

theorem changed_run (hwf : Wf c) {s t : State} {es : List (State × Input × Unit)}
    (hinv : Inv c looks s) (hs : s.user.changed = false)
    (h : Lts.Runs (step c looks) (fun _ _ => True) s es t) :
    t.user.changed = true ↔ ∃ e ∈ es, Sets c looks e.1 e.2.1 := by
  induction h with
  | refl => simp [hs]
  | tail hr _ hstep ih =>
    have hnow := hr.invariant hinv fun x b y p hx _ hxy => inv_step hwf hx hxy
    rw [(changed_step hnow hstep).1, ih]
    simp [or_and_right, exists_or]

theorem Alters.sets {e : State × Input × Unit} (hinv : Inv c looks e.1)
    (h : Alters c looks e) : Sets c looks e.1 e.2.1 := by
  obtain ⟨t, hstep, i, -, hne⟩ := h
  by_contra hno
  exact hne (by rw [(changed_step hinv hstep).2 hno])

/-- One setting from 0 to 10. -/
def volume : Settings := ⟨1, [⟨.integer 0 10 1, none⟩]⟩

theorem volume_wf : Wf volume where
  validator := by
    intro item hitem x hx
    obtain rfl : item = ⟨.integer 0 10 1, none⟩ := by simpa [volume] using hitem
    exact hx
  small := by simp [volume]
  optioncount := by
    intro item hitem n hn
    obtain rfl : item = ⟨.integer 0 10 1, none⟩ := by simpa [volume] using hitem
    cases hn

theorem volume_ok {x : Int} (h0 : 0 ≤ x) (h1 : x ≤ 10) : ValuesOk volume fun _ => x := by
  intro i item hitem
  have hmem := List.mem_of_getElem? hitem
  obtain rfl : item = ⟨.integer 0 10 1, none⟩ := by simpa [volume] using hmem
  exact ⟨h0, h1⟩

/-- The list is at item `i`. -/
def placed (i position : Int) (redrawneeded : Bool) : Data where
  selected := i
  position := position
  redrawneeded := redrawneeded
  finished := false
  canceled := false
  timeoutRemaining := TIMEOUT_BLOCK
  lasttick := 0

def looksOdd (_ : Pointee) : Bool := false

def fresh : Store := ⟨false, false, 0, fun _ => 5, false, false⟩

end Settingchooser
end Ui
end Freemyipod
