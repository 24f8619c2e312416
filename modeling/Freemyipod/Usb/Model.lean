import Mathlib.Logic.Function.Basic
import Freemyipod.Lib.Effect
import Freemyipod.Lib.Runs

/-!
# Usb.Model

The control endpoint of emCORE's USB stack (`emcore/usb/usb.c`): configurations, altsettings and
standard requests.

Arrays are lists, and an access past the end of one is a fault. A place where the code calls a
callback of a configuration or an altsetting is noted in `State.log`, with whether there is a
callback to call. The `ctrl_request` hooks return -1 and do nothing else, and there is no
`ep0_setup_hook`. The driver keeps one halt flag for each endpoint number and direction.
-/

namespace Freemyipod
namespace Usb

open Effect

/-! ## The device -/

/-- `struct usb_endpoint`: its `number.byte`. -/
structure Endpoint where
  number : UInt8

/-- `struct usb_altsetting`; the flags tell whether the pointers are not null. -/
structure Altsetting where
  setAltsetting : Bool
  unsetAltsetting : Bool
  endpoints : List Endpoint

/-- `struct usb_interface`, which has a default altsetting. -/
structure Interface where
  altsettings : List Altsetting
  count_pos : 0 < altsettings.length
  count_le : altsettings.length ≤ 255

/-- `struct usb_configuration`, with `wTotalLength` of its descriptor. -/
structure Configuration where
  wTotalLength : Nat
  setConfiguration : Bool
  unsetConfiguration : Bool
  interfaces : List Interface
  count_le : interfaces.length ≤ 255

/-- `struct usb_instance`, with the `bLength` of its descriptors. -/
structure Instance where
  devicedescriptor : Nat
  stringdescriptors : List Nat
  configurations : List Configuration
  strings_le : stringdescriptors.length ≤ 255
  count_le : configurations.length ≤ 255

/-! ## Its state -/

inductive Callback
  | setConfiguration (configuration : Nat)
  | unsetConfiguration (configuration : Nat)
  | setAltsetting (configuration interface altsetting : Nat)
  | unsetAltsetting (configuration interface altsetting : Nat)
deriving DecidableEq

/-- A place where the code calls a callback if there is one. -/
structure Notice where
  callback : Callback
  called : Bool
deriving DecidableEq

/-- `struct usb_state`, the endpoints' halt flags and the callbacks so far. -/
structure State where
  currentAddress : Nat
  currentConfiguration : Nat
  interfaceAltsetting : Nat → Nat
  stall : UInt8 → Bool
  log : List Notice

namespace State

/-- The callbacks that were called. -/
def calls (s : State) : List Callback := (s.log.filter Notice.called).map Notice.callback

end State

inductive Fault
  /-- An index past the end of an array. -/
  | outOfBounds
deriving DecidableEq

abbrev Op := StateT State (Except Fault)

def index {β : Type} (l : List β) (i : Nat) : Op β :=
  match l[i]? with
  | some x => pure x
  | none => throw .outOfBounds

def notify (callback : Callback) (called : Bool) : Op Unit :=
  modify fun s => { s with log := s.log ++ [⟨callback, called⟩] }

/-- A number stored in a `uint8_t`. -/
def byte (n : Nat) : Nat := n % 256

/-- Number and direction of an endpoint, without the reserved bits. -/
def endpointOf (number : UInt8) : UInt8 := number &&& 0x8F

def ep0out : UInt8 := 0x00

def ep0in : UInt8 := 0x80

def usbSetStall (ep : UInt8) (stall : Bool) : Op Unit :=
  modify fun s => { s with stall := Function.update s.stall (endpointOf ep) stall }

def usbUnconfigure (d : Instance) : Op Unit := do
  let configid := (← get).currentConfiguration
  if configid = 0 then return
  else
    let configuration ← index d.configurations (configid - 1)
    loop configuration.interfaces.length fun i => do
      let interface ← index configuration.interfaces i
      let s ← get
      let altsetting ← index interface.altsettings (s.interfaceAltsetting i)
      notify (.unsetAltsetting configid i (s.interfaceAltsetting i)) altsetting.unsetAltsetting
    notify (.unsetConfiguration configid) configuration.unsetConfiguration
    modify fun s => { s with currentConfiguration := 0 }

/-- The loop over the interfaces of a configuration in `usb_find_endpoint`. -/
def findInInterface (configuration : Configuration) (ep : UInt8) (ifidx : Nat) :
    Op (Option (Nat × Nat)) := do
  let interface ← index configuration.interfaces ifidx
  let s ← get
  let altsetting ← index interface.altsettings (s.interfaceAltsetting ifidx)
  loopUntil altsetting.endpoints.length 0 fun epidx => do
    let endpoint ← index altsetting.endpoints epidx
    return if endpoint.number = ep then some (ifidx, epidx) else none

/-- `ifidx` and `epidx`, or `none` for a null pointer. -/
def usbFindEndpoint (d : Instance) (ep : UInt8) : Op (Option (Nat × Nat)) := do
  let configid := (← get).currentConfiguration
  if configid = 0 then return none
  else
    let configuration ← index d.configurations (configid - 1)
    loopUntil configuration.interfaces.length 0 (findInInterface configuration ep)

/-! ## Requests -/

inductive Recipient
  | device
  | interface
  | endpoint
  | other
deriving DecidableEq

/-- The standard requests that the code knows. -/
inductive Request
  | getStatus
  | clearFeature
  | setFeature
  | setAddress
  | getDescriptor
  | getConfiguration
  | setConfiguration
  | getInterface
  | setInterface
  | other
deriving DecidableEq

/-- The eight bytes of a SETUP packet. -/
structure Setup where
  bmRequestType : UInt8
  bRequest : UInt8
  wValue : UInt16
  wIndex : UInt16
  wLength : UInt16
deriving DecidableEq

namespace Setup

def recipient (p : Setup) : Recipient :=
  match p.bmRequestType.toNat % 32 with
  | 0 => .device
  | 1 => .interface
  | 2 => .endpoint
  | _ => .other

/-- `bmRequestType.type == USB_SETUP_BMREQUESTTYPE_TYPE_STANDARD` -/
def Standard (p : Setup) : Prop := p.bmRequestType.toNat / 32 % 4 = 0

instance (p : Setup) : Decidable p.Standard := by unfold Standard; infer_instance

def req (p : Setup) : Request :=
  match p.bRequest.toNat with
  | 0 => .getStatus
  | 1 => .clearFeature
  | 3 => .setFeature
  | 5 => .setAddress
  | 6 => .getDescriptor
  | 8 => .getConfiguration
  | 9 => .setConfiguration
  | 10 => .getInterface
  | 11 => .setInterface
  | _ => .other

end Setup

/-- What `addr` points to. -/
inductive Response
  | buffer (raw : List Nat)
  | devicedescriptor
  | configuration (i : Nat)
  | stringdescriptor (i : Nat)
deriving DecidableEq

/-- `size` and `addr`. -/
structure Answer where
  size : Int
  addr : Response

/-- The answer as long as no branch took the request. -/
def Answer.unhandled : Answer := ⟨-1, .buffer []⟩

/-- The answer that is a status stage. -/
def Answer.ack : Answer := ⟨0, .buffer []⟩

/-- The switch over the descriptor types in GET_DESCRIPTOR. -/
def descriptor (d : Instance) (p : Setup) : Op Answer := do
  let i := p.wValue.toNat % 256
  match p.wValue.toNat / 256 with
  | 1 =>
    if i ≠ 0 ∨ p.wIndex ≠ 0 then return .unhandled
    else return ⟨d.devicedescriptor, .devicedescriptor⟩
  | 2 =>
    if p.wIndex ≠ 0 ∨ d.configurations.length ≤ i then return .unhandled
    else
      let configuration ← index d.configurations i
      return ⟨configuration.wTotalLength, .configuration i⟩
  | 3 =>
    if d.stringdescriptors.length < i then return .unhandled
    else
      let bLength ← index d.stringdescriptors i
      return ⟨bLength, .stringdescriptor i⟩
  | _ => return .unhandled

def getDescriptor (d : Instance) (p : Setup) : Op Answer := do
  if p.wLength = 0 then return .unhandled
  else
    let answer ← descriptor d p
    return { answer with size := min answer.size p.wLength.toNat }

/-- The turn for interface `i` of the loop that sets up configuration `configid`. -/
def setDefault (configid : Nat) (configuration : Configuration) (i : Nat) : Op Unit := do
  let interface ← index configuration.interfaces i
  modify fun s => { s with interfaceAltsetting := Function.update s.interfaceAltsetting i 0 }
  let altsetting ← index interface.altsettings 0
  notify (.setAltsetting configid i 0) altsetting.setAltsetting

def setConfiguration (d : Instance) (p : Setup) : Op Answer := do
  usbUnconfigure d
  modify fun s => { s with currentConfiguration := byte p.wValue.toNat }
  let configid := (← get).currentConfiguration
  if configid ≠ 0 then
    let configuration ← index d.configurations (configid - 1)
    notify (.setConfiguration configid) configuration.setConfiguration
    loop configuration.interfaces.length (setDefault configid configuration)
  return .ack

/-- A request to the device. -/
def deviceRequest (d : Instance) (p : Setup) : Op Answer := do
  let s ← get
  if ¬ p.Standard then return .unhandled
  else match p.req with
    | .getStatus =>
      if p.wLength ≠ 2 ∨ p.wIndex ≠ 0 ∨ s.currentAddress = 0 ∨ p.wValue ≠ 0 then return .unhandled
      else return ⟨2, .buffer [0, 1]⟩
    | .setAddress =>
      if p.wLength ≠ 0 ∨ p.wIndex ≠ 0 ∨ 127 < p.wValue.toNat then return .unhandled
      else
        set { s with currentAddress := byte p.wValue.toNat }
        return .ack
    | .getDescriptor => getDescriptor d p
    | .getConfiguration =>
      if p.wLength ≠ 1 ∨ p.wIndex ≠ 0 ∨ s.currentAddress = 0 ∨ p.wValue ≠ 0 then return .unhandled
      else return ⟨1, .buffer [s.currentConfiguration]⟩
    | .setConfiguration =>
      if p.wLength ≠ 0 ∨ p.wIndex ≠ 0 ∨ s.currentAddress = 0 ∨
          d.configurations.length < p.wValue.toNat then
        return .unhandled
      else setConfiguration d p
    | _ => return .unhandled

/-- SET_INTERFACE for interface `intfid`; `size` stays -1. -/
def setInterface (configid intfid : Nat) (interface : Interface) (p : Setup) : Op Answer := do
  if p.wLength ≠ 0 ∨ interface.altsettings.length < p.wValue.toNat then return .unhandled
  else
    let s ← get
    let altsetting ← index interface.altsettings (s.interfaceAltsetting intfid)
    notify (.unsetAltsetting configid intfid (s.interfaceAltsetting intfid))
      altsetting.unsetAltsetting
    modify fun s => { s with
      interfaceAltsetting :=
        Function.update s.interfaceAltsetting intfid (byte p.wValue.toNat) }
    let s ← get
    let altsetting ← index interface.altsettings (s.interfaceAltsetting intfid)
    notify (.setAltsetting configid intfid (s.interfaceAltsetting intfid))
      altsetting.setAltsetting
    return .unhandled

/-- A request to an interface. -/
@[grind =] def interfaceRequest (d : Instance) (p : Setup) : Op Answer := do
  let s ← get
  let configid := s.currentConfiguration
  if configid = 0 then return .unhandled
  else
    let configuration ← index d.configurations (configid - 1)
    let intfid := p.wIndex.toNat
    if configuration.interfaces.length ≤ intfid then return .unhandled
    else
      let interface ← index configuration.interfaces intfid
      if ¬ p.Standard then return .unhandled
      else match p.req with
        | .getStatus =>
          if p.wLength ≠ 2 ∨ p.wValue ≠ 0 then return .unhandled else return ⟨2, .buffer [0, 0]⟩
        | .getInterface =>
          if p.wLength ≠ 1 ∨ p.wValue ≠ 0 then return .unhandled
          else return ⟨1, .buffer [s.interfaceAltsetting intfid]⟩
        | .setInterface => setInterface configid intfid interface p
        | _ => return .unhandled

/-- A request to an endpoint. -/
def endpointRequest (d : Instance) (p : Setup) : Op Answer := do
  let s ← get
  if s.currentConfiguration = 0 then return .unhandled
  else
    let ep := p.wIndex.toUInt8
    match ← usbFindEndpoint d ep with
    | none => return .unhandled
    | some _ =>
      if ¬ p.Standard then return .unhandled
      else match p.req with
        | .getStatus =>
          if p.wLength ≠ 2 ∨ p.wValue ≠ 0 then return .unhandled
          else return ⟨2, .buffer [0, (s.stall (endpointOf ep)).toNat]⟩
        | .clearFeature =>
          if p.wLength ≠ 0 ∨ p.wValue ≠ 0 then return .unhandled
          else
            usbSetStall ep false
            return .ack
        | .setFeature =>
          if p.wLength ≠ 0 ∨ p.wValue ≠ 0 then return .unhandled
          else
            usbSetStall ep true
            return .ack
        | _ => return .unhandled

/-- What the host sees. -/
inductive Reply
  | ack
  | data (addr : Response) (size : Nat)
  | stall
deriving DecidableEq

/-- The end of `usb_handle_ep0_setup`; `size` is -1 or more. -/
def reply (answer : Answer) : Op Reply := do
  if answer.size = 0 then
    usbSetStall ep0out true
    return .ack
  else if 0 < answer.size then return .data answer.addr answer.size.toNat
  else
    usbSetStall ep0in true
    usbSetStall ep0out true
    return .stall

/-- The switch over the recipients. -/
def request (d : Instance) (p : Setup) : Op Answer :=
  match p.recipient with
  | .device => deviceRequest d p
  | .interface => interfaceRequest d p
  | .endpoint => endpointRequest d p
  | .other => pure .unhandled

def usbHandleEp0Setup (d : Instance) (p : Setup) : Op Reply := do
  reply (← request d p)

/-! ## Events -/

def usbHandleBusReset (d : Instance) : Op Unit := do
  modify fun s => { s with currentAddress := 0 }
  usbUnconfigure d

def usbExit (d : Instance) : Op Unit := usbUnconfigure d

/-- After `usb_init`; `altsetting` and `stall` are what was there before. -/
def usbInit (altsetting : Nat → Nat) (stall : UInt8 → Bool) : State :=
  ⟨0, 0, altsetting, stall, []⟩

inductive Event
  | setup (p : Setup)
  | busReset
  | exit
deriving DecidableEq

/-- The answer to a SETUP packet is the step's output. -/
def handle (d : Instance) : Event → Op (Option Reply)
  | .setup p => do return some (← usbHandleEp0Setup d p)
  | .busReset => do
    usbHandleBusReset d
    return none
  | .exit => do
    usbExit d
    return none

/-- One step of the stack; it is not possible if it leaves an array's bounds. -/
def step (d : Instance) (s : State) (e : Event) : Option (State × Option Reply) :=
  match (handle d e).run s with
  | .ok (r, t) => some (t, r)
  | .error _ => none

/-! ## The monitor's own device -/

/-- `usb_c1_i0_a0`: bulk endpoints 2 OUT and 1 IN. -/
def usbC1I0A0 : Altsetting := ⟨true, true, [⟨0x02⟩, ⟨0x81⟩]⟩

def usbC1I0 : Interface := ⟨[usbC1I0A0], by decide, by decide⟩

def usbC1 : Configuration := ⟨32, false, false, [usbC1I0], by decide⟩

def usbDefaultData : Instance := ⟨18, [4, 30, 32], [usbC1], by decide, by decide⟩

end Usb
end Freemyipod
