import Mathlib.Tactic.SplitIfs
import Freemyipod.Button.Registry

/-!
# Button.Clickwheel

The thread that reads the packets of the click wheel (`emcore/target/ipodnano3g/clickwheel.c`): what it
remembers, and what it sends for a packet.

* `clickwheelThread`: one turn of its loop.
* `changePacket_eq`, `clickwheelThread_oldbuttons`: what a turn remembers.
-/

namespace Freemyipod
namespace Button
namespace Clickwheel

/-- The static variables of the source. -/
structure State where
  wheelInitialized : Bool
  oldtouched : Bool
  oldpos : Int
  oldbuttons : BitVec 32
  /-- What `USEC_TIMER` was at the last change packet. -/
  lastpacket : BitVec 32
  packets : Int
  collect : Int
  lastdiff : Int

/-- A packet. `waited` microseconds after `lastpacket` was set its time is looked at, and `busy`
microseconds later `lastpacket` is set again. -/
structure Packet where
  data : BitVec 32
  waited : Nat
  busy : Nat

/-- What a turn does: `button_send_event`, and the calls of the classic. -/
inductive Output
  | event (eventtype : ButtonEvent) (which value : Int)
  | ataLockExclusive
  | ataUnlockExclusive
  deriving DecidableEq

/-- `clickwheel_init` -/
def init : State where
  wheelInitialized := false
  oldtouched := false
  oldpos := 0
  oldbuttons := 0
  lastpacket := 0
  packets := 0
  collect := 0
  lastdiff := 0

namespace Packet

variable (p : Packet)

def IsChange : Prop := p.data &&& 0x800000ff = 0x8000001a

instance : Decidable p.IsChange := inferInstanceAs (Decidable (_ = _))

def IsInit : Prop := p.data &&& 0x8000ffff = 0x8000023a

instance : Decidable p.IsInit := inferInstanceAs (Decidable (_ = _))

def newpos : Nat := ((p.data >>> 16) &&& 0xff).toNat

def newtouched : Bool := p.data &&& 0x40000000 ≠ 0

/-- The buttons that the packet says are down. -/
def newbuttons : BitVec 32 :=
  if p.IsChange then (p.data >>> 8) &&& 0x1f
  else if p.IsInit ∧ p.data &&& 0x1f0000 ≠ 0 then (p.data >>> 16) &&& 0x1f
  else (p.data >>> 8) &&& 0x1f

end Packet

/-- `TIMEOUT_EXPIRED(a, b)` when `USEC_TIMER` is `timer`. -/
def timeoutExpired (timer a b : BitVec 32) : Bool := (a + b - timer).toInt < 0

variable (s : State) (p : Packet)

/-- The loop over the buttons. -/
def buttonEvents (oldbuttons newbuttons : BitVec 32) : List Output :=
  (List.range 5).flatMap fun i =>
    if (oldbuttons ^^^ newbuttons).getLsbD i then
      [.event (if oldbuttons.getLsbD i then .buttonRelease else .buttonPress) i 0]
    else []

/-- The distance as the source gets it first. -/
def distance : Int := if s.oldtouched then p.newpos - s.oldpos else 0

/-- The shorter way around. -/
def shorter (distance : Int) : Int :=
  if distance < -48 then distance + 96 else if 48 < distance then distance - 96 else distance

/-- The acceleration counter after the packet. -/
def newPackets : Int :=
  let packets :=
    if timeoutExpired (s.lastpacket + BitVec.ofNat 32 p.waited) s.lastpacket 200000 then 10
    else if s.lastdiff * distance s p < 0 then 10
    else s.packets + 1
  if 200 < packets then 200 else packets

/-- The branch for `newtouched` -/
@[grind =] def wheelTouched : State × List Output :=
  let moved := shorter (distance s p)
  let packets := newPackets s p
  let collect := s.collect + moved * packets
  let data := (if 0 < collect then collect else -collect) / 128
  ({ s with packets, lastdiff := distance s p, collect := collect.tmod 128 },
    (if s.oldtouched then [] else [.event .wheelTouch 0 p.newpos]) ++
      [.event .wheelPosition 0 p.newpos, .event .wheelMoved 0 moved,
        .event .wheelMovedAccel 0 (moved * packets)] ++
      if data ≠ 0 then
        [.event (if 0 < collect then .wheelForward else .wheelBackward) 0 data]
      else [])

/-- The branch for `oldtouched` -/
def wheelUntouched : State × List Output :=
  ({ s with collect := 0, packets := 0, lastdiff := 0 },
    [.event .wheelPosition 0 p.newpos, .event .wheelUntouch 0 p.newpos])

/-- The wheel in a change packet. -/
@[grind =] def wheel : State × List Output :=
  if p.newtouched then wheelTouched s p
  else if s.oldtouched then wheelUntouched s p
  else (s, [])

def changePacket : State × List Output :=
  ({ (wheel s p).1 with
      oldpos := p.newpos
      oldtouched := p.newtouched
      lastpacket := s.lastpacket + BitVec.ofNat 32 p.waited + BitVec.ofNat 32 p.busy },
    buttonEvents s.oldbuttons p.newbuttons ++ (wheel s p).2)

/-- The part for the classic. -/
def ataLock (classic : Bool) (oldbuttons newbuttons : BitVec 32) : List Output :=
  if classic then
    if newbuttons = 0x11 ∧ oldbuttons ≠ 0x11 then [.ataLockExclusive]
    else if newbuttons ≠ 0x11 ∧ oldbuttons = 0x11 then [.ataUnlockExclusive]
    else []
  else []

/-- A turn of the loop in `clickwheel_thread`. -/
def clickwheelThread (classic : Bool) : State × List Output :=
  let r :=
    if p.IsChange then changePacket s p
    else if p.IsInit then ({ s with wheelInitialized := true }, [])
    else (s, [])
  ({ r.1 with oldbuttons := p.newbuttons }, r.2 ++ ataLock classic s.oldbuttons p.newbuttons)

/-- The thread goes on as long as packets come. -/
def step (classic : Bool) (s : State) (p : Packet) : Option (State × List Output) :=
  some (clickwheelThread s p classic)

/-! ## What is sent -/

/-- The values sent with an event. -/
def sent (e : ButtonEvent) (o : List Output) : List Int :=
  o.filterMap fun x =>
    match x with
    | .event e' _ value => if e' = e then some value else none
    | _ => none

@[simp] theorem sent_nil (e : ButtonEvent) : sent e [] = [] := rfl

@[simp] theorem sent_append (e : ButtonEvent) (o o' : List Output) :
    sent e (o ++ o') = sent e o ++ sent e o' := List.filterMap_append

@[simp] theorem sent_event (e e' : ButtonEvent) (which value : Int) :
    sent e [.event e' which value] = if e' = e then [value] else [] := by
  by_cases h : e' = e <;> simp [sent, h]

@[simp] theorem sent_cons (e e' : ButtonEvent) (which value : Int) (o : List Output) :
    sent e (.event e' which value :: o) = (if e' = e then [value] else []) ++ sent e o := by
  by_cases h : e' = e <;> simp [sent, h]

theorem sent_eq_nil {e : ButtonEvent} {o : List Output}
    (h : ∀ e' which value, .event e' which value ∈ o → e' ≠ e) : sent e o = [] := by
  rw [sent, List.filterMap_eq_nil_iff]
  intro x hx
  cases x with
  | event e' which value => exact if_neg (h e' which value hx)
  | _ => rfl

variable {s p} {classic : Bool}

@[simp] theorem clickwheelThread_oldbuttons :
    (clickwheelThread s p classic).1.oldbuttons = p.newbuttons := rfl

theorem mem_buttonEvents {x : Output} {a b : BitVec 32} (h : x ∈ buttonEvents a b) :
    ∃ i : Nat, x = .event .buttonPress i 0 ∨ x = .event .buttonRelease i 0 := by
  simp only [buttonEvents, List.mem_flatMap] at h
  obtain ⟨i, -, h⟩ := h
  refine ⟨i, ?_⟩
  split at h
  · rw [List.mem_singleton] at h
    subst h
    split
    · exact Or.inr rfl
    · exact Or.inl rfl
  · exact absurd h List.not_mem_nil

theorem sent_buttonEvents {e : ButtonEvent} {a b : BitVec 32} (he : e ≠ .buttonPress)
    (he' : e ≠ .buttonRelease) : sent e (buttonEvents a b) = [] := by
  refine sent_eq_nil fun e' which value hmem => ?_
  obtain ⟨i, h | h⟩ := mem_buttonEvents hmem
  · cases h
    exact he.symm
  · cases h
    exact he'.symm

@[simp] theorem sent_ataLock {e : ButtonEvent} {a b : BitVec 32} :
    sent e (ataLock classic a b) = [] := by
  refine sent_eq_nil fun e' which value hmem => ?_
  rw [ataLock] at hmem
  split_ifs at hmem <;> simp at hmem

/-- What a change packet sends for the wheel. -/
theorem sent_clickwheelThread {e : ButtonEvent} (hp : p.IsChange) (he : e ≠ .buttonPress)
    (he' : e ≠ .buttonRelease) :
    sent e (clickwheelThread s p classic).2 = sent e (wheel s p).2 := by
  simp only [clickwheelThread, if_pos hp, changePacket, sent_append, sent_ataLock,
    sent_buttonEvents he he', List.nil_append, List.append_nil]

/-- What it remembers of the wheel. -/
theorem clickwheelThread_change (hp : p.IsChange) :
    (clickwheelThread s p classic).1 =
      { (wheel s p).1 with
        oldpos := p.newpos
        oldtouched := p.newtouched
        lastpacket := s.lastpacket + BitVec.ofNat 32 p.waited + BitVec.ofNat 32 p.busy
        oldbuttons := p.newbuttons } := by
  simp only [clickwheelThread, if_pos hp, changePacket]

end Clickwheel
end Button
end Freemyipod
