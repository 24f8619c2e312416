import Freemyipod.Lib.Circular
import Freemyipod.Lib.Memory
import Freemyipod.Lib.Runs

/-!
# Usb.ConsoleIn

The debug console's input (`emcore/usb/usbdebug.c`): a ring of 1024 bytes that the USB interrupt fills
with what the host sends with WRITE CONSOLE, and `dbgconsole_getc` and `dbgconsole_read` empty. A
packet is handled between any two steps of the reader.

* `delivered_eq`: bytes come out of the ring in the order they were put in, each once.
* `recv_ring_iff`: when these are the bytes that the host was told to be accepted, with the right
  amount of free space, and a read that waits returns what has arrived.
-/

namespace Freemyipod
namespace Usb
namespace ConsoleIn

open Circular Memory

/-- `dbgstate`; the states for other commands are not entered here. -/
inductive DbgState
  | idle
  | setup
  | writeConsole
  | respond
deriving DecidableEq

/-- The first words of `dbgbuf`. -/
structure Answer where
  status : BitVec 32
  count : BitVec 32
  size : BitVec 32
  free : BitVec 32
deriving DecidableEq

inductive Call
  | getc
  | read (length : Nat)
deriving DecidableEq

/-- A read on its way: what the first of two `memcpy` has copied, what the one that runs has copied,
how many bytes it has still to copy, and the variable `left`. -/
structure Copy where
  before : List UInt8
  bytes : List UInt8
  togo : Nat
  left : Nat
  /-- the first of two `memcpy` -/
  wraps : Bool

/-- Where the reader is. -/
inductive Reader
  | idle
  /-- in `wakeup_wait`: the first one has no timeout, the second one the caller's -/
  | waiting (call : Call) (again : Bool)
  | getting
  | copying (copy : Copy)

/-- The variables of the input, and what of a request is in the endpoint. `sent` and `taken` note what
the host has sent in the request at hand, and which bytes were put into the ring for it. -/
structure State where
  recv : Circular UInt8 1024
  reader : Reader
  dbgstate : DbgState
  dbgmemlen : Nat
  dbgbuf : Answer
  /-- `ep0_rx_callback` is `usbdebug_handle_data` -/
  handler : Bool
  /-- `xfersize` of `outep_regs[0].doeptsiz` -/
  doeptsiz : Nat
  /-- `data->buffer->raw` -/
  raw : Nat → UInt8
  sent : List UInt8
  taken : List UInt8

inductive Output
  | none
  | put (bytes : List UInt8) (answer : Option Answer)
  | returned (bytes : List UInt8)
deriving DecidableEq

/-- What can happen: a request with direction OUT, a packet of its data stage with the driver's number
of missing bytes, a call of a reader, the reader's next step. -/
inductive Action
  | setup (request : List UInt8)
  | packet (p : List UInt8) (bytesleft : Nat)
  | call (c : Call)
  | run
deriving DecidableEq

variable (s : State)

/-! ## The host's side -/

@[grind =] def startRx (len : Nat) (handler : Bool) : State := { s with doeptsiz := len, handler }

/-- `buf[i]` -/
def buf (i : Nat) : BitVec 32 := ofBytes (piece s.raw (4 * i) 4)

/-- The end of `usbdebug_handle_data`. -/
def finish (l : List UInt8) : State × Output :=
  ({ s with dbgstate := .respond }, .put l (some s.dbgbuf))

/-- `dbgconrecvreadidx - dbgconrecvwriteidx - 1`, as a word. -/
def difference : BitVec 32 := BitVec.ofInt 32 ((s.recv.r.val : Int) - s.recv.w.val - 1)

/-- Command 11. -/
def writeConsole : State × Output :=
  let total := min s.recv.free (buf s 1).toNat
  let l := piece s.raw 16 (min 48 total)
  let s := { s with
    recv := s.recv.put l
    dbgbuf := { s.dbgbuf with status := 1, count := BitVec.ofNat 32 total, size := 1024 } }
  if 48 < total then
    (startRx { s with dbgmemlen := total - 48, dbgstate := .writeConsole } (min 64 (total - 48)) true,
      .put l none)
  else finish { s with dbgbuf := { s.dbgbuf with free := difference s } } l

/-- The case `DBGSTATE_WRITE_CONSOLE`. -/
def continueConsole (bytesleft : Nat) : State × Output :=
  let bytes := min (64 - bytesleft) s.dbgmemlen
  let l := piece s.raw 0 bytes
  let s := { s with dbgmemlen := s.dbgmemlen - bytes, recv := s.recv.put l }
  if bytes ≠ 0 ∧ s.dbgmemlen ≠ 0 ∧ bytesleft = 0 then
    (startRx s (min 64 s.dbgmemlen) true, .put l none)
  else
    let free := difference s
    -- `dbgbuf` is an array of unsigned words: the correction is never made
    finish { s with dbgbuf := { s.dbgbuf with free := if free < 0 then free + 1024 else free } } l

/-- `usbdebug_handle_data`; no result for other commands. -/
def usbdebugHandleData (bytesleft : Nat) : Option (State × Output) :=
  let s := startRx s 0 false
  match s.dbgstate with
  | .setup => if buf s 0 = 11 then some (writeConsole s) else none
  | .writeConsole => some (continueConsole s bytesleft)
  | _ => some ({ s with dbgstate := .respond }, .none)

/-- `usbdebug_handle_setup` for a request with direction OUT. -/
def setupOut (request : List UInt8) : State :=
  startRx { s with raw := copy s.raw 0 request, dbgstate := .setup, dbgmemlen := 0, sent := [],
                   taken := [] } 64 true

/-- What of a packet is for the console: the first one starts with the command. -/
def data (p : List UInt8) : List UInt8 := if s.dbgstate = .setup then p.drop 16 else p

/-- The bytes of an output that went into the ring. -/
def Output.written : Output → List UInt8
  | .put l _ => l
  | _ => []

/-- A packet has arrived in `data->buffer`. -/
def receive (p : List UInt8) (bytesleft : Nat) : Option (State × Output) :=
  if s.handler = true ∧ p.length ≤ s.doeptsiz ∧ bytesleft ≤ 64 then
    (usbdebugHandleData { s with raw := copy s.raw 0 p } bytesleft).map fun (t, o) =>
      ({ t with sent := s.sent ++ data s p, taken := s.taken ++ o.written }, o)
  else none

/-! ## The reader -/

/-- `dbgconsole_read` from the two pieces on. -/
def startCopy (length available : Nat) : State × Output :=
  let available := min available length
  if available = 0 then ({ s with reader := .idle }, .returned [])
  else if 1024 ≤ s.recv.r + available then
    ({ s with reader := .copying ⟨[], [], 1024 - s.recv.r, available, true⟩ }, .none)
  else ({ s with reader := .copying ⟨[], [], available, available, false⟩ }, .none)

/-- A call, as far as the first wait. -/
def call : Call → State × Output
  | .getc =>
    if s.recv.available = 0 then ({ s with reader := .waiting .getc false }, .none)
    else ({ s with reader := .getting }, .none)
  | .read length =>
    if length = 0 then (s, .returned [])
    else if s.recv.available = 0 then ({ s with reader := .waiting (.read length) false }, .none)
    else startCopy s length s.recv.available

/-- A wait has ended. -/
def wake (c : Call) (again : Bool) : State × Output :=
  if s.recv.available = 0 then
    if again then ({ s with reader := .idle }, .returned [])
    else ({ s with reader := .waiting c true }, .none)
  else
    match c with
    | .getc => ({ s with reader := .getting }, .none)
    -- the new `available` is a variable of the inner block, the outer one is 0
    | .read length => startCopy s length 0

/-- The byte that `dbgconsole_getc` returns. -/
def getByte : State × Output :=
  ({ s with reader := .idle, recv := s.recv.skip 1 }, .returned [s.recv.buf s.recv.r])

/-- The next step of a copy: a byte, the start of the second `memcpy`, or the end. -/
def copyStep (c : Copy) : State × Output :=
  if c.togo ≠ 0 then
    let c := { c with
      bytes := c.bytes ++ [s.recv.buf (s.recv.r + c.bytes.length)]
      togo := c.togo - 1 }
    ({ s with reader := .copying c }, .none)
  else if c.wraps = true then
    let left := c.left - c.bytes.length
    ({ s with reader := .copying ⟨c.bytes, [], left, left, false⟩, recv := { s.recv with r := 0 } },
      .none)
  else
    ({ s with reader := .idle, recv := s.recv.skip c.left }, .returned (c.before ++ c.bytes))

def advance : Option (State × Output) :=
  match s.reader with
  | .idle => none
  | .waiting c again => some (wake s c again)
  | .getting => some (getByte s)
  | .copying c => some (copyStep s c)

def step : Action → Option (State × Output)
  | .setup request => some (setupOut s request, .none)
  | .packet p bytesleft => receive s p bytesleft
  | .call c =>
    match s.reader with
    | .idle => some (call s c)
    | _ => none
  | .run => advance s

/-- `usbdebug_init`. -/
structure Initial : Prop where
  r : s.recv.r = 0
  w : s.recv.w = 0
  reader : s.reader = .idle
  dbgstate : s.dbgstate = .idle
  handler : s.handler = false

/-! ## What is put in comes out -/

/-- What the reader has got and not yet returned, and is no longer in the ring. -/
def Reader.held : Reader → List UInt8
  | .copying c => c.before
  | _ => []

def Output.delivered : Output → List UInt8
  | .returned l => l
  | _ => []

/-- The bytes put into the ring in a run. -/
def puts (es : List (State × Action × Output)) : List UInt8 := es.flatMap fun e => e.2.2.written

/-- The bytes that calls have returned. -/
def gets (es : List (State × Action × Output)) : List UInt8 := es.flatMap fun e => e.2.2.delivered

/-- A copy is where it says, and what it copies is in the ring. -/
structure Copy.Valid (t : Circular UInt8 1024) (c : Copy) : Prop where
  bytes : c.bytes = t.content.take c.bytes.length
  left : c.left ≤ t.available
  fits : c.bytes.length + c.togo ≤ c.left ∧ t.r + (c.bytes.length + c.togo) ≤ 1024
  first : c.wraps = true → c.before = [] ∧ t.r + (c.bytes.length + c.togo) = 1024
  second : c.wraps = false → c.bytes.length + c.togo = c.left
  pos : c.before ≠ [] ∨ 0 < c.left

/-- What the reader relies on. -/
def Reader.Valid (t : Circular UInt8 1024) : Reader → Prop
  | .copying c => c.Valid t
  | .getting => 0 < t.available
  | _ => True

/-- The endpoint is programmed for what is awaited, and that fits into the ring. -/
structure Valid : Prop where
  reader : s.reader.Valid s.recv
  setup : s.dbgstate = .setup → s.doeptsiz = 64 ∧ s.sent = [] ∧ s.taken = []
  more : s.dbgstate = .writeConsole → s.doeptsiz = min 64 s.dbgmemlen ∧ s.dbgmemlen ≤ s.recv.free ∧
    s.taken.length + s.dbgmemlen = s.dbgbuf.count.toNat
  handler : s.dbgstate = .idle ∨ s.dbgstate = .respond → s.handler = false

variable {s} {t : State} {a : Action} {o : Output} {c : Call} {l : List UInt8} {p : List UInt8}
  {b : Nat}

theorem Initial.valid (h : Initial s) : Valid s where
  reader := by
    rw [h.reader]
    trivial
  setup := fun hs => by simp [h.dbgstate] at hs
  more := fun hs => by simp [h.dbgstate] at hs
  handler := fun _ => h.handler

theorem Initial.content (h : Initial s) : s.recv.content = [] := by
  rw [content_eq_nil_iff, available_eq_zero_iff, h.r, h.w]

/-- The reader does not notice that bytes are appended. -/
theorem Reader.Valid.put {r : Reader} {t : Circular UInt8 1024} (h : r.Valid t)
    (hl : l.length ≤ t.free) : r.Valid (t.put l) := by
  have hav := available_put hl
  cases r with
  | idle => trivial
  | waiting c again => trivial
  | getting =>
    show 0 < (t.put l).available
    rw [hav]
    exact Nat.lt_of_lt_of_le h (Nat.le_add_right _ _)
  | copying c =>
    obtain ⟨hbytes, hleft, hfits, hfirst, hsecond, hpos⟩ := h
    have hlen : c.bytes.length ≤ t.content.length := by
      have := congrArg List.length hbytes
      rw [List.length_take] at this
      omega
    refine ⟨?_, ?_, hfits, hfirst, hsecond, hpos⟩
    · rw [content_put hl, List.take_append_of_le_length hlen]
      exact hbytes
    · rw [hav]
      omega

/-- The bytes that a new command puts into the ring. -/
def total (s : State) (p : List UInt8) : Nat :=
  min s.recv.free (buf { s with raw := copy s.raw 0 p } 1).toNat

/-- What a packet does: `l` is appended, of the command's bytes `left` are missing, and it is the last
packet or not. -/
structure Received (s t : State) (o : Output) (p l : List UInt8) (left : Nat) (last : Prop) :
    Prop where
  fits : l.length + left ≤ s.recv.free
  recv : t.recv = s.recv.put l
  reader : t.reader = s.reader
  sent : t.sent = s.sent ++ data s p
  taken : t.taken = s.taken ++ l
  count : t.taken.length + left = t.dbgbuf.count.toNat
  more : ¬ last → o = .put l none ∧ t.dbgstate = .writeConsole ∧ t.dbgmemlen = left ∧
    t.doeptsiz = min 64 left
  final : last → o = .put l (some t.dbgbuf) ∧ t.dbgbuf.free = difference t ∧
    t.dbgstate = .respond ∧ t.handler = false

/-- The first packet of a command. -/
theorem receive_setup (hv : Valid s) (hd : s.dbgstate = .setup) (hs : receive s p b = some (t, o)) :
    Received s t o p (piece (copy s.raw 0 p) 16 (min 48 (total s p)))
      (total s p - min 48 (total s p)) (total s p ≤ 48) ∧ p.length ≤ 64 ∧ b ≤ 64 := by
  obtain ⟨hsize, hsent, htaken⟩ := hv.setup hd
  rw [receive] at hs
  split at hs
  · rename_i hp
    rw [hsize] at hp
    refine ⟨?_, hp.2⟩
    simp only [usbdebugHandleData, startRx, hd] at hs
    split at hs
    · have hlt : total s p < 2 ^ 32 := by
        have hsum := s.recv.available_add_free
        rw [total]
        omega
      have hcount : (BitVec.ofNat 32 (total s p)).toNat = total s p := by
        rw [BitVec.toNat_ofNat, Nat.mod_eq_of_lt hlt]
      have hfree : total s p ≤ s.recv.free := Nat.min_le_left _ _
      have hfits : (piece (copy s.raw 0 p) 16 (min 48 (total s p))).length +
          (total s p - min 48 (total s p)) ≤ s.recv.free := by
        rw [length_piece]
        omega
      have hlen : (s.taken ++ piece (copy s.raw 0 p) 16 (min 48 (total s p))).length +
          (total s p - min 48 (total s p)) = (BitVec.ofNat 32 (total s p)).toNat := by
        rw [htaken, List.nil_append, length_piece, hcount]
        omega
      have hleft : ¬ total s p ≤ 48 → total s p - 48 = total s p - min 48 (total s p) := by omega
      have htotal : min s.recv.free
          (buf { s with
            raw := copy s.raw 0 p
            doeptsiz := 0
            handler := false
            dbgstate := .setup } 1).toNat = total s p := rfl
      simp only [writeConsole, htotal, Option.map_some, Option.some.injEq, Prod.mk.injEq] at hs
      obtain ⟨rfl, rfl⟩ := hs
      by_cases hmore : 48 < total s p
      · have hnot : ¬ total s p ≤ 48 := by omega
        rw [if_pos hmore]
        exact ⟨hfits, rfl, rfl, rfl, rfl, hlen,
          fun h => ⟨rfl, rfl, hleft h, congrArg (min 64) (hleft h)⟩, fun h => absurd h hnot⟩
      · rw [if_neg hmore]
        exact ⟨hfits, rfl, rfl, rfl, rfl, hlen, fun h => absurd (Nat.le_of_not_lt hmore) h,
          fun _ => ⟨rfl, rfl, rfl, rfl⟩⟩
    · cases hs
  · cases hs

/-- A word is never negative. -/
theorem unadjusted (v : BitVec 32) : (if v < 0 then v + 1024 else v) = v := if_neg BitVec.not_lt_zero

/-- Each of the next packets. -/
theorem receive_more (hv : Valid s) (hd : s.dbgstate = .writeConsole)
    (hs : receive s p b = some (t, o)) :
    Received s t o p (piece (copy s.raw 0 p) 0 (min (64 - b) s.dbgmemlen))
      (s.dbgmemlen - min (64 - b) s.dbgmemlen)
      (¬ (min (64 - b) s.dbgmemlen ≠ 0 ∧ s.dbgmemlen - min (64 - b) s.dbgmemlen ≠ 0 ∧ b = 0)) ∧
      p.length ≤ min 64 s.dbgmemlen ∧ b ≤ 64 := by
  obtain ⟨hsize, hfree, hcount⟩ := hv.more hd
  rw [receive] at hs
  split at hs
  · rename_i hp
    rw [hsize] at hp
    refine ⟨?_, hp.2⟩
    simp only [usbdebugHandleData, startRx, hd, continueConsole, Option.map_some,
      Option.some.injEq, Prod.mk.injEq] at hs
    obtain ⟨rfl, rfl⟩ := hs
    generalize hk : min (64 - b) s.dbgmemlen = bytes
    have hfits : (piece (copy s.raw 0 p) 0 bytes).length + (s.dbgmemlen - bytes) ≤
        s.recv.free := by
      rw [length_piece]
      omega
    have hlen : (s.taken ++ piece (copy s.raw 0 p) 0 bytes).length + (s.dbgmemlen - bytes) =
        s.dbgbuf.count.toNat := by
      rw [List.length_append, length_piece]
      omega
    by_cases hmore : bytes ≠ 0 ∧ s.dbgmemlen - bytes ≠ 0 ∧ b = 0
    · rw [if_pos hmore]
      exact ⟨hfits, rfl, rfl, rfl, rfl, hlen, fun _ => ⟨rfl, rfl, rfl, rfl⟩,
        fun h => absurd hmore h⟩
    · rw [if_neg hmore]
      refine ⟨hfits, rfl, rfl, rfl, rfl, hlen, fun h => absurd hmore h, fun _ => ⟨rfl, ?_, rfl, rfl⟩⟩
      exact unadjusted _
  · cases hs

/-- A request's packet appends what it has written, and keeps the invariant. -/
theorem Received.valid {left : Nat} {last : Prop} (h : Received s t o p l left last)
    (hv : Valid s) : Valid t := by
  have hl : l.length ≤ s.recv.free := Nat.le_trans (Nat.le_add_right _ _) h.fits
  have hreader : t.reader.Valid t.recv := by
    rw [h.reader, h.recv]
    exact hv.reader.put hl
  by_cases hlast : last
  · obtain ⟨-, -, hstate, hhandler⟩ := h.final hlast
    refine ⟨hreader, ?_, ?_, fun _ => hhandler⟩
    · intro hs
      simp [hstate] at hs
    · intro hs
      simp [hstate] at hs
  · obtain ⟨-, hstate, hmem, hsize⟩ := h.more hlast
    refine ⟨hreader, ?_, ?_, ?_⟩
    · intro hs
      simp [hstate] at hs
    · intro _
      refine ⟨by rw [hmem, hsize], ?_, by rw [hmem]; exact h.count⟩
      rw [hmem, h.recv, free_put hl]
      have := h.fits
      omega
    · intro hs
      simp [hstate] at hs

theorem Received.written {left : Nat} {last : Prop} (h : Received s t o p l left last) :
    o.written = l ∧ o.delivered = [] := by
  by_cases hlast : last
  · rw [(h.final hlast).1]
    exact ⟨rfl, rfl⟩
  · rw [(h.more hlast).1]
    exact ⟨rfl, rfl⟩

/-- A packet is one of a command that writes to the console. -/
theorem receive_cases (hv : Valid s) (hs : receive s p b = some (t, o)) :
    s.dbgstate = .setup ∨ s.dbgstate = .writeConsole := by
  rw [receive] at hs
  split at hs
  · rename_i hp
    cases hd : s.dbgstate with
    | setup => exact Or.inl rfl
    | writeConsole => exact Or.inr rfl
    | idle => exact absurd hp.1 (by simp [hv.handler (Or.inl hd)])
    | respond => exact absurd hp.1 (by simp [hv.handler (Or.inr hd)])
  · cases hs

theorem receive_spec (hv : Valid s) (hs : receive s p b = some (t, o)) :
    ∃ l left last, Received s t o p l left last := by
  rcases receive_cases hv hs with hd | hd
  · exact ⟨_, _, _, (receive_setup hv hd hs).1⟩
  · exact ⟨_, _, _, (receive_more hv hd hs).1⟩

/-- What a step of the reader does: bytes leave the ring, are held or returned, in order. -/
structure Moved (s t : State) (o : Output) : Prop where
  reader : t.reader.Valid t.recv
  free : s.recv.free ≤ t.recv.free
  moved : o.delivered ++ t.reader.held ++ t.recv.content = s.reader.held ++ s.recv.content
  written : o.written = []
  host : t.dbgstate = s.dbgstate ∧ t.doeptsiz = s.doeptsiz ∧ t.dbgmemlen = s.dbgmemlen ∧
    t.sent = s.sent ∧ t.taken = s.taken ∧ t.dbgbuf = s.dbgbuf ∧ t.handler = s.handler

theorem Moved.valid (h : Moved s t o) (hv : Valid s) : Valid t := by
  obtain ⟨hd, hsize, hlen, hsent, htaken, hbuf, hhandler⟩ := h.host
  refine ⟨h.reader, ?_, ?_, ?_⟩
  · rw [hd, hsize, hsent, htaken]
    exact hv.setup
  · rw [hd, hsize, hlen, htaken, hbuf]
    intro hs
    obtain ⟨h1, h2, h3⟩ := hv.more hs
    exact ⟨h1, Nat.le_trans h2 h.free, h3⟩
  · rw [hd, hhandler]
    exact hv.handler

/-- A step that leaves the ring as it is and holds nothing. -/
theorem Moved.of_idle {r : Reader} (hr : r.Valid s.recv) (hheld : r.held = [])
    (hs : s.reader.held = []) (ho : o.delivered = [] ∧ o.written = []) :
    Moved s { s with reader := r } o where
  reader := hr
  free := Nat.le_refl _
  moved := by simp [hheld, hs, ho.1]
  written := ho.2
  host := ⟨rfl, rfl, rfl, rfl, rfl, rfl, rfl⟩

theorem startCopy_moved {length available : Nat} (hle : available ≤ s.recv.available)
    (hs : s.reader.held = []) (h : startCopy s length available = (t, o)) : Moved s t o := by
  rw [startCopy] at h
  generalize hk : min available length = k at h
  have hr := s.recv.r.isLt
  have hleft : k ≤ s.recv.available := by omega
  split at h
  · cases h
    exact Moved.of_idle trivial rfl hs ⟨rfl, rfl⟩
  · rename_i hpos
    have hpos : 0 < k := Nat.pos_of_ne_zero hpos
    split at h
    · rename_i hwraps
      have hfits : 1024 - s.recv.r.val ≤ k ∧ s.recv.r.val + (1024 - s.recv.r.val) ≤ 1024 := by omega
      cases h
      exact Moved.of_idle ⟨by simp, hleft, by simpa using hfits, by simp, by simp, Or.inr hpos⟩
        rfl hs ⟨rfl, rfl⟩
    · have hfits : k ≤ k ∧ s.recv.r.val + k ≤ 1024 := by omega
      cases h
      exact Moved.of_idle ⟨by simp, hleft, by simpa using hfits.2, by simp, by simp, Or.inr hpos⟩
        rfl hs ⟨rfl, rfl⟩

theorem call_moved (hi : s.reader = .idle) (h : call s c = (t, o)) : Moved s t o := by
  have hheld : s.reader.held = [] := by rw [hi]; rfl
  cases c with
  | getc =>
    rw [call] at h
    split at h
    · cases h
      exact Moved.of_idle trivial rfl hheld ⟨rfl, rfl⟩
    · rename_i hne
      cases h
      exact Moved.of_idle (Nat.pos_of_ne_zero hne) rfl hheld ⟨rfl, rfl⟩
  | read length =>
    rw [call] at h
    split at h
    · cases h
      exact ⟨by rw [hi]; trivial, Nat.le_refl _, rfl, rfl, ⟨rfl, rfl, rfl, rfl, rfl, rfl, rfl⟩⟩
    · split at h
      · cases h
        exact Moved.of_idle trivial rfl hheld ⟨rfl, rfl⟩
      · exact startCopy_moved (Nat.le_refl _) hheld h

theorem wake_moved {again : Bool} (hw : s.reader = .waiting c again)
    (h : wake s c again = (t, o)) : Moved s t o := by
  have hheld : s.reader.held = [] := by rw [hw]; rfl
  by_cases hav : s.recv.available = 0
  · simp only [wake, hav, if_true] at h
    split at h
    · cases h
      exact Moved.of_idle trivial rfl hheld ⟨rfl, rfl⟩
    · cases h
      exact Moved.of_idle trivial rfl hheld ⟨rfl, rfl⟩
  · simp only [wake, hav, if_false] at h
    cases c with
    | getc =>
      cases h
      exact Moved.of_idle (Nat.pos_of_ne_zero hav) rfl hheld ⟨rfl, rfl⟩
    | read length => exact startCopy_moved (Nat.zero_le _) hheld h

theorem getByte_moved (hg : s.reader = .getting) (hpos : 0 < s.recv.available)
    (h : getByte s = (t, o)) : Moved s t o := by
  cases h
  refine ⟨trivial, ?_, ?_, rfl, ⟨rfl, rfl, rfl, rfl, rfl, rfl, rfl⟩⟩
  · rw [free_skip hpos]
    exact Nat.le_add_right _ _
  · have hone : [s.recv.buf s.recv.r] = s.recv.content.take 1 := by
      rw [← window_eq_take hpos, window_one, Nat.mod_eq_of_lt s.recv.r.isLt]
    show [s.recv.buf s.recv.r] ++ [] ++ (s.recv.skip 1).content = s.reader.held ++ s.recv.content
    rw [content_skip hpos, hone, hg, List.append_nil, List.take_append_drop]
    rfl

theorem copyStep_moved {c : Copy} (hc : s.reader = .copying c) (hv : c.Valid s.recv)
    (h : copyStep s c = (t, o)) : Moved s t o := by
  obtain ⟨hbytes, hleft, ⟨hle, hend⟩, hfirst, hsecond, hpos⟩ := hv
  have hheld : s.reader.held = c.before := by rw [hc]; rfl
  rw [copyStep] at h
  split at h
  · -- one more byte of the content
    rename_i hgo
    cases h
    have hnext : c.bytes ++ [s.recv.buf (s.recv.r + c.bytes.length)] =
        s.recv.content.take (c.bytes.length + 1) := by
      rw [← piece_eq_take (by omega) (by omega), piece_succ,
        piece_eq_take (by omega) (by omega), ← hbytes]
    have hsum : c.bytes.length + 1 + (c.togo - 1) = c.bytes.length + c.togo := by omega
    refine ⟨⟨?_, hleft, ?_, ?_, ?_, hpos⟩, Nat.le_refl _, ?_, rfl,
      ⟨rfl, rfl, rfl, rfl, rfl, rfl, rfl⟩⟩
    · simpa using hnext
    · simpa [hsum] using And.intro hle hend
    · simpa [hsum] using hfirst
    · simpa [hsum] using hsecond
    · rw [hheld]
      rfl
  · rename_i hgo
    have hgo : c.togo = 0 := by omega
    rw [hgo, Nat.add_zero] at hle hend hfirst hsecond
    split at h
    · -- the read index is back at the start of the array
      rename_i hwraps
      cases h
      obtain ⟨hbefore, hr⟩ := hfirst hwraps
      have hav : c.bytes.length ≤ s.recv.available := by omega
      have hrlt := s.recv.r.isLt
      have hlt := s.recv.available_lt
      have hskip := skip_of_eq hr
      have hsub : c.left - c.bytes.length ≤ s.recv.available - c.bytes.length := by omega
      have hmore := available_skip hav
      have hfree := free_skip hav
      have hcontent := content_skip hav
      rw [hskip] at hmore hfree hcontent
      rw [← hmore] at hsub
      refine ⟨⟨by simp, hsub, ?_, by simp, by simp, Or.inl ?_⟩, ?_, ?_, rfl,
        ⟨rfl, rfl, rfl, rfl, rfl, rfl, rfl⟩⟩
      · simp only [List.length_nil, Nat.zero_add, Fin.val_zero]
        omega
      · intro hnil
        have : c.bytes.length = 0 := List.length_eq_zero_iff.2 hnil
        omega
      · show s.recv.free ≤ _
        rw [hfree]
        exact Nat.le_add_right _ _
      · show [] ++ c.bytes ++ _ = _
        rw [hcontent, hheld, hbefore, List.nil_append, List.nil_append]
        exact (congrArg (· ++ _) hbytes).trans (List.take_append_drop _ _)
    · -- the call is over
      rename_i hwraps
      cases h
      have hall : c.bytes.length = c.left := hsecond (Bool.not_eq_true _ ▸ hwraps)
      refine ⟨trivial, ?_, ?_, rfl, ⟨rfl, rfl, rfl, rfl, rfl, rfl, rfl⟩⟩
      · show s.recv.free ≤ (s.recv.skip c.left).free
        rw [free_skip hleft]
        exact Nat.le_add_right _ _
      · show c.before ++ c.bytes ++ [] ++ (s.recv.skip c.left).content = _
        rw [content_skip hleft, hheld, List.append_nil, List.append_assoc, hbytes, hall,
          List.take_append_drop]

theorem advance_moved (hv : Valid s) (h : advance s = some (t, o)) : Moved s t o := by
  have hr := hv.reader
  rw [advance] at h
  cases hs : s.reader with
  | idle => simp [hs] at h
  | waiting c again =>
    simp only [hs, Option.some.injEq] at h
    exact wake_moved hs h
  | getting =>
    simp only [hs, Option.some.injEq] at h
    rw [hs] at hr
    exact getByte_moved hs hr h
  | copying c =>
    simp only [hs, Option.some.injEq] at h
    rw [hs] at hr
    exact copyStep_moved hs hr h

/-- One step: what is written goes to the end of the queue, what is delivered comes from its front. -/
theorem step_spec (hv : Valid s) (h : step s a = some (t, o)) :
    Valid t ∧ o.delivered ++ t.reader.held ++ t.recv.content =
      s.reader.held ++ s.recv.content ++ o.written := by
  cases a with
  | setup request =>
    cases h
    exact ⟨⟨hv.reader, fun _ => ⟨rfl, rfl, rfl⟩, by simp [setupOut, startRx],
      by simp [setupOut, startRx]⟩, by simp [Output.delivered, Output.written, setupOut, startRx]⟩
  | packet p b =>
    obtain ⟨l, left, last, hr⟩ := receive_spec hv h
    obtain ⟨hw, hd⟩ := hr.written
    refine ⟨hr.valid hv, ?_⟩
    rw [hd, hw, hr.recv, hr.reader, content_put (Nat.le_trans (Nat.le_add_right _ _) hr.fits),
      List.nil_append, List.append_assoc]
  | call c =>
    rw [step] at h
    cases hs : s.reader with
    | idle =>
      simp only [hs, Option.some.injEq] at h
      have hm := call_moved hs h
      exact ⟨hm.valid hv, by rw [hm.moved, hm.written, List.append_nil, hs]⟩
    | waiting c again => simp [hs] at h
    | getting => simp [hs] at h
    | copying c => simp [hs] at h
  | run =>
    have hm := advance_moved hv h
    exact ⟨hm.valid hv, by rw [hm.moved, hm.written, List.append_nil]⟩

open Lts

/-- What was put in is what was delivered, what the reader holds and what is in the ring. -/
theorem delivered_eq {es : List (State × Action × Output)} (h0 : Initial s)
    (h : Runs step (fun _ _ => True) s es t) :
    gets es ++ (t.reader.held ++ t.recv.content) = puts es ∧ Valid t := by
  refine h.invariant_trace
    (I := fun es t => gets es ++ (t.reader.held ++ t.recv.content) = puts es ∧ Valid t) ?_ ?_
  · rw [h0.content, h0.reader]
    exact ⟨rfl, h0.valid⟩
  · rintro es x b y o ⟨ih, hv⟩ - hs
    obtain ⟨hy, hmoved⟩ := step_spec hv hs
    refine ⟨?_, hy⟩
    simp only [gets, puts, List.flatMap_append, List.flatMap_singleton] at ih ⊢
    rw [← ih, List.append_assoc, ← List.append_assoc, List.append_assoc _ _ o.written, ← hmoved,
      List.append_assoc, List.append_assoc]

/-! ## What is put in is what the host has sent -/

/-- The write index will be below the read index once `k` bytes are written. -/
def Below (s : State) (k : Nat) : Prop := (s.recv.w + k) % 1024 < s.recv.r

/-- The reader is in a wait of `dbgconsole_read`. -/
def Reader.waits : Reader → Bool
  | .waiting (.read _) _ => true
  | _ => false

/-- What the host and the readers have to do. A first packet brings the bytes that are taken from it;
each other packet brings the full number, and none is reported as missing before the last one; with the
last byte of a command the write index is below the read index; and a wait of `dbgconsole_read` ends
with nothing in the ring. -/
@[grind =] def Served (s : State) : Action → Prop
  | .setup _ => True
  | .packet p b =>
    (s.dbgstate = .setup → min 48 (total s p) ≤ p.length - 16 ∧
      (total s p ≤ 48 → Below s (total s p))) ∧
    (s.dbgstate = .writeConsole → p.length = min (64 - b) s.dbgmemlen ∧
      (b = 0 ∨ p.length = s.dbgmemlen) ∧ (p.length = s.dbgmemlen → Below s p.length))
  | .call _ => True
  | .run => s.reader.waits = true → s.recv.available = 0

instance (s : State) (k : Nat) : Decidable (Below s k) :=
  inferInstanceAs (Decidable ((s.recv.w + k) % 1024 < s.recv.r))

instance (s : State) : (a : Action) → Decidable (Served s a)
  | .setup _ => .isTrue trivial
  | .call _ => .isTrue trivial
  | .run => inferInstanceAs (Decidable (s.reader.waits = true → s.recv.available = 0))
  | .packet p b => inferInstanceAs (Decidable
      ((s.dbgstate = .setup → min 48 (total s p) ≤ p.length - 16 ∧
        (total s p ≤ 48 → Below s (total s p))) ∧
      (s.dbgstate = .writeConsole → p.length = min (64 - b) s.dbgmemlen ∧
        (b = 0 ∨ p.length = s.dbgmemlen) ∧ (p.length = s.dbgmemlen → Below s p.length))))

/-- The bytes put into the ring for a request are those that the host has sent; the host is told their
number and the free space; and a call other than one for 0 bytes that returns nothing has found the
ring empty. -/
@[grind =] def Right : State × Action × Output → Prop
  | (s, .packet p _, .put l answer) =>
    s.taken ++ l <+: s.sent ++ data s p ∧ ∀ r ∈ answer,
      (s.taken ++ l).length = r.count.toNat ∧ (s.recv.put l).free = r.free.toNat
  | (s, a, .returned l) => l = [] → a = .call (.read 0) ∨ s.recv.available = 0
  | _ => True

/-- Between the packets of a command, all that was sent is in the ring. -/
def UpToDate (s : State) : Prop := s.dbgstate = .writeConsole → s.taken = s.sent

theorem difference_eq_free_iff : s.recv.free = (difference s).toNat ↔ s.recv.w.val < s.recv.r.val := by
  have hr := s.recv.r.isLt
  have hw := s.recv.w.isLt
  rw [difference, BitVec.toNat_ofInt, free]
  split <;> omega

/-- Bytes taken from the buffer are the packet's as far as it goes. -/
theorem piece_copy_prefix_iff {raw : Nat → UInt8} {k m : Nat} :
    piece (copy raw 0 p) m k <+: p.drop m ↔ k ≤ (p.drop m).length := by
  constructor
  · intro h
    have := h.length_le
    rwa [length_piece] at this
  · intro h
    have heq : piece (copy raw 0 p) m k = (p.drop m).take k := by
      apply List.ext_getElem
      · rw [length_piece, List.length_take, Nat.min_eq_left h]
      · intro i h1 h2
        rw [length_piece] at h1
        have hi : m + i < p.length := by
          rw [List.length_drop] at h
          omega
        simp [piece, copy, hi]
    rw [heq]
    exact List.take_prefix _ _

/-- The answer's two numbers are right if no byte is missing and the indices have not crossed. -/
theorem Received.answer_iff {left : Nat} {last : Prop} (h : Received s t o p l left last) :
    Right (s, .packet p b, o) ↔
      s.taken ++ l <+: s.sent ++ data s p ∧ (last → left = 0 ∧ Below s l.length) := by
  have hfree : (s.recv.put l).free = (difference t).toNat ↔ Below s l.length := by
    have hrecv := h.recv
    rw [← hrecv, difference_eq_free_iff, hrecv]
    simp [Circular.put, Circular.grow, Below]
  have hcount : (s.taken ++ l).length = t.dbgbuf.count.toNat ↔ left = 0 := by
    rw [← h.taken, ← h.count]
    omega
  by_cases hlast : last
  · obtain ⟨rfl, hdiff, -, -⟩ := h.final hlast
    simp only [Right, Option.mem_def, Option.some.injEq, forall_eq', hdiff, hfree, hcount, hlast,
      forall_const]
  · rw [(h.more hlast).1]
    simp [Right, hlast]

/-- All bytes sent are in the ring, if that was so and the new bytes are the packet's. -/
theorem Received.upToDate {left : Nat} {last : Prop} (h : Received s t o p l left last)
    (hl : ¬ last → s.taken ++ l = s.sent ++ data s p) : UpToDate t := by
  intro hs
  by_cases hlast : last
  · simp [(h.final hlast).2.2.1] at hs
  · rw [h.taken, h.sent, hl hlast]

theorem right_setup_iff (hv : Valid s) (hd : s.dbgstate = .setup)
    (hs : receive s p b = some (t, o)) :
    (Right (s, .packet p b, o) ↔ Served s (.packet p b)) ∧ (Served s (.packet p b) → UpToDate t) := by
  obtain ⟨hr, hp, -⟩ := receive_setup hv hd hs
  obtain ⟨-, hsent, htaken⟩ := hv.setup hd
  have hstart : s.taken ++ piece (copy s.raw 0 p) 16 (min 48 (total s p)) <+: s.sent ++ data s p ↔
      min 48 (total s p) ≤ p.length - 16 := by
    rw [hsent, htaken, data, if_pos hd, List.nil_append, List.nil_append, piece_copy_prefix_iff,
      List.length_drop]
  have hserved : Served s (.packet p b) ↔ min 48 (total s p) ≤ p.length - 16 ∧
      (total s p ≤ 48 → Below s (total s p)) := by
    simp [Served, hd]
  constructor
  · rw [hr.answer_iff, hserved, hstart, length_piece]
    refine and_congr_right fun _ => forall_congr' fun hle => ?_
    rw [Nat.min_eq_right hle, Nat.sub_self]
    simp
  · intro hserve
    obtain ⟨hlen, -⟩ := hserved.1 hserve
    apply hr.upToDate
    intro hlast
    have heq := (hstart.2 hlen).eq_of_length
    apply heq
    rw [hsent, htaken, data, if_pos hd, List.nil_append, List.nil_append, length_piece,
      List.length_drop]
    omega

theorem right_more_iff (hv : Valid s) (hu : UpToDate s) (hd : s.dbgstate = .writeConsole)
    (hs : receive s p b = some (t, o)) :
    (Right (s, .packet p b, o) ↔ Served s (.packet p b)) ∧ (Served s (.packet p b) → UpToDate t) := by
  obtain ⟨hr, hp, hb⟩ := receive_more hv hd hs
  have hdata : data s p = p := if_neg (by simp [hd])
  have hstart : s.taken ++ piece (copy s.raw 0 p) 0 (min (64 - b) s.dbgmemlen) <+:
      s.sent ++ data s p ↔ min (64 - b) s.dbgmemlen ≤ p.length := by
    have h0 := @piece_copy_prefix_iff p s.raw (min (64 - b) s.dbgmemlen) 0
    rw [List.drop_zero] at h0
    rw [hu hd, hdata, List.prefix_append_right_inj, h0]
  have hserved : Served s (.packet p b) ↔ p.length = min (64 - b) s.dbgmemlen ∧
      (b = 0 ∨ p.length = s.dbgmemlen) ∧ (p.length = s.dbgmemlen → Below s p.length) := by
    simp [Served, hd]
  constructor
  · rw [hr.answer_iff, hserved, hstart, length_piece]
    generalize hk : min (64 - b) s.dbgmemlen = k
    constructor
    · rintro ⟨hle, hlast⟩
      by_cases hmore : k ≠ 0 ∧ s.dbgmemlen - k ≠ 0 ∧ b = 0
      · have hlen : p.length = k := by omega
        exact ⟨hlen, Or.inl hmore.2.2, fun hall => absurd hall (by omega)⟩
      · obtain ⟨hleft, hbelow⟩ := hlast hmore
        have hlen : p.length = k := by omega
        have hall : p.length = s.dbgmemlen := by omega
        rw [hlen] at hall ⊢
        exact ⟨rfl, Or.inr hall, fun _ => hbelow⟩
    · rintro ⟨hlen, hfull, hbelow⟩
      refine ⟨Nat.le_of_eq hlen.symm, fun hlast => ?_⟩
      have hall : p.length = s.dbgmemlen := by
        by_contra hne
        exact hlast (by omega)
      rw [← hlen]
      exact ⟨by omega, hbelow hall⟩
  · intro hserve
    obtain ⟨hlen, -, -⟩ := hserved.1 hserve
    apply hr.upToDate
    intro _
    apply (hstart.2 (Nat.le_of_eq hlen.symm)).eq_of_length
    rw [hu hd, hdata, List.length_append, List.length_append, length_piece, hlen]

/-- A call returns nothing only after a wait. -/
theorem right_run_iff (hv : Valid s) (h : advance s = some (t, o)) :
    Right (s, .run, o) ↔ Served s .run := by
  have hr := hv.reader
  rw [advance] at h
  simp only [Served]
  cases hs : s.reader with
  | idle => simp [hs] at h
  | waiting c again =>
    simp only [hs, Option.some.injEq] at h
    by_cases hav : s.recv.available = 0
    · simp only [wake, hav, if_true] at h
      split at h
      · cases h
        simp [Right, hav]
      · cases h
        simp [Right, hav]
    · simp only [wake, hav, if_false] at h
      cases c with
      | getc =>
        cases h
        simp [Right, Reader.waits]
      | read length =>
        simp only [startCopy, Nat.zero_min, if_true] at h
        cases h
        simp [Right, Reader.waits, hav]
  | getting =>
    simp only [hs, Option.some.injEq] at h
    cases h
    simp [Right, Reader.waits]
  | copying c =>
    simp only [hs, Option.some.injEq, copyStep] at h
    rw [hs] at hr
    split at h
    · cases h
      simp [Right, Reader.waits]
    · rename_i hgo
      split at h
      · cases h
        simp [Right, Reader.waits]
      · rename_i hwraps
        cases h
        have hall := hr.second (Bool.not_eq_true _ ▸ hwraps)
        have hne : c.before ++ c.bytes ≠ [] := by
          intro hnil
          obtain ⟨hbefore, hbytes⟩ := List.append_eq_nil_iff.1 hnil
          rw [hbytes, List.length_nil] at hall
          rcases hr.pos with hpos | hpos
          · exact hpos hbefore
          · omega
        simp [Right, Reader.waits, hne]

theorem right_call (c : Call) : Right (s, .call c, (call s c).2) := by
  cases c with
  | getc =>
    rw [call]
    split <;> simp [Right]
  | read length =>
    rw [call]
    split
    · rename_i hzero
      simp [Right, hzero]
    · rename_i hlength
      split
      · simp [Right]
      · rename_i hav
        have hpos : min s.recv.available length ≠ 0 := by omega
        rw [startCopy, if_neg hpos]
        split <;> simp [Right]

/-- A step from a state in which all is up to date. -/
theorem step_right_iff (hv : Valid s) (hu : UpToDate s) (h : step s a = some (t, o)) :
    (Right (s, a, o) ↔ Served s a) ∧ (Served s a → UpToDate t) := by
  cases a with
  | setup request =>
    cases h
    exact ⟨by simp [Right, Served], fun _ hs => by simp [setupOut, startRx] at hs⟩
  | packet p b =>
    rcases receive_cases hv h with hd | hd
    · exact right_setup_iff hv hd h
    · exact right_more_iff hv hu hd h
  | call c =>
    rw [step] at h
    cases hs : s.reader with
    | idle =>
      simp only [hs, Option.some.injEq] at h
      obtain ⟨hd, -, -, hsent, htaken, -, -⟩ := (call_moved hs h).host
      have hright := right_call (s := s) c
      rw [h] at hright
      exact ⟨iff_of_true hright trivial, fun _ => by rw [UpToDate, hd, hsent, htaken]; exact hu⟩
    | waiting c again => simp [hs] at h
    | getting => simp [hs] at h
    | copying c => simp [hs] at h
  | run =>
    obtain ⟨hd, -, -, hsent, htaken, -, -⟩ := (advance_moved hv h).host
    exact ⟨right_run_iff hv h, fun _ => by rw [UpToDate, hd, hsent, htaken]; exact hu⟩

/-- The ring hands on what it was given, and all its answers are right. -/
structure Refines (es : List (State × Action × Output)) (t : State) : Prop where
  delivered : gets es ++ (t.reader.held ++ t.recv.content) = puts es
  right : ∀ e ∈ es, Right e

/-- For every run from the start. -/
theorem recv_ring_iff {es : List (State × Action × Output)} (h0 : Initial s)
    (h : Runs step (fun _ _ => True) s es t) : Refines es t ↔ ∀ e ∈ es, Served e.1 e.2.1 := by
  have hu : UpToDate s := fun hs => by simp [h0.dbgstate] at hs
  have hiff := h.forall_entries_iff (I := Valid) (R := Right) (P := Served) h0.valid hu
    fun x b y o hv hs => ⟨(step_spec hv hs).1, fun hu => step_right_iff hv hu hs⟩
  rw [← hiff]
  exact ⟨fun hr => hr.right, fun hr => ⟨(delivered_eq h0 h).1, hr⟩⟩

/-! ## Two runs -/

def start : State where
  recv := ⟨fun _ => 0, 0, 0⟩
  reader := .idle
  dbgstate := .idle
  dbgmemlen := 0
  dbgbuf := ⟨0, 0, 0, 0⟩
  handler := false
  doeptsiz := 0
  raw := fun _ => 0
  sent := []
  taken := []

theorem start_initial : Initial start := ⟨rfl, rfl, rfl, rfl, rfl⟩

/-- The first 16 bytes of a WRITE CONSOLE of `n` bytes. -/
def header (n : BitVec 32) : List UInt8 := word 11 ++ word n ++ word 0 ++ word 0

/-- Of a long command all packets but the last one arrive; ten bytes are read; and a second command
goes round the end of the array. -/
def goodActions : List Action :=
  [.setup [], .packet (header 2000 ++ List.replicate 48 1) 0] ++
    List.replicate 15 (.packet (List.replicate 64 2) 0) ++
    [.call (.read 10)] ++ List.replicate 11 .run ++
    [.setup [], .packet (header 20 ++ List.replicate 20 3) 0]

theorem recv_ring_wrapped : ∃ es t, Runs step (fun _ _ => True) start es t ∧ (gets es).length = 10 ∧
    (puts es).length = 1028 ∧ Refines es t := by
  have hall : (trace step start goodActions).map (fun q =>
      ((gets q.1).length, (puts q.1).length, q.1.all fun e => decide (Served e.1 e.2.1))) =
        some (10, 1028, true) := by decide +kernel
  obtain ⟨⟨es, t⟩, ht, hq⟩ := Option.map_eq_some_iff.1 hall
  obtain ⟨hgets, hq⟩ := Prod.mk.inj hq
  obtain ⟨hputs, hserved⟩ := Prod.mk.inj hq
  have hruns : Runs step (fun _ _ => True) start es t := trace_runs ht fun _ _ _ => trivial
  refine ⟨es, t, hruns, hgets, hputs, (recv_ring_iff start_initial hruns).2 fun e he => ?_⟩
  exact of_decide_eq_true (List.all_eq_true.1 hserved e he)

/-- A byte arrives while `dbgconsole_read` waits: it returns 0, and the byte is in the ring. -/
def lateActions : List Action :=
  [.call (.read 4), .run, .setup [], .packet (header 1 ++ [7]) 0, .run]

theorem read_returns_nothing : ¬ ∀ s es t, Initial s → Runs step (fun _ _ => True) s es t →
    Refines es t := by
  intro h
  have hlast : (trace step start lateActions).map (fun q =>
      q.1.getLast?.map fun e => (e.2.1, e.2.2, e.1.recv.available)) =
        some (some (.run, .returned [], 1)) := by decide +kernel
  obtain ⟨⟨es, t⟩, ht, he⟩ := Option.map_eq_some_iff.1 hlast
  obtain ⟨⟨x, a, o⟩, hmem, he⟩ := Option.map_eq_some_iff.1 he
  obtain ⟨rfl, he⟩ := Prod.mk.inj he
  obtain ⟨rfl, hav⟩ := Prod.mk.inj he
  have hright := (h start es t start_initial (trace_runs ht fun _ _ _ => trivial)).right _
    (List.mem_of_getLast? hmem)
  simp [Right, hav] at hright

end ConsoleIn
end Usb
end Freemyipod
