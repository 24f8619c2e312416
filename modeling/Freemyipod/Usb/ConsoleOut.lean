import Mathlib.Algebra.Ring.Int.Defs
import Freemyipod.Lib.Circular
import Freemyipod.Lib.Runs

/-!
# Usb.ConsoleOut

The debug console's output (`emcore/usb/usbdebug.c`): a ring of 4096 bytes that `dbgconsole_write`
fills and the USB interrupt empties for READ CONSOLE. The functions of `emcore/console.c` call the
former with a mutex held, and `dbgconsole_swrite` in a critical section; a write of one byte does what
`dbgconsole_putc` does.

* `swrite_abridged`, `advance_good`: what writes do to the stream that the host has read and will read.
* `send_ring`: as long as each step meets `Served`, the host reads the written stream with the marker
  in the place of what was overwritten, and gets as many bytes as it is told.
-/

namespace Freemyipod
namespace Usb
namespace ConsoleOut

open Circular

def dbgconoverflowstr : List UInt8 :=
  "\n\n[overflowed]\n\n".toList.map fun c => UInt8.ofNat c.toNat

/-- The two pieces of a chunk of `space` bytes: how many bytes the `memcpy` that runs has copied and
has still to copy. -/
structure Copy where
  pos : Nat
  togo : Nat
  space : Nat
  /-- the first of two `memcpy` -/
  wraps : Bool

/-- Where `dbgconsole_write` is, with the bytes left to write. -/
inductive Writer
  | idle
  /-- before the first `dbgconsole_getfree` of a turn -/
  | checking (rest : List UInt8)
  /-- nothing was free -/
  | full (rest : List UInt8)
  /-- in `wakeup_wait` -/
  | waiting (rest : List UInt8)
  /-- before the critical section of `dbgconsole_makespace` -/
  | dropping (rest : List UInt8)
  | copying (rest : List UInt8) (copy : Copy)

/-- The variables of the output. `promised` and `given` note for the request at hand how many bytes the
host was told to get and how many it has got. -/
structure State where
  send : Circular UInt8 4096
  writer : Writer
  attached : Bool
  /-- `dbgstate` is `DBGSTATE_READ_CONSOLE` -/
  reading : Bool
  dbgmemaddr : Int
  dbgmemlen : Nat
  /-- `ep0_tx_callback` is `read_console_callback` -/
  callback : Bool
  promised : Nat
  given : Nat

inductive Output
  | none
  /-- the writer has moved the write index -/
  | wrote (bytes : List UInt8)
  | swrote (bytes : List UInt8)
  /-- `dbgbuf[1]`, the bytes in the packet, and their number as the packet's size says -/
  | answer (count : Nat) (data : List UInt8) (size : Int)
  | packet (data : List UInt8) (size : Int)
deriving DecidableEq

/-- What can happen: a write by the holder of the mutex, its next step, a write in a critical section,
command 10, the request for the answer, and the completion of a packet of the answer. -/
inductive Action
  | write (string : List UInt8)
  | advance
  | swrite (string : List UInt8)
  | command (n : BitVec 32)
  | fetch (wLength : Nat)
  | complete (bytesleft : Nat)
deriving DecidableEq

/-! ## The writer -/

/-- `dbgconsole_makespace` from the critical section on: the ring after it, with `length` bytes less. -/
def overflow (t : Circular UInt8 4096) (length : Nat) : Circular UInt8 4096 :=
  (t.skip (min length (4096 - 17))).overwrite dbgconoverflowstr

/-- `dbgconsole_makespace` with `safe` set, in a critical section. -/
def makespace (t : Circular UInt8 4096) (length : Nat) : Circular UInt8 4096 × Nat :=
  if t.free ≠ 0 then (t, min t.free length) else (overflow t length, min length (4096 - 17))

/-- `dbgconsole_swrite`: no turn writes nothing, so that there are `length` turns at most. -/
def swriteLoop : Nat → Circular UInt8 4096 → List UInt8 → Circular UInt8 4096
  | 0, t, _ => t
  | fuel + 1, t, string =>
    if string = [] then t
    else
      let (t, space) := makespace t string.length
      swriteLoop fuel (t.put (string.take space)) (string.drop space)

def dbgconsoleSwrite (t : Circular UInt8 4096) (string : List UInt8) : Circular UInt8 4096 :=
  swriteLoop string.length t string

variable (s : State)

/-- The body of the loop of `dbgconsole_write`, after `dbgconsole_makespace`. -/
def startCopy (rest : List UInt8) (space : Nat) : State :=
  if 4096 ≤ s.send.w + space then
    { s with writer := .copying rest ⟨0, 4096 - s.send.w, space, true⟩ }
  else { s with writer := .copying rest ⟨0, space, space, false⟩ }

/-- `free = dbgconsole_getfree();` and what follows. -/
def check (rest : List UInt8) : State :=
  if s.send.free ≠ 0 then startCopy s rest (min s.send.free rest.length)
  else { s with writer := .full rest }

/-- The condition of the loop of `dbgconsole_makespace`. -/
def waitOrDrop (rest : List UInt8) : State :=
  if s.attached = true then { s with attached := false, writer := .waiting rest }
  else { s with writer := .dropping rest }

def drop (rest : List UInt8) : State :=
  startCopy { s with send := overflow s.send rest.length } rest (min rest.length (4096 - 17))

/-- The next step of a copy: a byte, the start of the second `memcpy`, or the end. -/
def copyStep (rest : List UInt8) (c : Copy) : State × Output :=
  if c.togo ≠ 0 then
    let byte := (rest.drop c.pos).take 1
    ({ s with
      send := { s.send with buf := copy s.send.buf (s.send.w + c.pos) byte }
      writer := .copying rest { c with pos := c.pos + 1, togo := c.togo - 1 } }, .none)
  else if c.wraps = true then
    let space := c.space - c.pos
    ({ s with
      send := { s.send with w := 0 }
      writer := .copying (rest.drop c.pos) ⟨0, space, space, false⟩ }, .wrote (rest.take c.pos))
  else
    let left := rest.drop c.pos
    ({ s with
      send := s.send.grow c.pos
      writer := if left = [] then .idle else .checking left }, .wrote (rest.take c.pos))

def advance : Option (State × Output) :=
  match s.writer with
  | .idle => none
  | .checking rest => some (check s rest, .none)
  | .full rest => some (waitOrDrop s rest, .none)
  | .waiting rest => some (check s rest, .none)
  | .dropping rest => some (drop s rest, .none)
  | .copying rest c => some (copyStep s rest c)

/-! ## The host's side -/

/-- Bytes of a packet that the host gets. -/
def received (data : List UInt8) (size : Int) : List UInt8 := data.take size.toNat

/-- `usbdebug_handle_setup` with direction IN, in the state `DBGSTATE_READ_CONSOLE`. -/
def fetch (wLength : Nat) : State × Output :=
  let limit := min s.dbgmemaddr (wLength - 16)
  let len := BitVec.ofInt 32 ((s.send.w.val : Int) - s.send.r.val)
  -- `dbgmemlen` is unsigned: the correction is never made
  let len := if len < 0 then len + 4096 else len
  let len := if BitVec.ofInt 32 limit < len then BitVec.ofInt 32 limit else len
  let count := len.toNat
  let bytes := min 48 count
  let data := load 4096 s.send.buf s.send.r bytes
  let size := min 48 limit
  let dbgmemaddr := limit - size
  ({ s with
    send := s.send.skip bytes
    attached := true
    dbgmemlen := count - bytes
    dbgmemaddr
    reading := decide (dbgmemaddr ≠ 0)
    callback := decide (dbgmemaddr ≠ 0 ∧ ¬ size < 48)
    promised := count
    given := (received data size).length }, .answer count data size)

/-- `read_console_callback`. -/
def readConsoleCallback (bytesleft : Nat) : State × Output :=
  if bytesleft ≠ 0 ∨ s.dbgmemaddr = 0 then ({ s with callback := false }, .none)
  else
    let bytes := min 64 s.dbgmemlen
    let data := load 4096 s.send.buf s.send.r bytes
    let size := min 64 s.dbgmemaddr
    ({ s with
      send := s.send.skip bytes
      attached := true
      dbgmemlen := s.dbgmemlen - bytes
      dbgmemaddr := s.dbgmemaddr - size
      callback := decide (¬ size < 64)
      given := s.given + (received data size).length }, .packet data size)

def step : Action → Option (State × Output)
  | .write string =>
    match s.writer with
    | .idle => some ({ s with writer := if string = [] then .idle else .checking string }, .none)
    | _ => none
  | .advance => advance s
  | .swrite string =>
    some ({ s with send := dbgconsoleSwrite s.send string }, .swrote string)
  | .command n =>
    some ({ s with
      dbgmemaddr := n.toInt
      dbgmemlen := 0
      reading := true
      callback := false
      promised := 0
      given := 0 }, .none)
  | .fetch wLength => if s.reading = true then some (fetch s wLength) else none
  | .complete bytesleft =>
    if s.callback = true then some (readConsoleCallback s bytesleft) else none

/-- `usbdebug_init`. -/
structure Initial : Prop where
  r : s.send.r = 0
  w : s.send.w = 0
  writer : s.writer = .idle
  dbgmemaddr : s.dbgmemaddr = 0
  dbgmemlen : s.dbgmemlen = 0
  promised : s.promised = 0
  given : s.given = 0

/-! ## The stream -/

/-- `v` is the stream `w` with the marker in the place of blocks longer than it. -/
inductive Abridged : List UInt8 → List UInt8 → Prop
  | refl (l : List UInt8) : Abridged l l
  | replace {w p d q : List UInt8} : Abridged w (p ++ (d ++ q)) →
      dbgconoverflowstr.length < d.length → Abridged w (p ++ (dbgconoverflowstr ++ q))
  | append {w v : List UInt8} (l : List UInt8) : Abridged w v → Abridged (w ++ l) (v ++ l)

/-- What the host reads with an output. -/
def Output.read : Output → List UInt8
  | .answer _ data size => received data size
  | .packet data size => received data size
  | _ => []

/-- What the holder of the mutex has written. -/
def Output.own : Output → List UInt8
  | .wrote l => l
  | _ => []

/-- What was written. -/
def Output.written : Output → List UInt8
  | .wrote l => l
  | .swrote l => l
  | _ => []

def Action.string : Action → List UInt8
  | .write l => l
  | _ => []

def Writer.rest : Writer → List UInt8
  | .idle => []
  | .checking l => l
  | .full l => l
  | .waiting l => l
  | .dropping l => l
  | .copying l _ => l

/-- The writer is between `dbgconsole_makespace` and the last change of the write index. -/
def Writer.copies : Writer → Bool
  | .copying _ _ => true
  | _ => false

/-- The chunk fits, and what is copied of it stands behind the write index. -/
structure Copy.Valid (t : Circular UInt8 4096) (rest : List UInt8) (c : Copy) : Prop where
  space_le_free : c.space ≤ t.free
  space_le : c.space ≤ rest.length
  fits : c.pos + c.togo ≤ c.space ∧ t.w + (c.pos + c.togo) ≤ 4096
  first : c.wraps = true → t.w + (c.pos + c.togo) = 4096
  second : c.wraps = false → c.pos + c.togo = c.space
  copied : piece t.buf t.w c.pos = rest.take c.pos

/-- Outside of a copy there is something left to write. -/
def Writer.Valid (t : Circular UInt8 4096) : Writer → Prop
  | .idle => True
  | .copying rest c => c.Valid t rest
  | x => x.rest ≠ []

/-- The invariant: what is to be sent of the promised bytes fits into what is to be sent. -/
structure Valid : Prop where
  writer : s.writer.Valid s.send
  addr : s.dbgmemaddr < 2 ^ 31
  room : (s.dbgmemlen : Int) ≤ max 0 s.dbgmemaddr
  given : s.given + s.dbgmemlen = s.promised

variable {s} {t : State} {a : Action} {o : Output} {r r' : Circular UInt8 4096}
  {l rest v w : List UInt8} {space k : Nat}

theorem length_dbgconoverflowstr : dbgconoverflowstr.length = 16 := by decide

/-- The oldest bytes are replaced by the marker. -/
theorem overflow_spec (hk : min k (4096 - 17) + 16 ≤ r.available) :
    (overflow r k).content = dbgconoverflowstr ++ r.content.drop (min k (4096 - 17) + 16) ∧
      min k (4096 - 17) ≤ (overflow r k).free := by
  have hskip : min k (4096 - 17) ≤ r.available := by omega
  have hav := available_skip hskip
  have hfree := free_skip hskip
  constructor
  · rw [overflow, content_overwrite (by rw [hav, length_dbgconoverflowstr]; omega),
      content_skip hskip, List.drop_drop, length_dbgconoverflowstr]
  · show _ ≤ (r.skip _).free
    omega

/-- A drop of bytes that have not been read. -/
theorem overflow_abridged (hk : min k (4096 - 17) + 16 ≤ r.available) (hpos : 0 < k)
    (h : Abridged w (v ++ r.content)) : Abridged w (v ++ (overflow r k).content) := by
  rw [(overflow_spec hk).1]
  apply Abridged.replace (d := r.content.take (min k (4096 - 17) + 16))
  · rw [List.take_append_drop]
    exact h
  · rw [List.length_take, length_content, length_dbgconoverflowstr]
    omega

/-- One turn of a write in a critical section. -/
theorem makespace_spec (hk : 0 < k) (hs : makespace r k = (r', space))
    (h : Abridged w (v ++ r.content)) :
    Abridged w (v ++ r'.content) ∧ space ≤ r'.free ∧ space ≤ k ∧ 0 < space := by
  rw [makespace] at hs
  have hsum := r.available_add_free
  split at hs
  · cases hs
    exact ⟨h, by omega, by omega, by omega⟩
  · cases hs
    have hroom : min k (4096 - 17) + 16 ≤ r.available := by omega
    exact ⟨overflow_abridged hroom hk h, (overflow_spec hroom).2, by omega, by omega⟩

theorem swriteLoop_abridged {fuel : Nat} (hf : l.length ≤ fuel)
    (h : Abridged w (v ++ r.content)) : Abridged (w ++ l) (v ++ (swriteLoop fuel r l).content) := by
  induction fuel generalizing r l w with
  | zero =>
    have hl : l = [] := List.length_eq_zero_iff.1 (by omega)
    rw [hl, List.append_nil]
    exact h
  | succ fuel ih =>
    rw [swriteLoop]
    split
    · rename_i hl
      rw [hl, List.append_nil]
      exact h
    · rename_i hl
      have hpos : 0 < l.length := List.length_pos_iff.2 hl
      generalize hm : makespace r l.length = m
      obtain ⟨r', space⟩ := m
      obtain ⟨habr, hfree, hle, hspace⟩ := makespace_spec hpos hm h
      have hput : Abridged (w ++ l.take space) (v ++ (r'.put (l.take space)).content) := by
        rw [content_put (by rw [List.length_take]; omega), ← List.append_assoc]
        exact habr.append _
      have hrest := ih (l := l.drop space) (by rw [List.length_drop]; omega) hput
      rw [List.append_assoc, List.take_append_drop] at hrest
      exact hrest

/-- A write in a critical section. -/
theorem swrite_abridged (h : Abridged w (v ++ r.content)) :
    Abridged (w ++ l) (v ++ (dbgconsoleSwrite r l).content) := swriteLoop_abridged (Nat.le_refl _) h

/-- A writer's step: the stream is as it was, but for a block that the marker replaces. -/
structure Good (s t : State) (o : Output) : Prop where
  writer : t.writer.Valid t.send
  stream : ∀ w v, Abridged w (v ++ s.send.content) → Abridged (w ++ o.written) (v ++ t.send.content)
  own : s.writer.rest = o.own ++ t.writer.rest
  read : o.read = []
  host : t.dbgmemlen = s.dbgmemlen ∧ t.dbgmemaddr = s.dbgmemaddr ∧ t.given = s.given ∧
    t.promised = s.promised

/-- A step after which the ring holds what it held. -/
theorem Good.of_writer {x : Writer} {b : Bool} (hx : x.Valid s.send) (hrest : s.writer.rest = x.rest) :
    Good s { s with writer := x, attached := b } .none where
  writer := hx
  stream := fun w v h => by
    show Abridged (w ++ []) _
    rw [List.append_nil]
    exact h
  own := hrest
  read := rfl
  host := ⟨rfl, rfl, rfl, rfl⟩

/-- A chunk of `space` bytes is begun. -/
theorem startCopy_good (hfree : space ≤ s.send.free) (hspace : space ≤ rest.length)
    (hrest : s.writer.rest = rest) : Good s (startCopy s rest space) .none := by
  have hw := s.send.w.isLt
  rw [startCopy]
  split
  · have hend : s.send.w.val + (0 + (4096 - s.send.w.val)) = 4096 := by omega
    have hfits : 0 + (4096 - s.send.w.val) ≤ space := by omega
    exact Good.of_writer (b := s.attached)
      ⟨hfree, hspace, ⟨hfits, Nat.le_of_eq hend⟩, fun _ => hend, by simp, rfl⟩ hrest
  · have hfits : 0 + space ≤ space ∧ s.send.w.val + (0 + space) ≤ 4096 := by omega
    exact Good.of_writer (b := s.attached)
      ⟨hfree, hspace, hfits, by simp, by simp, rfl⟩ hrest

theorem check_good (hpos : rest ≠ []) (hrest : s.writer.rest = rest) :
    Good s (check s rest) .none := by
  rw [check]
  split
  · exact startCopy_good (Nat.min_le_left _ _) (Nat.min_le_right _ _) hrest
  · exact Good.of_writer (x := .full rest) (b := s.attached) hpos hrest

theorem waitOrDrop_good (hpos : rest ≠ []) (hrest : s.writer.rest = rest) :
    Good s (waitOrDrop s rest) .none := by
  rw [waitOrDrop]
  split
  · exact Good.of_writer (x := .waiting rest) hpos hrest
  · exact Good.of_writer (x := .dropping rest) (b := s.attached) hpos hrest

theorem drop_good (hpos : rest ≠ []) (hrest : s.writer.rest = rest)
    (hk : min rest.length (4096 - 17) + 16 ≤ s.send.available) : Good s (drop s rest) .none := by
  obtain ⟨-, hfree⟩ := overflow_spec hk
  have hlen : 0 < rest.length := List.length_pos_iff.2 hpos
  have hgood := startCopy_good (s := { s with send := overflow s.send rest.length }) hfree
    (Nat.min_le_left _ _) hrest
  refine ⟨hgood.writer, fun w v h => hgood.stream w v ?_, hgood.own, rfl, hgood.host⟩
  exact overflow_abridged hk hlen h

theorem copyStep_good {c : Copy} (hw : s.writer = .copying rest c) (hv : c.Valid s.send rest) :
    Good s (copyStep s rest c).1 (copyStep s rest c).2 := by
  obtain ⟨hfree, hspace, ⟨hle, hend⟩, hfirst, hsecond, hcopied⟩ := hv
  have hrest : s.writer.rest = rest := by rw [hw]; rfl
  rw [copyStep]
  split
  · -- a byte behind the write index
    rename_i hgo
    have hlt : c.pos < rest.length := by omega
    have hbyte : (rest.drop c.pos).take 1 = [rest[c.pos]] := by
      rw [List.drop_eq_getElem_cons hlt]
      rfl
    have hstore : store 4096 s.send.buf ((s.send.w + c.pos) % 4096) [rest[c.pos]] =
        copy s.send.buf (s.send.w + c.pos) [rest[c.pos]] := by
      rw [Nat.mod_eq_of_lt (by omega), store_of_le (by simp only [List.length_singleton]; omega)]
    have hcontent := s.send.content_store (l := [rest[c.pos]]) (o := c.pos)
      (by simp only [List.length_singleton]; omega)
    rw [hstore] at hcontent
    have hpiece : piece (copy s.send.buf (s.send.w + c.pos) [rest[c.pos]]) s.send.w (c.pos + 1) =
        rest.take (c.pos + 1) := by
      rw [piece_succ, piece_copy_of_le (Nat.le_refl _), hcopied, List.take_add_one,
        List.getElem?_eq_getElem hlt]
      simp [copy]
    have hsum : c.pos + 1 + (c.togo - 1) = c.pos + c.togo := by omega
    rw [hbyte]
    refine ⟨⟨hfree, hspace, ?_, ?_, ?_, hpiece⟩, fun w v h => ?_, hrest, rfl, ⟨rfl, rfl, rfl, rfl⟩⟩
    · rw [hsum]
      exact ⟨hle, hend⟩
    · rw [hsum]
      exact hfirst
    · rw [hsum]
      exact hsecond
    · show Abridged (w ++ []) (v ++ content _)
      rw [hcontent, List.append_nil]
      exact h
  · rename_i hgo
    have hgo : c.togo = 0 := by omega
    rw [hgo, Nat.add_zero] at hle hend hfirst hsecond
    -- what was copied becomes the end of the content
    have hgrow : (s.send.grow c.pos).content = s.send.content ++ rest.take c.pos := by
      rw [content_grow (by omega), window_eq_piece hend, hcopied]
    have hmore := free_grow (t := s.send) (k := c.pos) (by omega)
    split
    · rename_i hwraps
      have hzero := grow_of_eq (hfirst hwraps)
      rw [hzero] at hgrow hmore
      refine ⟨⟨?_, ?_, ?_, by simp, by simp, rfl⟩, fun w v h => ?_, ?_, rfl, ⟨rfl, rfl, rfl, rfl⟩⟩
      · show c.space - c.pos ≤ free _
        rw [hmore]
        omega
      · show c.space - c.pos ≤ _
        rw [List.length_drop]
        omega
      · simp only [Nat.zero_add, Fin.val_zero]
        have hsum := s.send.available_add_free
        omega
      · show Abridged (w ++ rest.take c.pos) (v ++ content _)
        rw [hgrow, ← List.append_assoc]
        exact h.append _
      · rw [hrest]
        exact (List.take_append_drop _ _).symm
    · refine ⟨?_, fun w v h => ?_, ?_, rfl, ⟨rfl, rfl, rfl, rfl⟩⟩
      · show Writer.Valid _ (if rest.drop c.pos = [] then Writer.idle
          else Writer.checking (rest.drop c.pos))
        split
        · trivial
        · assumption
      · show Abridged (w ++ rest.take c.pos) (v ++ (s.send.grow c.pos).content)
        rw [hgrow, ← List.append_assoc]
        exact h.append _
      · have hsplit : rest.drop c.pos = (if rest.drop c.pos = [] then Writer.idle
            else Writer.checking (rest.drop c.pos)).rest := by
          split
          · assumption
          · rfl
        rw [hrest]
        show rest = rest.take c.pos ++ _
        rw [← hsplit, List.take_append_drop]

/-- The bytes that the next step takes out of the ring or writes the marker over. -/
def Writer.lost : Writer → Nat
  | .dropping rest => min rest.length (4096 - 17) + 16
  | _ => 0

/-- What is asked of the steps: the answer's size is no less than that of its head, and the read index
is not above the write index or there are as many bytes as are asked for, if there are any at all; the
bytes of a later packet are still in the ring; so are those that a write drops, and the marker's; and no
write in a critical section comes while another one copies. -/
def Served (s : State) : Action → Prop
  | .fetch wLength => s.send.available = 0 ∨ (0 ≤ min s.dbgmemaddr (wLength - 16) ∧
      (s.send.r ≤ s.send.w ∨ min s.dbgmemaddr (wLength - 16) ≤ s.send.available))
  | .complete bytesleft => bytesleft = 0 → s.dbgmemaddr ≠ 0 → min 64 s.dbgmemlen ≤ s.send.available
  | .advance => s.writer.lost ≤ s.send.available
  | .swrite string => string = [] ∨ s.writer.copies = false
  | .write _ => True
  | .command _ => True

instance (s : State) : (a : Action) → Decidable (Served s a)
  | .fetch wLength => inferInstanceAs (Decidable (s.send.available = 0 ∨
      (0 ≤ min s.dbgmemaddr (wLength - 16) ∧
        (s.send.r ≤ s.send.w ∨ min s.dbgmemaddr (wLength - 16) ≤ s.send.available))))
  | .complete bytesleft => inferInstanceAs (Decidable
      (bytesleft = 0 → s.dbgmemaddr ≠ 0 → min 64 s.dbgmemlen ≤ s.send.available))
  | .advance => inferInstanceAs (Decidable (s.writer.lost ≤ s.send.available))
  | .swrite string => inferInstanceAs (Decidable (string = [] ∨ s.writer.copies = false))
  | .write _ => .isTrue trivial
  | .command _ => .isTrue trivial

theorem advance_good (hv : Valid s) (hserved : Served s .advance) (h : advance s = some (t, o)) :
    Good s t o := by
  have hwv := hv.writer
  rw [advance] at h
  cases hw : s.writer with
  | idle => simp [hw] at h
  | checking rest =>
    simp only [hw, Option.some.injEq, Prod.mk.injEq] at h
    obtain ⟨rfl, rfl⟩ := h
    rw [hw] at hwv
    exact check_good hwv (by rw [hw]; rfl)
  | full rest =>
    simp only [hw, Option.some.injEq, Prod.mk.injEq] at h
    obtain ⟨rfl, rfl⟩ := h
    rw [hw] at hwv
    exact waitOrDrop_good hwv (by rw [hw]; rfl)
  | waiting rest =>
    simp only [hw, Option.some.injEq, Prod.mk.injEq] at h
    obtain ⟨rfl, rfl⟩ := h
    rw [hw] at hwv
    exact check_good hwv (by rw [hw]; rfl)
  | dropping rest =>
    simp only [hw, Option.some.injEq, Prod.mk.injEq] at h
    obtain ⟨rfl, rfl⟩ := h
    rw [hw] at hwv
    rw [Served, hw] at hserved
    exact drop_good hwv (by rw [hw]; rfl) hserved
  | copying rest c =>
    simp only [hw, Option.some.injEq] at h
    rw [hw] at hwv
    have hgood := copyStep_good hw hwv
    rw [h] at hgood
    exact hgood

/-! ## The answer -/

/-- The host gets the oldest bytes, as many as are there or asked for, and with each later packet the
next ones of them. -/
def Right : State × Action × Output → Prop
  | (s, .fetch wLength, .answer count data size) =>
    count = min s.send.available (min s.dbgmemaddr (wLength - 16)).toNat ∧
      received data size = s.send.content.take (min 48 count)
  | (s, .complete _, .packet data size) =>
    received data size = s.send.content.take (min 64 s.dbgmemlen) ∧
      (received data size).length = min 64 s.dbgmemlen
  | _ => True

/-- A step of the host takes bytes from the front. -/
structure Taken (s t : State) (o : Output) : Prop where
  writer : t.writer = s.writer
  read : o.read ++ t.send.content = s.send.content
  written : o.written = [] ∧ o.own = []
  valid : Valid t

/-- Moving the read index over bytes that are there. -/
theorem Writer.Valid.skip {x : Writer} (h : x.Valid r) (hk : k ≤ r.available) :
    x.Valid (r.skip k) := by
  have hfree := free_skip hk
  cases x with
  | idle => trivial
  | copying rest c =>
    obtain ⟨h1, h2, h3, h4, h5, h6⟩ := h
    exact ⟨by rw [hfree]; exact Nat.le_trans h1 (Nat.le_add_right _ _), h2, h3, h4, h5, h6⟩
  | checking rest => exact h
  | full rest => exact h
  | waiting rest => exact h
  | dropping rest => exact h

/-- The number of bytes promised, with a limit that the head of the answer leaves. -/
theorem count_eq_of_limit {limit : Int} (hlimit : 0 ≤ limit) (hl : limit < 2 ^ 31)
    (h : r.r ≤ r.w ∨ limit ≤ r.available) :
    (if BitVec.ofInt 32 limit < BitVec.ofInt 32 ((r.w.val : Int) - r.r.val) then
      BitVec.ofInt 32 limit else BitVec.ofInt 32 ((r.w.val : Int) - r.r.val)).toNat =
        min r.available limit.toNat := by
  have hr := r.r.isLt
  have hw := r.w.isLt
  have hlim : (BitVec.ofInt 32 limit).toNat = limit.toNat := by
    rw [BitVec.toNat_ofInt]
    omega
  rw [Fin.le_def] at h
  rw [apply_ite BitVec.toNat]
  by_cases hle : r.r.val ≤ r.w.val
  · have hav : r.available = r.w.val - r.r.val := if_pos hle
    have hlen : (BitVec.ofInt 32 ((r.w.val : Int) - r.r.val)).toNat = r.w.val - r.r.val := by
      rw [BitVec.toNat_ofInt]
      omega
    simp only [BitVec.lt_def, hlim, hlen, hav]
    split <;> omega
  · have hav : r.available = r.w.val + 4096 - r.r.val := if_neg hle
    have hlen : (BitVec.ofInt 32 ((r.w.val : Int) - r.r.val)).toNat =
        r.w.val + 2 ^ 32 - r.r.val := by
      rw [BitVec.toNat_ofInt]
      omega
    have hroom : limit ≤ r.w.val + 4096 - r.r.val := by omega
    simp only [BitVec.lt_def, hlim, hlen, hav]
    split <;> omega

theorem unadjusted (x : BitVec 32) : (if x < 0 then x + 4096 else x) = x := if_neg BitVec.not_lt_zero

theorem count_eq {limit : Int} (hl : limit < 2 ^ 31)
    (h : r.available = 0 ∨ (0 ≤ limit ∧ (r.r ≤ r.w ∨ limit ≤ r.available))) :
    (if BitVec.ofInt 32 limit < BitVec.ofInt 32 ((r.w.val : Int) - r.r.val) then
      BitVec.ofInt 32 limit else BitVec.ofInt 32 ((r.w.val : Int) - r.r.val)).toNat =
        min r.available limit.toNat := by
  rcases h with hempty | ⟨hlimit, h⟩
  · have heq := available_eq_zero_iff.1 hempty
    have hzero : BitVec.ofInt 32 ((r.w.val : Int) - r.r.val) = 0#32 := by
      rw [heq, Int.sub_self]
      rfl
    rw [hzero, if_neg BitVec.not_lt_zero, hempty, Nat.zero_min]
    rfl
  · exact count_eq_of_limit hlimit hl h

/-- Taking bytes that are there and fit into the packet. -/
theorem received_load {size : Int} (hk : k ≤ s.send.available) (hsize : k ≤ size.toNat) :
    received (load 4096 s.send.buf s.send.r k) size = s.send.content.take k ∧
      (received (load 4096 s.send.buf s.send.r k) size).length = k := by
  have hdata := load_eq_take hk
  have hlen : (s.send.content.take k).length = k := by
    rw [List.length_take, length_content, Nat.min_eq_left hk]
  rw [hdata, received, List.take_of_length_le (by omega)]
  exact ⟨rfl, hlen⟩

/-- The first packet of an answer. -/
theorem fetch_taken {wLength : Nat} (hv : Valid s) (hserved : Served s (.fetch wLength))
    (h : fetch s wLength = (t, o)) : Taken s t o ∧ Right (s, .fetch wLength, o) := by
  obtain ⟨hwriter, haddr, -, -⟩ := hv
  simp only [Served] at hserved
  simp only [fetch, unadjusted] at h
  generalize hlimit : min s.dbgmemaddr ((wLength : Int) - 16) = limit at h hserved
  have hl : limit < 2 ^ 31 := by omega
  rw [count_eq hl hserved] at h
  generalize hc : min s.send.available limit.toNat = c at h
  have hk : min 48 c ≤ s.send.available := by omega
  have hfits : min 48 c ≤ (min 48 limit).toNat := by omega
  obtain ⟨hread, hlen⟩ := received_load hk hfits
  have hroom : ((c - min 48 c : Nat) : Int) ≤ max 0 (limit - min 48 limit) := by omega
  have hnext : limit - min 48 limit < 2 ^ 31 := by omega
  have hsum : min 48 c + (c - min 48 c) = c := by omega
  cases h
  refine ⟨⟨rfl, ?_, ⟨rfl, rfl⟩, ⟨hwriter.skip hk, hnext, hroom, ?_⟩⟩, ?_⟩
  · show received _ _ ++ (s.send.skip (min 48 c)).content = _
    rw [hread, content_skip hk, List.take_append_drop]
  · show (received _ _).length + (c - min 48 c) = c
    rw [hlen, hsum]
  · simp only [Right, hlimit]
    exact ⟨hc.symm, hread⟩

/-- The other packets. -/
theorem complete_taken {bytesleft : Nat} (hv : Valid s) (hserved : Served s (.complete bytesleft))
    (h : readConsoleCallback s bytesleft = (t, o)) :
    Taken s t o ∧ Right (s, .complete bytesleft, o) := by
  obtain ⟨hwriter, haddr, hroom, hgiven⟩ := hv
  rw [readConsoleCallback] at h
  split at h
  · cases h
    exact ⟨⟨rfl, rfl, ⟨rfl, rfl⟩, ⟨hwriter, haddr, hroom, hgiven⟩⟩, trivial⟩
  · rename_i hmore
    have hk : min 64 s.dbgmemlen ≤ s.send.available := hserved (by omega) (by omega)
    have hfits : min 64 s.dbgmemlen ≤ (min 64 s.dbgmemaddr).toNat := by omega
    obtain ⟨hread, hlen⟩ := received_load hk hfits
    have hleft : ((s.dbgmemlen - min 64 s.dbgmemlen : Nat) : Int) ≤
        max 0 (s.dbgmemaddr - min 64 s.dbgmemaddr) := by omega
    have hnext : s.dbgmemaddr - min 64 s.dbgmemaddr < 2 ^ 31 := by omega
    cases h
    refine ⟨⟨rfl, ?_, ⟨rfl, rfl⟩, ⟨hwriter.skip hk, hnext, hleft, ?_⟩⟩, hread, hlen⟩
    · show received _ _ ++ (s.send.skip (min 64 s.dbgmemlen)).content = _
      rw [hread, content_skip hk, List.take_append_drop]
    · show s.given + (received _ _).length + (s.dbgmemlen - min 64 s.dbgmemlen) = s.promised
      rw [hlen]
      omega

/-! ## Runs -/

open Lts

def puts (es : List (State × Action × Output)) : List UInt8 := es.flatMap fun e => e.2.2.written

/-- All bytes that the host has read. -/
def reads (es : List (State × Action × Output)) : List UInt8 := es.flatMap fun e => e.2.2.read

/-- The strings given to `dbgconsole_write`, one after the other. -/
def calls (es : List (State × Action × Output)) : List UInt8 := es.flatMap fun e => e.2.1.string

def own (es : List (State × Action × Output)) : List UInt8 := es.flatMap fun e => e.2.2.own

/-- What the host has read, with what it has not read yet, is the written stream but for what the
marker replaces; a write puts in what it is given; the host gets the bytes that are there or that it
asks for, as many as it is told. -/
structure Refines (es : List (State × Action × Output)) (t : State) : Prop where
  stream : Abridged (puts es) (reads es ++ t.send.content)
  calls : calls es = own es ++ t.writer.rest
  right : ∀ e ∈ es, Right e
  given : t.dbgmemaddr = 0 → t.given = t.promised

theorem Initial.valid (h : Initial s) : Valid s := by
  refine ⟨?_, ?_, ?_, ?_⟩
  · rw [h.writer]
    trivial
  · rw [h.dbgmemaddr]
    decide
  · rw [h.dbgmemlen]
    omega
  · rw [h.given, h.dbgmemlen, h.promised]

theorem Initial.content (h : Initial s) : s.send.content = [] := by
  rw [content_eq_nil_iff, available_eq_zero_iff, h.r, h.w]

/-- Other writes do not come while the writer copies, and do not change what it has left. -/
theorem Writer.Valid.of_copies {x : Writer} (h : x.Valid r) (hc : x.copies = false) :
    x.Valid r' := by
  cases x with
  | copying rest c => simp [Writer.copies] at hc
  | idle => trivial
  | checking rest => exact h
  | full rest => exact h
  | waiting rest => exact h
  | dropping rest => exact h

/-- What one step does. -/
structure Kept (s : State) (a : Action) (o : Output) (t : State) : Prop where
  valid : Valid t
  stream : ∀ w v, Abridged w (v ++ s.send.content) →
    Abridged (w ++ o.written) (v ++ (o.read ++ t.send.content))
  calls : s.writer.rest ++ a.string = o.own ++ t.writer.rest
  right : Right (s, a, o)

theorem Taken.kept (h : Taken s t o) (ha : a.string = []) (hr : Right (s, a, o)) :
    Kept s a o t := by
  refine ⟨h.valid, fun w v habr => ?_, ?_, hr⟩
  · rw [h.written.1, h.read, List.append_nil]
    exact habr
  · rw [ha, h.written.2, h.writer, List.append_nil, List.nil_append]

theorem Good.kept (h : Good s t o) (hv : Valid s) : Kept s .advance o t := by
  obtain ⟨hlen, haddr, hgiven, hpromised⟩ := h.host
  refine ⟨⟨h.writer, ?_, ?_, ?_⟩, fun w v habr => ?_, ?_, trivial⟩
  · rw [haddr]
    exact hv.addr
  · rw [haddr, hlen]
    exact hv.room
  · rw [hgiven, hlen, hpromised]
    exact hv.given
  · rw [h.read, List.nil_append]
    exact h.stream w v habr
  · rw [h.own]
    exact List.append_nil _

theorem step_kept (hv : Valid s) (hserved : Served s a) (h : step s a = some (t, o)) :
    Kept s a o t := by
  cases a with
  | advance => exact (advance_good hv hserved h).kept hv
  | fetch wLength =>
    rw [step] at h
    split at h
    · obtain ⟨htaken, hright⟩ := fetch_taken hv hserved (Option.some.inj h)
      exact htaken.kept rfl hright
    · cases h
  | complete bytesleft =>
    rw [step] at h
    split at h
    · obtain ⟨htaken, hright⟩ := complete_taken hv hserved (Option.some.inj h)
      exact htaken.kept rfl hright
    · cases h
  | command n =>
    cases h
    have hn := @BitVec.toInt_lt 32 n
    refine ⟨⟨hv.writer, hn, ?_, rfl⟩, fun w v habr => ?_, List.append_nil _, trivial⟩
    · show (0 : Int) ≤ _
      omega
    · show Abridged (w ++ []) _
      rw [List.append_nil]
      exact habr
  | swrite string =>
    cases h
    refine ⟨⟨?_, hv.addr, hv.room, hv.given⟩, fun w v habr => swrite_abridged habr, ?_, trivial⟩
    · rcases hserved with hnil | hcopies
      · have hsame : dbgconsoleSwrite s.send string = s.send := by
          rw [hnil]
          rfl
        show s.writer.Valid (dbgconsoleSwrite s.send string)
        rw [hsame]
        exact hv.writer
      · exact hv.writer.of_copies hcopies
    · exact List.append_nil _
  | write string =>
    rw [step] at h
    cases hw : s.writer with
    | idle =>
      simp only [hw, Option.some.injEq, Prod.mk.injEq] at h
      obtain ⟨rfl, rfl⟩ := h
      refine ⟨⟨?_, hv.addr, hv.room, hv.given⟩, fun w v habr => ?_, ?_, trivial⟩
      · show Writer.Valid _ (if string = [] then Writer.idle else Writer.checking string)
        split
        · trivial
        · assumption
      · show Abridged (w ++ []) _
        rw [List.append_nil]
        exact habr
      · rw [hw]
        show string = (if string = [] then Writer.idle else Writer.checking string).rest
        split
        · assumption
        · rfl
    | checking rest => simp [hw] at h
    | full rest => simp [hw] at h
    | waiting rest => simp [hw] at h
    | dropping rest => simp [hw] at h
    | copying rest c => simp [hw] at h

/-- For every run from the start whose steps are as they are asked to be. -/
theorem send_ring {es : List (State × Action × Output)} (h0 : Initial s)
    (h : Runs step Served s es t) : Refines es t := by
  have hall := h.invariant_trace
    (I := fun es t => Valid t ∧ Abridged (puts es) (reads es ++ t.send.content) ∧
      calls es = own es ++ t.writer.rest ∧ ∀ e ∈ es, Right e) ?_ ?_
  · obtain ⟨hv, hstream, hcalls, hright⟩ := hall
    refine ⟨hstream, hcalls, hright, fun haddr => ?_⟩
    have hroom := hv.room
    have hgiven := hv.given
    rw [haddr] at hroom
    omega
  · rw [h0.content, h0.writer]
    exact ⟨h0.valid, .refl _, rfl, fun e he => absurd he List.not_mem_nil⟩
  · rintro es x b y o ⟨hv, hstream, hcalls, hright⟩ hserved hs
    have hkept := step_kept hv hserved hs
    refine ⟨hkept.valid, ?_, ?_, ?_⟩
    · have hnext := hkept.stream _ _ hstream
      simp only [puts, reads, List.flatMap_append, List.flatMap_singleton] at hnext ⊢
      rwa [List.append_assoc]
    · simp only [calls, own, List.flatMap_append, List.flatMap_singleton] at hcalls ⊢
      rw [hcalls, List.append_assoc, hkept.calls, List.append_assoc]
    · rw [List.forall_mem_append, List.forall_mem_singleton]
      exact ⟨hright, hkept.right⟩

/-! ## Two runs -/

def start : State where
  send := ⟨fun _ => 0, 0, 0⟩
  writer := .idle
  attached := false
  reading := false
  dbgmemaddr := 0
  dbgmemlen := 0
  callback := false
  promised := 0
  given := 0

theorem start_initial : Initial start := ⟨rfl, rfl, rfl, rfl, rfl, rfl, rfl⟩

/-- One byte more than the ring holds. -/
def fill : List Action := List.replicate 64 (.swrite (List.replicate 64 65))

/-- The host reads across the end of the ring. -/
def goodActions : List Action :=
  fill ++ [.command 48, .fetch 64, .write [1, 2]] ++ List.replicate 4 .advance ++
    [.command 100, .fetch 116, .complete 0]

theorem send_ring_wrapped : ∃ es t, Runs step Served start es t ∧
    (reads es).take 17 = dbgconoverflowstr ++ [65] ∧ (reads es).length = 148 ∧ Refines es t := by
  have hall : (trace step start goodActions).map (fun q =>
      ((reads q.1).take 17, (reads q.1).length, q.1.all fun e => decide (Served e.1 e.2.1))) =
        some (dbgconoverflowstr ++ [65], 148, true) := by decide +kernel
  obtain ⟨⟨es, t⟩, ht, hq⟩ := Option.map_eq_some_iff.1 hall
  obtain ⟨htake, hq⟩ := Prod.mk.inj hq
  obtain ⟨hlen, hserved⟩ := Prod.mk.inj hq
  have hany : Runs step (fun _ _ => True) start es t := trace_runs ht fun _ _ _ => trivial
  have hruns : Runs step Served start es t :=
    hany.of_forall fun e he _ => of_decide_eq_true (List.all_eq_true.1 hserved e he)
  exact ⟨es, t, hruns, htake, hlen, send_ring start_initial hruns⟩

def Output.count : Output → Nat
  | .answer count _ _ => count
  | _ => 0

/-- The ring is full and its content goes round its end: 5000 bytes are promised. -/
theorem promises_too_much : ¬ ∀ s es t, Initial s → Runs step (fun _ _ => True) s es t →
    Refines es t := by
  intro h
  have hlast : (trace step start (fill ++ [.command 5000, .fetch 5016])).map (fun q =>
      q.1.getLast?.map fun e => (e.2.1, e.2.2.count)) = some (some (.fetch 5016, 5000)) := by
    decide +kernel
  obtain ⟨⟨es, t⟩, ht, he⟩ := Option.map_eq_some_iff.1 hlast
  obtain ⟨⟨x, a, o⟩, hmem, he⟩ := Option.map_eq_some_iff.1 he
  obtain ⟨rfl, hcount⟩ := Prod.mk.inj he
  have hright := (h start es t start_initial (trace_runs ht fun _ _ _ => trivial)).right _
    (List.mem_of_getLast? hmem)
  have hlt := x.send.available_lt
  cases o with
  | answer count data size =>
    have hle : count = min x.send.available _ := hright.1
    simp only [Output.count] at hcount
    omega
  | none => simp [Output.count] at hcount
  | wrote bytes => simp [Output.count] at hcount
  | swrote bytes => simp [Output.count] at hcount
  | packet data size => simp [Output.count] at hcount

end ConsoleOut
end Usb
end Freemyipod
