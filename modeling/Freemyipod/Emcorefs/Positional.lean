import Mathlib.Algebra.Ring.Nat
import Mathlib.Logic.Function.Basic
import Freemyipod.Lib.Runs

/-!
# Emcorefs.Positional

Reading and writing at an offset (`emcorefs_read` and `emcorefs_write` in
`emcore/tools/emcorefs/fuse.c`), on a device whose files have a position.

* `Device`: files as bytes, and for each handle its file and position.
* `emcorefsRead_ok`, `emcorefsWrite_ok`: when a call succeeds, and what it reads or writes. It does not
  seek if the offset is 0.
* `positional_iff`: when all calls of a run that succeed get at the bytes that they are asked for.
-/

namespace Freemyipod
namespace Emcorefs

/-- The device, for handles and files that are numbers. -/
structure Device where
  /-- The file behind a handle. -/
  file : Nat → Nat
  pos : Nat → Nat
  content : Nat → List UInt8

/-- How a command fails: without an answer, or with `EMCORE_ERROR_IO` and what `emcore_errno` says then,
if it says anything. -/
inductive Fault
  | lost
  | errno (value : Option Nat)

/-- What fails in a call, and the bytes that are in the buffer on the device at first. -/
structure Faults where
  malloc : Bool
  seek : Option Fault
  transfer : Option Fault
  /-- `emcore_read` or `emcore_write` -/
  copy : Bool
  free : Bool

inductive Call
  | read (fh size offset : Nat)
  | write (fh : Nat) (buf : List UInt8) (offset : Nat)

/-- The bytes from `offset` to `offset + size`, as far as there are any. -/
def slice (bytes : List UInt8) (offset size : Nat) : List UInt8 := (bytes.drop offset).take size

/-- The bytes with those from `offset` on replaced by `buf`. -/
def overwrite (bytes : List UInt8) (offset : Nat) (buf : List UInt8) : List UInt8 :=
  bytes.take offset ++ List.replicate (offset - bytes.length) 0 ++ buf ++
    bytes.drop (offset + buf.length)

/-! ## The device -/

namespace Device

variable (d : Device)

def bytes (fh : Nat) : List UInt8 := d.content (d.file fh)

/-- `emcore_file_seek` with `SEEK_SET` -/
def fileSeek (fh offset : Nat) : Device := { d with pos := Function.update d.pos fh offset }

/-- `emcore_file_read`: the bytes are in the buffer. -/
def fileRead (fh size : Nat) : Device × List UInt8 :=
  (d.fileSeek fh (d.pos fh + (slice (d.bytes fh) (d.pos fh) size).length),
    slice (d.bytes fh) (d.pos fh) size)

/-- `emcore_file_write` -/
def fileWrite (fh : Nat) (buf : List UInt8) : Device :=
  { d.fileSeek fh (d.pos fh + buf.length) with
    content := Function.update d.content (d.file fh) (overwrite (d.bytes fh) (d.pos fh) buf) }

end Device

/-! ## The code -/

def EIO : Nat := 5

/-- What the code returns after a command; `none` if it goes on. -/
@[grind =] def check : Option Fault → Option Nat
  | none => none
  | some .lost => some EIO
  | some (.errno none) => some EIO
  -- `res` is what `emcore_errno` returned
  | some (.errno (some value)) => if value ≠ 0 then some value else none

/-- A `size_t` or an `off_t` as the device gets it. -/
def uint32 (n : Nat) : Nat := n % 2 ^ 32

/-- `emcore_malloc` of `size` bytes: there are no blocks of `block_size_max` bytes or more. -/
def malloc (size : Nat) (f : Faults) : Bool := !f.malloc && size + 4 < 2 ^ 30

variable (d : Device) (fh size offset : Nat) (buf : List UInt8) (f : Faults)

/-- `if (offset)` in both calls. -/
def seek : Device × Option Nat :=
  if offset ≠ 0 then
    (if f.seek.isNone then d.fileSeek fh (uint32 offset) else d, check f.seek)
  else (d, none)

/-- The end of both calls. -/
def finish {A : Type} (r : Device × Except Nat A) : Device × Except Nat A :=
  if f.free then (r.1, .error EIO) else r

/-- `emcorefs_read`. `garbage` is what `emcore_malloc` leaves in the buffer. -/
def emcorefsRead (garbage : List UInt8) : Device × Except Nat (List UInt8) :=
  if fh = 0 then (d, .error EIO)
  else if malloc (uint32 size) f = false then (d, .error EIO)
  else
    finish f <|
      match seek d fh offset f with
      | (d, some e) => (d, .error e)
      | (d, none) =>
        let (d, data) := if f.transfer.isNone then d.fileRead fh (uint32 size) else (d, garbage)
        match check f.transfer with
        | some e => (d, .error e)
        | none => (d, if f.copy then .error EIO else .ok data)

/-- `emcorefs_write` -/
def emcorefsWrite : Device × Except Nat Unit :=
  if fh = 0 then (d, .error EIO)
  else if malloc (uint32 buf.length) f = false then (d, .error EIO)
  else
    finish f <|
      match seek d fh offset f with
      | (d, some e) => (d, .error e)
      | (d, none) =>
        if f.copy then (d, .error EIO)
        else
          (if f.transfer.isNone then d.fileWrite fh (buf.take (uint32 buf.length)) else d,
            match check f.transfer with
            | some e => .error e
            | none => .ok ())

/-! ## One call -/

/-- The device sets `errno` when a command fails. -/
def ErrnoSet : Prop :=
  f.seek ≠ some (.errno (some 0)) ∧ f.transfer ≠ some (.errno (some 0))

/-- Nothing fails that a call of `n` bytes needs. -/
def Succeeds (n : Nat) : Prop :=
  fh ≠ 0 ∧ malloc (uint32 n) f = true ∧ (offset ≠ 0 → f.seek = none) ∧ f.transfer = none ∧
    f.copy = false ∧ f.free = false

/-- Where the bytes are read or written. -/
def start : Nat := if offset ≠ 0 then uint32 offset else d.pos fh

variable {d fh size offset buf f} {garbage : List UInt8}

theorem check_eq_none {x : Option Fault} (hx : x ≠ some (.errno (some 0))) :
    check x = none ↔ x = none := by
  cases x with
  | none => simp [check]
  | some x =>
    cases x with
    | lost => simp [check]
    | errno value =>
      cases value with
      | none => simp [check]
      | some value =>
        have hne : value ≠ 0 := by
          rintro rfl
          exact hx rfl
        simp [check, hne]

theorem check_eq_some {x : Option Fault} (hx : x ≠ some (.errno (some 0))) (hne : x ≠ none) :
    ∃ e, check x = some e := by
  cases h : check x with
  | none => exact absurd ((check_eq_none hx).1 h) hne
  | some e => exact ⟨e, rfl⟩

theorem seek_of_none (d : Device) (fh : Nat) (h : offset ≠ 0 → f.seek = none) :
    ∃ d', seek d fh offset f = (d', none) ∧ d'.file = d.file ∧ d'.content = d.content ∧
      d'.pos fh = start d fh offset := by
  by_cases h0 : offset ≠ 0
  · refine ⟨d.fileSeek fh (uint32 offset), ?_, rfl, rfl, ?_⟩
    · simp [seek, h0, h h0, check]
    · rw [start, if_pos h0]
      exact Function.update_self ..
  · exact ⟨d, by rw [seek, if_neg h0], rfl, rfl, by rw [start, if_neg h0]⟩

theorem seek_of_some (d : Device) (fh : Nat) (hset : ErrnoSet f) (h : ¬ (offset ≠ 0 → f.seek = none)) :
    ∃ e, seek d fh offset f = (d, some e) := by
  obtain ⟨h0, hseek⟩ := Classical.not_imp.1 h
  obtain ⟨e, he⟩ := check_eq_some hset.1 hseek
  refine ⟨e, ?_⟩
  rw [seek, if_pos h0, he]
  cases hs : f.seek with
  | none => exact absurd hs hseek
  | some x => rfl

/-- When a read succeeds, and what it returns. -/
theorem emcorefsRead_ok (hset : ErrnoSet f) {data : List UInt8} :
    (emcorefsRead d fh size offset f garbage).2 = .ok data ↔
      Succeeds fh offset f size ∧ data = slice (d.bytes fh) (start d fh offset) (uint32 size) := by
  unfold emcorefsRead Succeeds
  by_cases hfh : fh = 0
  · simp [hfh]
  by_cases hm : malloc (uint32 size) f = false
  · simp [hfh, hm]
  have hm' : malloc (uint32 size) f = true := by simpa using hm
  rw [if_neg hfh, if_neg hm]
  by_cases hs : ¬ offset = 0 → f.seek = none
  · obtain ⟨d', hseek, hfile, hcontent, hpos⟩ := seek_of_none d fh hs
    have hbytes : d'.bytes fh = d.bytes fh := by simp [Device.bytes, hfile, hcontent]
    rw [hseek]
    by_cases ht : f.transfer = none
    · cases hf : f.free <;> cases f.copy <;>
        simp [finish, hf, ht, check, Device.fileRead, hfh, hm', hbytes, hpos, eq_comm]
      exact fun _ => hs
    · obtain ⟨e, he⟩ := check_eq_some hset.2 ht
      cases hf : f.free <;> simp [finish, hf, he, ht]
  · obtain ⟨e, hseek⟩ := seek_of_some d fh hset hs
    rw [hseek]
    cases hf : f.free <;> simp [finish, hf, hs]

/-- When a write succeeds. -/
theorem emcorefsWrite_ok (hset : ErrnoSet f) :
    (emcorefsWrite d fh offset buf f).2 = .ok () ↔ Succeeds fh offset f buf.length := by
  unfold emcorefsWrite Succeeds
  by_cases hfh : fh = 0
  · simp [hfh]
  by_cases hm : malloc (uint32 buf.length) f = false
  · simp [hfh, hm]
  have hm' : malloc (uint32 buf.length) f = true := by simpa using hm
  rw [if_neg hfh, if_neg hm]
  by_cases hs : ¬ offset = 0 → f.seek = none
  · obtain ⟨d', hseek, -⟩ := seek_of_none d fh hs
    rw [hseek]
    by_cases ht : f.transfer = none
    · cases hf : f.free <;> cases f.copy <;> simp [finish, hf, ht, check, hfh, hm']
      exact hs
    · obtain ⟨e, he⟩ := check_eq_some hset.2 ht
      cases hf : f.free <;> cases f.copy <;> simp [finish, hf, he, ht]
  · obtain ⟨e, hseek⟩ := seek_of_some d fh hset hs
    rw [hseek]
    cases hf : f.free <;> simp [finish, hf, hs]

/-- What a write that succeeds leaves in the files. -/
theorem emcorefsWrite_content (h : Succeeds fh offset f buf.length) :
    (emcorefsWrite d fh offset buf f).1.content = Function.update d.content (d.file fh)
      (overwrite (d.bytes fh) (start d fh offset) (buf.take (uint32 buf.length))) := by
  obtain ⟨hfh, hm, hs, ht, hc, hf⟩ := h
  obtain ⟨d', hseek, hfile, hcontent, hpos⟩ := seek_of_none d fh hs
  have hbytes : d'.bytes fh = d.bytes fh := by simp [Device.bytes, hfile, hcontent]
  unfold emcorefsWrite
  rw [if_neg hfh, if_neg (by simp [hm]), hseek]
  simp [finish, hf, hc, ht, Device.fileWrite, hbytes, hpos, hfile, hcontent]

/-- What a call is asked for, if it succeeds. -/
def Right (d : Device) : Call × Faults × List UInt8 → Prop
  | (.read fh size offset, f, garbage) =>
    ∀ data, (emcorefsRead d fh size offset f garbage).2 = .ok data →
      data = slice (d.bytes fh) offset size
  | (.write fh buf offset, f, _) =>
    (emcorefsWrite d fh offset buf f).2 = .ok () →
      (emcorefsWrite d fh offset buf f).1.content =
        Function.update d.content (d.file fh) (overwrite (d.bytes fh) offset buf)

/-- If nothing fails, the place where the call starts is as good as the offset. -/
def Aligned (d : Device) : Call × Faults × List UInt8 → Prop
  | (.read fh size offset, f, _) =>
    Succeeds fh offset f size →
      slice (d.bytes fh) (start d fh offset) (uint32 size) = slice (d.bytes fh) offset size
  | (.write fh buf offset, f, _) =>
    Succeeds fh offset f buf.length →
      overwrite (d.bytes fh) (start d fh offset) (buf.take (uint32 buf.length)) =
        overwrite (d.bytes fh) offset buf

/-- What the caller and the device promise. -/
def Legal (d : Device) (x : Call × Faults × List UInt8) : Prop :=
  ErrnoSet x.2.1 ∧
    match x.1 with
    | .read fh _ offset => offset ≤ (d.bytes fh).length
    | .write fh _ offset => offset ≤ (d.bytes fh).length

theorem right_iff {x : Call × Faults × List UInt8} (hx : Legal d x) : Right d x ↔ Aligned d x := by
  obtain ⟨call, f, garbage⟩ := x
  obtain ⟨hset, -⟩ := hx
  cases call with
  | read fh size offset =>
    simp only [Right, Aligned, emcorefsRead_ok hset]
    constructor
    · intro h hs
      exact h _ ⟨hs, rfl⟩
    · rintro h data ⟨hs, rfl⟩
      exact h hs
  | write fh buf offset =>
    simp only [Right, Aligned, emcorefsWrite_ok hset]
    refine forall_congr' fun hs => ?_
    rw [emcorefsWrite_content hs]
    constructor
    · intro h
      simpa using congrFun h (d.file fh)
    · intro h
      rw [h]

/-- The device gets at the offset, and all of the size. -/
def Placed (d : Device) : Call → Prop
  | .read fh size offset => start d fh offset = offset ∧ size < 2 ^ 32
  | .write fh buf offset => start d fh offset = offset ∧ buf.length < 2 ^ 32

theorem start_eq (h : offset < 2 ^ 32) (hpos : offset = 0 → d.pos fh = 0) :
    start d fh offset = offset := by
  by_cases h0 : offset ≠ 0
  · rw [start, if_pos h0, uint32, Nat.mod_eq_of_lt h]
  · rw [start, if_neg h0, hpos (not_not.1 h0), not_not.1 h0]

theorem Placed.aligned {call : Call} (h : Placed d call) : Aligned d (call, f, garbage) := by
  cases call with
  | read fh size offset =>
    intro _
    rw [h.1, uint32, Nat.mod_eq_of_lt h.2]
  | write fh buf offset =>
    intro _
    rw [h.1, uint32, Nat.mod_eq_of_lt h.2, List.take_length]

/-! ## Runs -/

/-- What the calls answer. -/
inductive Answer
  | read (r : Except Nat (List UInt8))
  | write (r : Except Nat Unit)

def step (d : Device) : Call × Faults × List UInt8 → Option (Device × Answer)
  | (.read fh size offset, f, garbage) =>
    let r := emcorefsRead d fh size offset f garbage
    some (r.1, .read r.2)
  | (.write fh buf offset, f, _) =>
    let r := emcorefsWrite d fh offset buf f
    some (r.1, .write r.2)

/-- For all runs. -/
theorem positional_iff {d d' : Device}
    {es : List (Device × (Call × Faults × List UInt8) × Answer)} (h : Lts.Runs step Legal d es d') :
    (∀ e ∈ es, Right e.1 e.2.1) ↔ ∀ e ∈ es, Aligned e.1 e.2.1 := by
  induction h with
  | refl => simp
  | tail _ hok _ ih =>
    simp only [List.forall_mem_append, List.forall_mem_singleton, ih, right_iff hok]

/-- One file of three bytes, and nothing fails. -/
def small : Device := ⟨fun _ => 0, fun _ => 0, fun _ => [1, 2, 3]⟩

def faultless : Faults := ⟨false, none, none, false, false⟩

/-- A read of the first two bytes, and a write behind them. -/
theorem positional_small : ∃ es d', Lts.Runs step Legal small es d' ∧ es.length = 2 ∧
    ∀ e ∈ es, Right e.1 e.2.1 := by
  have hfirst : Lts.Runs step Legal small [(small, (.read 1 2 0, faultless, []), _)] _ :=
    Lts.Runs.single ⟨by simp [ErrnoSet, faultless], Nat.zero_le _⟩ rfl
  have hboth := Lts.Runs.tail (a := (.write 1 [7] 2, faultless, [])) hfirst
    ⟨by simp [ErrnoSet, faultless], by decide⟩ rfl
  refine ⟨_, _, hboth, rfl, (positional_iff hboth).2 ?_⟩
  simp only [List.forall_mem_append, List.forall_mem_singleton]
  exact ⟨Placed.aligned ⟨rfl, by decide⟩, Placed.aligned ⟨rfl, by decide⟩⟩

/-- The second read at 0 gets what is behind the first one. -/
theorem reads_on : ¬ ∀ d es d', Lts.Runs step Legal d es d' → ∀ e ∈ es, Right e.1 e.2.1 := by
  intro h
  have hfirst : Lts.Runs step Legal small [(small, (.read 1 2 0, faultless, []), _)] _ :=
    Lts.Runs.single ⟨by simp [ErrnoSet, faultless], Nat.zero_le _⟩ rfl
  have hboth := Lts.Runs.tail (a := (.read 1 2 0, faultless, [])) hfirst
    ⟨by simp [ErrnoSet, faultless], Nat.zero_le _⟩ rfl
  have hsecond := h _ _ _ hboth _ (List.mem_append_right _ List.mem_cons_self)
  exact absurd (hsecond [3] rfl) (by decide)

end Emcorefs
end Freemyipod
