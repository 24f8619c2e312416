import Freemyipod.Lib.Memory
import Mathlib.Algebra.Order.BigOperators.Group.List

/-!
# Host.Marshalling

Paths and arguments on their way from the host (`emcore/tools/libemcore.py`) to the monitor thread
(`dbgthread` of `emcore/usb/usbdebug.c`): short ones in the 64 bytes of the command, long ones in a
block that the host allocates on the device.

* `file_open` … `dir_remove`, `execimage`: what the host sends. An exception is `none`.
* `dbgthread`: the memory and the call of the kernel that come of it.
* `marshalling_iff`: when the call gets what the host was given.
-/

namespace Freemyipod
namespace Marshalling

open Memory

/-! ### The host -/

/-- A block that has been allocated, with the number of bytes asked for and those written there. -/
structure Buffer where
  addr : BitVec 32
  size : Nat
  data : List UInt8

structure Sent where
  buffer : Option Buffer
  command : List UInt8

/-- `Dev.send` raises for messages that are too big. -/
def send (data : List UInt8) : Option (List UInt8) :=
  if data.length > 0x1000 then none else some data

/-- `struct.pack("<IIII", ...)` -/
def pack4 (a b c d : BitVec 32) : List UInt8 := word a ++ word b ++ word c ++ word d

variable (malloc : Nat → BitVec 32)

/-- A path goes with the command `cmd`; `bytes` is the size that decides, and that is allocated. -/
def pathCommand (cmd arg : BitVec 32) (bytes : Nat) (fn : List UInt8) : Option Sent :=
  if bytes > 48 then do
    let buf := malloc bytes
    let _ ← send (pack4 5 buf (BitVec.ofNat 32 (fn.length + 1)) 0 ++ (fn ++ [0]))
    let command ← send (pack4 cmd arg 0 buf)
    return ⟨some ⟨buf, bytes, fn ++ [0]⟩, command⟩
  else do
    let command ← send (pack4 cmd arg 0 0 ++ (fn ++ [0]))
    return ⟨none, command⟩

def file_open (filename : List UInt8) (mode : BitVec 32) : Option Sent :=
  pathCommand malloc 30 mode (filename.length + 1) filename

def file_unlink (filename : List UInt8) : Option Sent :=
  pathCommand malloc 40 0 filename.length filename

def dir_open (dirname : List UInt8) : Option Sent :=
  pathCommand malloc 42 0 dirname.length dirname

def dir_create (dirname : List UInt8) : Option Sent :=
  pathCommand malloc 47 0 dirname.length dirname

def dir_remove (dirname : List UInt8) : Option Sent :=
  pathCommand malloc 48 0 dirname.length dirname

/-- `argptr`, for strings that start at `ptr` -/
def argptr (ptr : Nat) : List (List UInt8) → List UInt8
  | [] => []
  | arg :: args => word (BitVec.ofNat 32 ptr) ++ argptr (ptr + (arg.length + 1)) args

def argdata (args : List (List UInt8)) : List UInt8 := args.flatMap fun arg => arg ++ [0]

def execimage (addr : BitVec 32) (args : List (List UInt8)) (copy : Bool) : Option Sent :=
  let flags : UInt8 := if copy then 1 else 0
  let data := argptr (args.length * 4) args ++ argdata args
  let ptr := args.length * 4 + (argdata args).length
  -- "BBBB" takes numbers up to 255
  let header (buf : BitVec 32) : Option (List UInt8) :=
    if args.length > 255 then none
    else some (word 21 ++ word addr ++ [0, 0, flags, UInt8.ofNat args.length] ++ word buf)
  if ptr > 48 then do
    let buf := malloc ptr
    let _ ← send (pack4 5 buf (BitVec.ofNat 32 ptr) 0 ++ data)
    let command ← send (← header buf)
    return ⟨some ⟨buf, ptr, data⟩, command⟩
  else do
    let command ← send ((← header 0) ++ data)
    return ⟨none, command⟩

/-! ### The device -/

/-- The call of the kernel that a command leads to -/
inductive Call where
  | execimage (image : BitVec 32) (copy : Bool) (argc : Nat) (argv : BitVec 32)
  | file_open (path mode : BitVec 32)
  | remove (path : BitVec 32)
  | opendir (path : BitVec 32)
  | mkdir (path : BitVec 32)
  | rmdir (path : BitVec 32)

variable (frame : BitVec 32)

/-- `for (i = 0; i < argc; i++) buf[i + 4] += buf[3];` -/
def relocate (m : Mem 32) : Nat → Mem 32
  | 0 => m
  | i + 1 =>
    let m := relocate m i
    let a := frame + 16 + BitVec.ofNat 32 (4 * i)
    store32 m a (load32 m a + (frame + 16))

/-- `buf[0] = 1; if (!buf[3]) buf[3] = (uint32_t)&buf[4];` -/
def pathFrame (m : Mem 32) : Mem 32 :=
  let m := store32 m frame 1
  if load32 m (frame + 12) = 0 then store32 m (frame + 12) (frame + 16) else m

def execFrame (m : Mem 32) (argc : Nat) : Mem 32 :=
  let m :=
    if load32 m (frame + 12) = 0 then
      relocate frame (store32 m (frame + 12) (frame + 16)) argc
    else m
  store32 m frame 1

/-- The handler in `dbgthread`, with `buf` at `frame`. -/
def dbgthread (m : Mem 32) : Mem 32 × Option Call :=
  let path := load32 (pathFrame frame m) (frame + 12)
  match (load32 m frame).toNat with
  | 21 =>
    let argc := (load32 m (frame + 8) >>> 24).toNat
    let m' := execFrame frame m argc
    (m', some (.execimage (load32 m (frame + 4)) (load32 m (frame + 8) &&& 0x10000 != 0) argc
      (load32 m' (frame + 12))))
  | 30 => (pathFrame frame m, some (.file_open path (load32 m (frame + 4))))
  | 40 => (pathFrame frame m, some (.remove path))
  | 42 => (pathFrame frame m, some (.opendir path))
  | 47 => (pathFrame frame m, some (.mkdir path))
  | 48 => (pathFrame frame m, some (.rmdir path))
  | _ => (m, none)

/-- The device that the host talks to. Blocks of memory, and the frame of `dbgthread`, lie above the
first page, in the address space, and do not overlap. -/
structure Device where
  mem : Mem 32
  malloc : Nat → BitVec 32
  frame : BitVec 32
  /-- What the last transfer has left in the USB buffer -/
  old : List UInt8
  old_length : old.length = 64
  frame_bounds : 4096 ≤ frame.toNat ∧ frame.toNat + 64 < 2 ^ 32
  block_bounds : ∀ n, malloc n ≠ 0 → 4096 ≤ (malloc n).toNat ∧ (malloc n).toNat + n ≤ 2 ^ 32
  block_apart : ∀ n, malloc n ≠ 0 →
    (malloc n).toNat + n ≤ frame.toNat ∨ frame.toNat + 64 ≤ (malloc n).toNat

variable {malloc frame}

/-- The 64 bytes that are copied from the USB buffer. -/
def Device.received (d : Device) (command : List UInt8) : List UInt8 :=
  (command ++ d.old.drop command.length).take 64

def Device.run (d : Device) (s : Sent) : Mem 32 × Option Call :=
  let m := match s.buffer with
    | some b => store d.mem b.addr b.data
    | none => d.mem
  dbgthread d.frame (store m d.frame (d.received s.command))

/-- The host has written into its block only. -/
def Sent.InBuffer (s : Sent) : Prop :=
  ∀ b, s.buffer = some b → b.addr ≠ 0 ∧ b.data.length ≤ b.size

/-- The kernel function is called with the path. -/
def PathDelivered (d : Device) (request : Option Sent) (call : BitVec 32 → Call)
    (path : List UInt8) : Prop :=
  ∃ s, request = some s ∧ s.InBuffer ∧
    ∃ p, (d.run s).2 = some (call p) ∧ IsString (d.run s).1 p path

/-- `execimage` is called with the arguments. -/
def ArgsDelivered (d : Device) (request : Option Sent) (image : BitVec 32) (copy : Bool)
    (args : List (List UInt8)) : Prop :=
  ∃ s, request = some s ∧ s.InBuffer ∧
    ∃ argv, (d.run s).2 = some (.execimage image copy args.length argv) ∧
      ∀ i (hi : i < args.length),
        IsString (d.run s).1 (load32 (d.run s).1 (argv + BitVec.ofNat 32 (4 * i))) args[i]

/-! ### The frame -/

variable {m : Mem 32} {b : BitVec 32} {cs head tail : List UInt8}

theorem off {n : Nat} (hb : frame.toNat + 64 < 2 ^ 32) (hn : n ≤ 64) :
    (frame + BitVec.ofNat 32 n).toNat = frame.toNat + n :=
  toNat_add_ofNat (by omega)

/-- `n` bytes from `b` on that are none of the first `k` of the frame. -/
def Clear (frame : BitVec 32) (k : Nat) (b : BitVec 32) (n : Nat) : Prop :=
  b.toNat + n ≤ 2 ^ 32 ∧ (b.toNat + n ≤ frame.toNat ∨ frame.toNat + k ≤ b.toNat)

theorem holds_store32_clear {n : Nat} (hb : frame.toNat + 64 < 2 ^ 32) (hn : n + 4 ≤ 16)
    (hclear : Clear frame 16 b cs.length) (v : BitVec 32) :
    Holds (store32 m (frame + BitVec.ofNat 32 n) v) b cs ↔ Holds m b cs := by
  have hoff := off hb (show n ≤ 64 by omega)
  obtain ⟨hend, hapart⟩ := hclear
  exact holds_store_disjoint (by rw [length_word]; omega) (by rw [length_word]; omega) hend

theorem load32_store32_frame {i j : Nat} (hb : frame.toNat + 64 < 2 ^ 32) (hi : i + 4 ≤ 64)
    (hj : j + 4 ≤ 64) (hne : i + 4 ≤ j ∨ j + 4 ≤ i) (v : BitVec 32) :
    load32 (store32 m (frame + BitVec.ofNat 32 i) v) (frame + BitVec.ofNat 32 j) =
      load32 m (frame + BitVec.ofNat 32 j) := by
  have hoi := off hb (show i ≤ 64 by omega)
  have hoj := off hb (show j ≤ 64 by omega)
  exact load32_store_disjoint (by rw [length_word]; omega) (by rw [length_word]; omega) (by omega)

/-- With nothing in `buf[3]`, the path is in the command. -/
theorem pathFrame_zero (hb : frame.toNat + 64 < 2 ^ 32) (h : load32 m (frame + 12) = 0) :
    load32 (pathFrame frame m) (frame + 12) = frame + 16 ∧
      ∀ b cs, Clear frame 16 b cs.length → (Holds (pathFrame frame m) b cs ↔ Holds m b cs) := by
  have hkeep : load32 (store32 m frame 1) (frame + 12) = 0 := by
    rw [← h]
    have := @load32_store32_frame frame m 0 12 hb (by omega) (by omega) (by omega) 1
    rwa [BitVec.ofNat_eq_ofNat, BitVec.add_zero] at this
  have hframe : pathFrame frame m = store32 (store32 m frame 1) (frame + 12) (frame + 16) :=
    if_pos hkeep
  rw [hframe]
  refine ⟨load32_store32 _ _ (by decide) _, fun b cs hclear => ?_⟩
  have hsecond := @holds_store32_clear frame (store32 m frame 1) b cs 12 hb (by omega) hclear
    (frame + 16)
  have hfirst := @holds_store32_clear frame m b cs 0 hb (by omega) hclear 1
  rw [BitVec.ofNat_eq_ofNat, BitVec.add_zero] at hfirst
  exact hsecond.trans hfirst

theorem pathFrame_ne (hb : frame.toNat + 64 < 2 ^ 32) (h : load32 m (frame + 12) ≠ 0) :
    load32 (pathFrame frame m) (frame + 12) = load32 m (frame + 12) ∧
      ∀ b cs, Clear frame 16 b cs.length → (Holds (pathFrame frame m) b cs ↔ Holds m b cs) := by
  have hkeep : load32 (store32 m frame 1) (frame + 12) = load32 m (frame + 12) := by
    have := @load32_store32_frame frame m 0 12 hb (by omega) (by omega) (by omega) 1
    rwa [BitVec.ofNat_eq_ofNat, BitVec.add_zero] at this
  have hframe : pathFrame frame m = store32 m frame 1 := if_neg (by rwa [hkeep])
  rw [hframe]
  refine ⟨hkeep, fun b cs hclear => ?_⟩
  have := @holds_store32_clear frame m b cs 0 hb (by omega) hclear 1
  rwa [BitVec.ofNat_eq_ofNat, BitVec.add_zero] at this

/-! ### The command -/

theorem Device.received_append (d : Device) (hh : head.length = 16) :
    d.received (head ++ tail) = head ++ (tail ++ d.old.drop (16 + tail.length)).take 48 := by
  rw [Device.received, List.length_append, hh, List.append_assoc, List.take_append,
    List.take_of_length_le (by omega), hh]

theorem Device.length_received (d : Device) (c : List UInt8) : (d.received c).length = 64 := by
  have := d.old_length
  simp only [Device.received, List.length_take, List.length_append, List.length_drop]
  omega

/-- The memory when the command has been copied: its first 64 bytes, and otherwise as it was. -/
theorem copied (d : Device) (m : Mem 32) (hh : head.length = 16) :
    Holds (store m d.frame (d.received (head ++ tail))) d.frame head ∧
      Holds (store m d.frame (d.received (head ++ tail))) (d.frame + 16) (tail.take 48) ∧
      ∀ b cs, Clear d.frame 64 b cs.length →
        (Holds (store m d.frame (d.received (head ++ tail))) b cs ↔ Holds m b cs) := by
  have hlen := d.length_received (head ++ tail)
  have hbounds := d.frame_bounds
  have hall : Holds (store m d.frame (d.received (head ++ tail))) d.frame
      (head ++ (tail.take 48 ++ (d.old.drop (16 + tail.length)).take (48 - tail.length))) := by
    rw [← List.take_append, ← d.received_append hh]
    exact holds_store (by rw [hlen]; decide)
  obtain ⟨hhead, hrest⟩ := holds_append.1 hall
  rw [hh] at hrest
  refine ⟨hhead, (holds_append.1 hrest).1, fun b cs hclear => ?_⟩
  obtain ⟨hend, hapart⟩ := hclear
  exact holds_store_disjoint (by omega) (by omega) hend

theorem length_pack4 (a b c d : BitVec 32) : (pack4 a b c d).length = 16 := rfl

theorem holds_pack4 {a b c d : BitVec 32} (h : Holds m frame (pack4 a b c d)) :
    load32 m frame = a ∧ load32 m (frame + 4) = b ∧ load32 m (frame + 8) = c ∧
      load32 m (frame + 12) = d := by
  obtain ⟨h123, h4⟩ := holds_append.1 h
  obtain ⟨h12, h3⟩ := holds_append.1 h123
  obtain ⟨h1, h2⟩ := holds_append.1 h12
  exact ⟨h1.load32, h2.load32, h3.load32, h4.load32⟩

theorem send_eq_some {data command : List UInt8} :
    send data = some command ↔ data.length ≤ 0x1000 ∧ data = command := by
  unfold send
  split
  · constructor
    · intro h
      cases h
    · intro h
      omega
  · rename_i h
    rw [Option.some.injEq, and_iff_right (by omega)]

/-! ### Paths -/

variable {cmd arg : BitVec 32} {bytes : Nat} {fn : List UInt8} {call : BitVec 32 → Call}

/-- A command that takes a path. -/
structure TakesPath (frame cmd arg : BitVec 32) (call : BitVec 32 → Call) : Prop where
  calls : ∀ m, load32 m frame = cmd → load32 m (frame + 4) = arg →
    dbgthread frame m =
      (pathFrame frame m, some (call (load32 (pathFrame frame m) (frame + 12))))
  inj : ∀ p q, call p = call q → p = q

theorem called {r : Mem 32 × Option Call} {m' : Mem 32} {q : BitVec 32}
    (hr : r = (m', some (call q))) (hinj : ∀ p q, call p = call q → p = q) {s : List UInt8} :
    (∃ p, r.2 = some (call p) ∧ IsString r.1 p s) ↔ IsString m' q s := by
  rw [hr]
  constructor
  · rintro ⟨p, hp, hs⟩
    rwa [hinj _ _ (Option.some.inj hp)]
  · intro hs
    exact ⟨q, rfl, hs⟩

/-- In the command there is room for a path of 47 bytes. A path of 48 bytes is there without its
NUL, and behind the frame is what is there. -/
theorem pathCommand_short (d : Device) (hop : TakesPath d.frame cmd arg call) (hbytes : bytes ≤ 48)
    (hle : fn.length ≤ bytes) :
    PathDelivered d (pathCommand d.malloc cmd arg bytes fn) call fn ↔
      0 ∉ fn ∧ (fn.length < 48 ∨ d.mem (d.frame + 64) = 0) := by
  have hb := d.frame_bounds.2
  have hsent : pathCommand d.malloc cmd arg bytes fn =
      some ⟨none, pack4 cmd arg 0 0 ++ (fn ++ [0])⟩ := by
    have hsend : send (pack4 cmd arg 0 0 ++ (fn ++ [0])) = some _ :=
      send_eq_some.2 ⟨by simp [length_pack4]; omega, rfl⟩
    rw [pathCommand, if_neg (by omega), hsend]
    rfl
  obtain ⟨hhead, htail, hrest⟩ := @copied (pack4 cmd arg 0 0) (fn ++ [0]) d d.mem
    (length_pack4 _ _ _ _)
  obtain ⟨hcmd, harg, -, hzero⟩ := holds_pack4 hhead
  obtain ⟨hptr, hframe⟩ := pathFrame_zero hb hzero
  have hrun := hop.calls _ hcmd harg
  rw [hptr] at hrun
  have h16 : (d.frame + 16).toNat = d.frame.toNat + 16 :=
    off hb (show 16 ≤ 64 by decide)
  have hstring : IsString (pathFrame d.frame (store d.mem d.frame
      (d.received (pack4 cmd arg 0 0 ++ (fn ++ [0]))))) (d.frame + 16) fn ↔
      0 ∉ fn ∧ (fn.length < 48 ∨ d.mem (d.frame + 64) = 0) := by
    rw [IsString, hframe _ _ ⟨by simp only [List.length_append, List.length_singleton]; omega,
      .inr (by omega)⟩, and_comm]
    refine and_congr_right fun _ => ?_
    by_cases hshort : fn.length < 48
    · rw [List.take_of_length_le (by simp; omega)] at htail
      exact ⟨fun _ => .inl hshort, fun _ => htail⟩
    · have hlen : fn.length = 48 := by omega
      rw [← hlen, List.take_left] at htail
      have h64 := off hb (show 64 ≤ 64 by decide)
      rw [holds_append, and_iff_right htail, hlen, BitVec.add_assoc]
      rw [show (16 : BitVec 32) + BitVec.ofNat 32 48 = BitVec.ofNat 32 64 from rfl,
        hrest _ _ ⟨by simp only [List.length_singleton]; omega, .inr (by omega)⟩]
      simp [Holds, load]
  rw [← hstring, ← called hrun hop.inj]
  constructor
  · rintro ⟨s, hs, -, hdel⟩
    rw [hsent] at hs
    cases hs
    exact hdel
  · intro hdel
    refine ⟨_, hsent, ?_, hdel⟩
    intro b hb
    cases hb

/-- A longer path is read from its block. It has been allocated for the NUL too, or that is written
behind it. -/
theorem pathCommand_long (d : Device) (hop : TakesPath d.frame cmd arg call) (hbytes : 48 < bytes)
    (hle : bytes ≤ fn.length + 1) :
    PathDelivered d (pathCommand d.malloc cmd arg bytes fn) call fn ↔
      0 ∉ fn ∧ bytes = fn.length + 1 ∧ fn.length < 4080 ∧ d.malloc bytes ≠ 0 := by
  have hb := d.frame_bounds.2
  by_cases hsize : fn.length < 4080
  · have hsent : pathCommand d.malloc cmd arg bytes fn =
        some ⟨some ⟨d.malloc bytes, bytes, fn ++ [0]⟩, pack4 cmd arg 0 (d.malloc bytes)⟩ := by
      have hdata : send (pack4 5 (d.malloc bytes) (BitVec.ofNat 32 (fn.length + 1)) 0 ++
          (fn ++ [0])) = some _ := send_eq_some.2 ⟨by simp [length_pack4]; omega, rfl⟩
      have hcommand : send (pack4 cmd arg 0 (d.malloc bytes)) = some _ :=
        send_eq_some.2 ⟨by simp [length_pack4], rfl⟩
      rw [pathCommand, if_pos hbytes]
      dsimp only
      rw [hdata, hcommand]
      rfl
    have hin : Sent.InBuffer ⟨some ⟨d.malloc bytes, bytes, fn ++ [0]⟩,
        pack4 cmd arg 0 (d.malloc bytes)⟩ ↔ d.malloc bytes ≠ 0 ∧ bytes = fn.length + 1 := by
      simp only [Sent.InBuffer, Option.some.injEq, forall_eq', List.length_append,
        List.length_singleton]
      exact and_congr_right fun _ => by omega
    by_cases hok : d.malloc bytes ≠ 0 ∧ bytes = fn.length + 1
    · obtain ⟨hne, hlen⟩ := hok
      have hbounds := d.block_bounds bytes hne
      have hapart := d.block_apart bytes hne
      obtain ⟨hhead, -, hrest⟩ := @copied (pack4 cmd arg 0 (d.malloc bytes)) [] d
        (store d.mem (d.malloc bytes) (fn ++ [0])) (length_pack4 _ _ _ _)
      rw [List.append_nil] at hhead hrest
      obtain ⟨hcmd, harg, -, hbuf⟩ := holds_pack4 hhead
      obtain ⟨hptr, hframe⟩ := pathFrame_ne hb (by rw [hbuf]; exact hne)
      have hrun := hop.calls _ hcmd harg
      rw [hptr, hbuf] at hrun
      have hplace : (fn ++ [0]).length = bytes := by
        rw [List.length_append, List.length_singleton, hlen]
      have hstring : IsString (pathFrame d.frame (store (store d.mem (d.malloc bytes) (fn ++ [0]))
          d.frame (d.received (pack4 cmd arg 0 (d.malloc bytes))))) (d.malloc bytes) fn ↔
          0 ∉ fn := by
        rw [IsString, hframe _ _ ⟨by omega, by omega⟩, hrest _ _ ⟨by omega, by omega⟩]
        exact and_iff_right (holds_store (by omega))
      have hdel := (called hrun hop.inj).trans hstring
      constructor
      · rintro ⟨s, hs, -, hcall⟩
        rw [hsent] at hs
        cases hs
        exact ⟨hdel.1 hcall, hlen, hsize, hne⟩
      · rintro ⟨hclean, -⟩
        exact ⟨_, hsent, hin.2 ⟨hne, hlen⟩, hdel.2 hclean⟩
    · constructor
      · rintro ⟨s, hs, hbuffer, -⟩
        rw [hsent] at hs
        cases hs
        exact absurd (hin.1 hbuffer) hok
      · rintro ⟨-, hlen, -, hne⟩
        exact absurd ⟨hne, hlen⟩ hok
  · constructor
    · rintro ⟨s, hs, -⟩
      have hnone : send (pack4 5 (d.malloc bytes) (BitVec.ofNat 32 (fn.length + 1)) 0 ++
          (fn ++ [0])) = none := if_pos (by simp [length_pack4]; omega)
      rw [pathCommand, if_pos hbytes] at hs
      dsimp only at hs
      rw [hnone] at hs
      cases hs
    · rintro ⟨-, -, hlt, -⟩
      exact absurd hlt hsize

/-! ### Arguments -/

/-- Where the string `i` is, counted from the start of the first -/
def before (args : List (List UInt8)) (i : Nat) : Nat :=
  ((args.take i).map fun arg => arg.length + 1).sum

theorem length_argptr (ptr : Nat) (args : List (List UInt8)) :
    (argptr ptr args).length = 4 * args.length := by
  induction args generalizing ptr with
  | nil => rfl
  | cons arg args ih =>
    simp only [argptr, List.length_append, length_word, ih, List.length_cons]
    omega

theorem holds_argptr {ptr : Nat} {args : List (List UInt8)} (h : Holds m b (argptr ptr args))
    {i : Nat} (hi : i < args.length) :
    load32 m (b + BitVec.ofNat 32 (4 * i)) = BitVec.ofNat 32 (ptr + before args i) := by
  induction args generalizing ptr b i with
  | nil => exact absurd hi (Nat.not_lt_zero i)
  | cons arg args ih =>
    obtain ⟨hword, hrest⟩ := holds_append.1 h
    cases i with
    | zero => simpa [before] using hword.load32
    | succ i =>
      have hnext := ih hrest (Nat.lt_of_succ_lt_succ hi)
      rw [length_word, BitVec.add_assoc, ← BitVec.ofNat_add] at hnext
      rw [show 4 * (i + 1) = 4 + 4 * i by omega, hnext]
      simp only [before, List.take_succ_cons, List.map_cons, List.sum_cons, Nat.add_assoc]

theorem holds_argdata {args : List (List UInt8)} (h : Holds m b (argdata args)) {i : Nat}
    (hi : i < args.length) : Holds m (b + BitVec.ofNat 32 (before args i)) (args[i] ++ [0]) := by
  induction args generalizing b i with
  | nil => exact absurd hi (Nat.not_lt_zero i)
  | cons arg args ih =>
    obtain ⟨hfirst, hrest⟩ := holds_append.1 h
    cases i with
    | zero => simpa [before] using hfirst
    | succ i =>
      have hnext := ih hrest (Nat.lt_of_succ_lt_succ hi)
      rw [List.length_append, List.length_singleton, BitVec.add_assoc, ← BitVec.ofNat_add] at hnext
      simpa only [before, List.take_succ_cons, List.map_cons, List.sum_cons,
        List.getElem_cons_succ] using hnext

/-- The string `i` ends inside of the data. -/
theorem before_le {args : List (List UInt8)} {i : Nat} (hi : i < args.length) :
    before args i + (args[i].length + 1) ≤ (argdata args).length := by
  induction args generalizing i with
  | nil => exact absurd hi (Nat.not_lt_zero i)
  | cons arg args ih =>
    simp only [argdata, List.flatMap_cons, List.length_append, List.length_singleton] at ih ⊢
    cases i with
    | zero => simp [before]
    | succ i =>
      have hnext := ih (Nat.lt_of_succ_lt_succ hi)
      simp only [before, List.take_succ_cons, List.map_cons, List.sum_cons] at hnext ⊢
      simp only [List.getElem_cons_succ]
      omega

/-- The address of `buf[i + 4]` -/
theorem slot (hb : frame.toNat + 64 < 2 ^ 32) {i : Nat} (hi : 16 + 4 * i ≤ 64) :
    (frame + 16 + BitVec.ofNat 32 (4 * i)).toNat = frame.toNat + (16 + 4 * i) := by
  have hoff := off hb hi
  rw [BitVec.ofNat_add, ← BitVec.add_assoc] at hoff
  exact hoff

theorem relocate_clear (hb : frame.toNat + 64 < 2 ^ 32) {n k : Nat} (hn : 16 + 4 * n ≤ 64)
    (hk : b.toNat + k ≤ 2 ^ 32)
    (hapart : b.toNat + k ≤ frame.toNat + 16 ∨ frame.toNat + 16 + 4 * n ≤ b.toNat) :
    load (relocate frame m n) b k = load m b k := by
  induction n with
  | zero => rfl
  | succ n ih =>
    have hoff := slot hb (show 16 + 4 * n ≤ 64 by omega)
    have hlast : load (relocate frame m (n + 1)) b k = load (relocate frame m n) b k :=
      load_store_disjoint (by rw [hoff, length_word]; omega) (by rw [hoff, length_word]; omega) hk
    rw [hlast]
    exact ih (by omega) (by omega)

theorem relocate_word (hb : frame.toNat + 64 < 2 ^ 32) {n i : Nat} (hn : 16 + 4 * n ≤ 64)
    (hi : i < n) :
    load32 (relocate frame m n) (frame + 16 + BitVec.ofNat 32 (4 * i)) =
      load32 m (frame + 16 + BitVec.ofNat 32 (4 * i)) + (frame + 16) := by
  have hoi := slot hb (show 16 + 4 * i ≤ 64 by omega)
  induction n with
  | zero => exact absurd hi (Nat.not_lt_zero i)
  | succ n ih =>
    by_cases hlast : i = n
    · subst hlast
      have hold : load (relocate frame m i) (frame + 16 + BitVec.ofNat 32 (4 * i)) 4 = load m _ 4 :=
        relocate_clear hb (by omega) (by rw [hoi]; omega) (by rw [hoi]; omega)
      rw [relocate, load32_store32 _ _ (by decide), load32, hold, load32]
    · have hon := slot hb (show 16 + 4 * n ≤ 64 by omega)
      rw [← ih (by omega) (by omega), relocate]
      exact load32_store_disjoint (by rw [hon, hoi, length_word]; omega)
        (by rw [hon, length_word]; omega) (by rw [hoi]; omega)

/-- Addresses in the command are made absolute. -/
theorem execFrame_zero (hb : frame.toNat + 64 < 2 ^ 32) (h : load32 m (frame + 12) = 0) {n : Nat}
    (hn : 16 + 4 * n ≤ 64) :
    load32 (execFrame frame m n) (frame + 12) = frame + 16 ∧
      (∀ i < n, load32 (execFrame frame m n) (frame + 16 + BitVec.ofNat 32 (4 * i)) =
        load32 m (frame + 16 + BitVec.ofNat 32 (4 * i)) + (frame + 16)) ∧
      ∀ b cs, b.toNat + cs.length ≤ 2 ^ 32 → frame.toNat + 16 + 4 * n ≤ b.toNat →
        (Holds (execFrame frame m n) b cs ↔ Holds m b cs) := by
  have h12 : (frame + 12).toNat = frame.toNat + 12 := off hb (show 12 ≤ 64 by decide)
  have hframe : execFrame frame m n =
      store32 (relocate frame (store32 m (frame + 12) (frame + 16)) n) frame 1 := by
    rw [execFrame, if_pos h]
  have hzero : ∀ b k, b.toNat + k ≤ 2 ^ 32 → frame.toNat + 4 ≤ b.toNat →
      load (execFrame frame m n) b k =
        load (relocate frame (store32 m (frame + 12) (frame + 16)) n) b k := by
    intro b k hk hlow
    rw [hframe]
    exact load_store_disjoint (by rw [length_word]; omega) (by rw [length_word]; omega) hk
  refine ⟨?_, fun i hi => ?_, fun b cs hend hlow => ?_⟩
  · rw [load32, hzero _ _ (by rw [h12]; omega) (by rw [h12]; omega),
      relocate_clear hb hn (by rw [h12]; omega) (by rw [h12]; omega)]
    exact load32_store32 _ _ (by decide) _
  · have hoi := slot hb (show 16 + 4 * i ≤ 64 by omega)
    have hword := @relocate_word frame (store32 m (frame + 12) (frame + 16)) hb n i hn hi
    have hold : load32 (store32 m (frame + 12) (frame + 16))
        (frame + 16 + BitVec.ofNat 32 (4 * i)) = load32 m (frame + 16 + BitVec.ofNat 32 (4 * i)) :=
      load32_store_disjoint (by rw [hoi, h12, length_word]; omega)
        (by rw [h12, length_word]; omega) (by rw [hoi]; omega)
    rw [load32, hzero _ _ (by rw [hoi]; omega) (by rw [hoi]; omega), ← load32, hword, hold]
  · rw [Holds, hzero _ _ hend (by omega), relocate_clear hb hn hend (.inr hlow)]
    exact holds_store_disjoint (by rw [h12, length_word]; omega) (by rw [h12, length_word]; omega)
      hend

theorem execFrame_ne (hb : frame.toNat + 64 < 2 ^ 32) (h : load32 m (frame + 12) ≠ 0) (n : Nat) :
    load32 (execFrame frame m n) (frame + 12) = load32 m (frame + 12) ∧
      ∀ b k, b.toNat + k ≤ 2 ^ 32 → b.toNat + k ≤ frame.toNat ∨ frame.toNat + 16 ≤ b.toNat →
        load (execFrame frame m n) b k = load m b k := by
  have h12 : (frame + 12).toNat = frame.toNat + 12 := off hb (show 12 ≤ 64 by decide)
  have hframe : execFrame frame m n = store32 m frame 1 := by rw [execFrame, if_neg h]
  rw [hframe]
  constructor
  · exact load32_store_disjoint (by rw [h12, length_word]; omega) (by rw [length_word]; omega)
      (by rw [h12]; omega)
  · intro b k hk hapart
    exact load_store_disjoint (by rw [length_word]; omega) (by rw [length_word]; omega) hk

/-- The first four words of the command -/
def execHeader (addr buf : BitVec 32) (copy : Bool) (n : Nat) : List UInt8 :=
  word 21 ++ word addr ++ [0, 0, if copy then 1 else 0, UInt8.ofNat n] ++ word buf

theorem length_execHeader (addr buf : BitVec 32) (copy : Bool) (n : Nat) :
    (execHeader addr buf copy n).length = 16 := rfl

theorem flags_word : ∀ (copy : Bool) (n : Fin 256),
    (ofBytes [0, 0, if copy then 1 else 0, UInt8.ofNat n] >>> 24).toNat = n ∧
      (ofBytes [0, 0, if copy then 1 else 0, UInt8.ofNat n] &&& 0x10000 != 0) = copy := by
  decide +kernel

/-- The call that the header leads to -/
theorem holds_execHeader {addr buf : BitVec 32} {copy : Bool} {n : Nat} (hn : n ≤ 255)
    (h : Holds m frame (execHeader addr buf copy n)) :
    load32 m (frame + 12) = buf ∧
      dbgthread frame m = (execFrame frame m n,
        some (.execimage addr copy n (load32 (execFrame frame m n) (frame + 12)))) := by
  obtain ⟨h123, h4⟩ := holds_append.1 h
  obtain ⟨h12, h3⟩ := holds_append.1 h123
  obtain ⟨h1, h2⟩ := holds_append.1 h12
  have hcmd : load32 m frame = 21 := h1.load32
  have haddr : load32 m (frame + 4) = addr := h2.load32
  have hflags : load32 m (frame + 8) = ofBytes [0, 0, if copy then 1 else 0, UInt8.ofNat n] :=
    congrArg ofBytes h3
  obtain ⟨hargc, hcopy⟩ := flags_word copy ⟨n, by omega⟩
  refine ⟨h4.load32, ?_⟩
  unfold dbgthread
  rw [hcmd, haddr, hflags, hargc, hcopy]
  rfl

/-- The bytes that the arguments take -/
def argsSize (args : List (List UInt8)) : Nat := args.length * 4 + (argdata args).length

variable {args : List (List UInt8)} {addr : BitVec 32} {copy : Bool}

/-- Both parts, at the address that the offsets are counted from. -/
theorem holds_args (h : Holds m b (argptr (args.length * 4) args ++ argdata args)) {i : Nat}
    (hi : i < args.length) :
    load32 m (b + BitVec.ofNat 32 (4 * i)) = BitVec.ofNat 32 (args.length * 4 + before args i) ∧
      Holds m (b + BitVec.ofNat 32 (args.length * 4 + before args i)) (args[i] ++ [0]) := by
  obtain ⟨hptr, hdata⟩ := holds_append.1 h
  rw [length_argptr] at hdata
  have hstring := holds_argdata hdata hi
  rw [BitVec.add_assoc, ← BitVec.ofNat_add, Nat.mul_comm] at hstring
  exact ⟨holds_argptr hptr hi, hstring⟩

theorem length_args : (argptr (args.length * 4) args ++ argdata args).length = argsSize args := by
  rw [List.length_append, length_argptr, argsSize, Nat.mul_comm]

theorem forall_clean : (∀ i (hi : i < args.length), 0 ∉ args[i]) ↔ ∀ arg ∈ args, 0 ∉ arg := by
  constructor
  · intro h arg harg
    obtain ⟨i, hi, rfl⟩ := List.mem_iff_getElem.1 harg
    exact h i hi
  · intro h i hi
    exact h _ (List.getElem_mem hi)

/-- The handler calls `execimage` once, with one vector. -/
theorem exec_called {r : Mem 32 × Option Call} {m' : Mem 32} {n : Nat} {q : BitVec 32}
    (hr : r = (m', some (.execimage addr copy n q))) {P : Mem 32 → BitVec 32 → Prop} :
    (∃ argv, r.2 = some (.execimage addr copy n argv) ∧ P r.1 argv) ↔ P m' q := by
  rw [hr]
  constructor
  · rintro ⟨argv, hcall, hP⟩
    injection hcall with hcall
    injection hcall with _ _ _ hargv
    rwa [hargv]
  · intro hP
    exact ⟨q, rfl, hP⟩

/-- What fits in the command arrives. -/
theorem execimage_short (d : Device) (hsize : argsSize args ≤ 48) :
    ArgsDelivered d (execimage d.malloc addr args copy) addr copy args ↔ ∀ arg ∈ args, 0 ∉ arg := by
  have hb := d.frame_bounds.2
  have hn : args.length * 4 ≤ 48 := (Nat.le_add_right _ _).trans hsize
  have hlen := @length_args args
  have hsent : execimage d.malloc addr args copy = some ⟨none,
      execHeader addr 0 copy args.length ++ (argptr (args.length * 4) args ++ argdata args)⟩ := by
    have hsend : send (execHeader addr 0 copy args.length ++
        (argptr (args.length * 4) args ++ argdata args)) = some _ :=
      send_eq_some.2 ⟨by rw [List.length_append, length_execHeader, hlen]; omega, rfl⟩
    rw [execimage]
    dsimp only
    rw [if_neg (show ¬ args.length * 4 + (argdata args).length > 48 from Nat.not_lt.2 hsize),
      if_neg (by omega)]
    refine Option.bind_eq_some_iff.2 ⟨_, rfl, ?_⟩
    exact Option.bind_eq_some_iff.2 ⟨_, hsend, rfl⟩
  obtain ⟨hhead, htail, -⟩ := @copied (execHeader addr 0 copy args.length)
    (argptr (args.length * 4) args ++ argdata args) d d.mem (length_execHeader _ _ _ _)
  rw [List.take_of_length_le (by omega)] at htail
  obtain ⟨hzero, hrun⟩ := holds_execHeader (show args.length ≤ 255 by omega) hhead
  obtain ⟨hargv, hwords, hrest⟩ := execFrame_zero hb hzero (show 16 + 4 * args.length ≤ 64 by omega)
  rw [hargv] at hrun
  have h16 : (d.frame + 16).toNat = d.frame.toNat + 16 :=
    off hb (show 16 ≤ 64 by decide)
  rw [← forall_clean]
  have hstrings : ∀ i (hi : i < args.length),
      IsString (execFrame d.frame (store d.mem d.frame (d.received (execHeader addr 0 copy
          args.length ++ (argptr (args.length * 4) args ++ argdata args)))) args.length)
        (load32 (execFrame d.frame (store d.mem d.frame (d.received (execHeader addr 0 copy
          args.length ++ (argptr (args.length * 4) args ++ argdata args)))) args.length)
          (d.frame + 16 + BitVec.ofNat 32 (4 * i))) args[i] ↔ 0 ∉ args[i] := by
    intro i hi
    obtain ⟨hword, hstring⟩ := holds_args htail hi
    have hend := before_le hi
    have hin : args.length * 4 + before args i + (args[i].length + 1) ≤ argsSize args := by
      unfold argsSize
      omega
    have haddr : (d.frame + 16 + BitVec.ofNat 32 (args.length * 4 + before args i)).toNat =
        d.frame.toNat + 16 + (args.length * 4 + before args i) := by
      rw [toNat_add_ofNat (by omega), h16]
    rw [hwords i hi, hword, BitVec.add_comm, IsString,
      hrest _ _ (by simp only [haddr, List.length_append, List.length_singleton]; omega)
        (by rw [haddr]; omega)]
    exact and_iff_right hstring
  have hdel := @exec_called addr copy _ _ _ _ hrun fun m' argv => ∀ i (hi : i < args.length),
    IsString m' (load32 m' (argv + BitVec.ofNat 32 (4 * i))) args[i]
  constructor
  · rintro ⟨s, hs, -, hcall⟩ i hi
    rw [hsent] at hs
    cases hs
    exact (hstrings i hi).1 (hdel.1 hcall i hi)
  · intro hclean
    refine ⟨_, hsent, ?_, hdel.2 fun i hi => (hstrings i hi).2 (hclean i hi)⟩
    intro b hb
    cases hb

/-- The offsets in a block are not made absolute: they are taken for addresses. -/
theorem execimage_long (d : Device) (hsize : 48 < argsSize args) :
    ArgsDelivered d (execimage d.malloc addr args copy) addr copy args ↔
      (∀ arg ∈ args, 0 ∉ arg) ∧ args.length ≤ 255 ∧ argsSize args ≤ 4080 ∧
        d.malloc (argsSize args) ≠ 0 ∧ ∀ i (hi : i < args.length),
          Holds d.mem (BitVec.ofNat 32 (args.length * 4 + before args i)) (args[i] ++ [0]) := by
  have hb := d.frame_bounds
  have hlen := @length_args args
  by_cases hfits : args.length ≤ 255 ∧ argsSize args ≤ 4080
  · obtain ⟨hn, hle⟩ := hfits
    have hsent : execimage d.malloc addr args copy =
        some ⟨some ⟨d.malloc (argsSize args), argsSize args,
          argptr (args.length * 4) args ++ argdata args⟩,
          execHeader addr (d.malloc (argsSize args)) copy args.length⟩ := by
      have hdata : send (pack4 5 (d.malloc (argsSize args)) (BitVec.ofNat 32 (argsSize args)) 0 ++
          (argptr (args.length * 4) args ++ argdata args)) = some _ :=
        send_eq_some.2 ⟨by rw [List.length_append, length_pack4, hlen]; omega, rfl⟩
      have hcommand : send (execHeader addr (d.malloc (argsSize args)) copy args.length) = some _ :=
        send_eq_some.2 ⟨by rw [length_execHeader]; decide, rfl⟩
      rw [execimage]
      dsimp only
      rw [if_pos (show args.length * 4 + (argdata args).length > 48 from hsize),
        if_neg (by omega), ← argsSize]
      refine Option.bind_eq_some_iff.2 ⟨_, hdata, ?_⟩
      refine Option.bind_eq_some_iff.2 ⟨_, rfl, ?_⟩
      exact Option.bind_eq_some_iff.2 ⟨_, hcommand, rfl⟩
    by_cases hne : d.malloc (argsSize args) ≠ 0
    · have hbounds := d.block_bounds _ hne
      have hapart := d.block_apart _ hne
      obtain ⟨hhead, -, hrest⟩ := @copied (execHeader addr (d.malloc (argsSize args)) copy
        args.length) [] d (store d.mem (d.malloc (argsSize args))
          (argptr (args.length * 4) args ++ argdata args)) (length_execHeader _ _ _ _)
      rw [List.append_nil] at hhead hrest
      obtain ⟨hbuf, hrun⟩ := holds_execHeader hn hhead
      obtain ⟨hargv, hkeep⟩ := execFrame_ne hb.2 (by rw [hbuf]; exact hne) args.length
      rw [hargv, hbuf] at hrun
      have hblock := (hrest (d.malloc (argsSize args))
        (argptr (args.length * 4) args ++ argdata args) ⟨by omega, by omega⟩).2 (holds_store (by omega))
      have hstrings : ∀ i (hi : i < args.length),
          IsString (execFrame d.frame (store (store d.mem (d.malloc (argsSize args))
              (argptr (args.length * 4) args ++ argdata args)) d.frame (d.received
                (execHeader addr (d.malloc (argsSize args)) copy args.length))) args.length)
            (load32 (execFrame d.frame (store (store d.mem (d.malloc (argsSize args))
              (argptr (args.length * 4) args ++ argdata args)) d.frame (d.received
                (execHeader addr (d.malloc (argsSize args)) copy args.length))) args.length)
              (d.malloc (argsSize args) + BitVec.ofNat 32 (4 * i))) args[i] ↔
          Holds d.mem (BitVec.ofNat 32 (args.length * 4 + before args i)) (args[i] ++ [0]) ∧
            0 ∉ args[i] := by
        intro i hi
        have hword := (holds_args hblock hi).1
        have hend := before_le hi
        have hin : args.length * 4 + before args i + (args[i].length + 1) ≤ argsSize args := by
          unfold argsSize
          omega
        have hslot : (d.malloc (argsSize args) + BitVec.ofNat 32 (4 * i)).toNat =
            (d.malloc (argsSize args)).toNat + 4 * i := toNat_add_ofNat (by omega)
        have hlow : (BitVec.ofNat 32 (args.length * 4 + before args i)).toNat =
            args.length * 4 + before args i := by
          rw [BitVec.toNat_ofNat]
          exact Nat.mod_eq_of_lt (by omega)
        have hplace : (args[i] ++ [0]).length = args[i].length + 1 := by simp
        rw [load32, hkeep _ _ (by rw [hslot]; omega) (by rw [hslot]; omega), ← load32, hword,
          IsString]
        refine and_congr_left fun _ => ?_
        rw [Holds, hkeep _ _ (by rw [hlow, hplace]; omega) (by rw [hlow, hplace]; omega), ← Holds,
          hrest _ _ ⟨by rw [hlow, hplace]; omega, by rw [hlow, hplace]; omega⟩]
        exact holds_store_disjoint (by rw [hlow, hplace]; omega) (by omega)
          (by rw [hlow, hplace]; omega)
      have hdel := @exec_called addr copy _ _ _ _ hrun fun m' argv => ∀ i (hi : i < args.length),
        IsString m' (load32 m' (argv + BitVec.ofNat 32 (4 * i))) args[i]
      constructor
      · rintro ⟨s, hs, -, hcall⟩
        rw [hsent] at hs
        cases hs
        have hall := hdel.1 hcall
        exact ⟨forall_clean.1 fun i hi => ((hstrings i hi).1 (hall i hi)).2, hn, hle, hne,
          fun i hi => ((hstrings i hi).1 (hall i hi)).1⟩
      · rintro ⟨hclean, -, -, -, hlow⟩
        refine ⟨_, hsent, ?_, hdel.2 fun i hi =>
          (hstrings i hi).2 ⟨hlow i hi, forall_clean.2 hclean i hi⟩⟩
        intro b hb
        cases hb
        exact ⟨hne, hlen.le⟩
    · constructor
      · rintro ⟨s, hs, hbuffer, -⟩
        rw [hsent] at hs
        cases hs
        exact absurd (hbuffer _ rfl).1 hne
      · rintro ⟨-, -, -, hok, -⟩
        exact absurd hok hne
  · constructor
    · rintro ⟨s, hs, -⟩
      rw [execimage] at hs
      dsimp only at hs
      rw [if_pos (show args.length * 4 + (argdata args).length > 48 from hsize)] at hs
      obtain ⟨_, hdata, hs⟩ := Option.bind_eq_some_iff.1 hs
      obtain ⟨_, hheader, hs⟩ := Option.bind_eq_some_iff.1 hs
      have hle := (send_eq_some.1 hdata).1
      rw [List.length_append, length_pack4, hlen] at hle
      by_cases hn : args.length > 255
      · rw [if_pos hn] at hheader
        cases hheader
      · exact absurd ⟨by omega, by omega⟩ hfits
    · rintro ⟨-, hn, hle, -⟩
      exact absurd ⟨hn, hle⟩ hfits

/-! ### All commands -/

/-- The NUL that ends the path of 48 bytes is not in the command. -/
def PathOk (d : Device) (path : List UInt8) : Prop :=
  0 ∉ path ∧ (path.length < 48 ∨ path.length = 48 ∧ d.mem (d.frame + 64) = 0)

def OpenOk (d : Device) (path : List UInt8) : Prop :=
  0 ∉ path ∧ (path.length < 48 ∨ path.length < 4080 ∧ d.malloc (path.length + 1) ≠ 0)

def ArgsOk (d : Device) (args : List (List UInt8)) : Prop :=
  (∀ arg ∈ args, 0 ∉ arg) ∧
    (argsSize args ≤ 48 ∨ args.length ≤ 255 ∧ argsSize args ≤ 4080 ∧
      d.malloc (argsSize args) ≠ 0 ∧ ∀ i (hi : i < args.length),
        Holds d.mem (BitVec.ofNat 32 (args.length * 4 + before args i)) (args[i] ++ [0]))

theorem takesPath_open (mode : BitVec 32) : TakesPath frame 30 mode fun p => .file_open p mode where
  calls m hcmd hmode := by
    unfold dbgthread
    rw [hcmd, hmode]
    rfl
  inj p q h := by
    injection h

theorem takesPath_remove : TakesPath frame 40 0 .remove where
  calls m hcmd _ := by
    unfold dbgthread
    rw [hcmd]
    rfl
  inj p q h := by
    injection h

theorem takesPath_opendir : TakesPath frame 42 0 .opendir where
  calls m hcmd _ := by
    unfold dbgthread
    rw [hcmd]
    rfl
  inj p q h := by
    injection h

theorem takesPath_mkdir : TakesPath frame 47 0 .mkdir where
  calls m hcmd _ := by
    unfold dbgthread
    rw [hcmd]
    rfl
  inj p q h := by
    injection h

theorem takesPath_rmdir : TakesPath frame 48 0 .rmdir where
  calls m hcmd _ := by
    unfold dbgthread
    rw [hcmd]
    rfl
  inj p q h := by
    injection h

/-- The commands that leave the NUL out of their size. -/
theorem pathOk_iff (d : Device) (hop : TakesPath d.frame cmd 0 call) (path : List UInt8) :
    PathDelivered d (pathCommand d.malloc cmd 0 path.length path) call path ↔ PathOk d path := by
  unfold PathOk
  by_cases hshort : path.length ≤ 48
  · rw [pathCommand_short d hop hshort le_rfl]
    refine and_congr_right fun _ => ?_
    constructor
    · intro h
      rcases Nat.lt_or_ge path.length 48 with hlt | hge
      · exact .inl hlt
      · exact .inr ⟨by omega, h.resolve_left (by omega)⟩
    · intro h
      exact h.imp_right And.right
  · rw [pathCommand_long d hop (by omega) (Nat.le_succ _)]
    exact and_congr_right fun _ => ⟨fun h => absurd h.1 (by omega), fun h => absurd h (by omega)⟩

/-- The monitor thread calls the kernel with the path, or the arguments, that the host was given,
and the host writes into its own block only, exactly for: `file_open`, paths of up to 47 bytes, and
of up to 4079 where the device has memory; the other four, paths of up to 47 bytes, and of 48 where
the byte behind the frame is 0 anyway; `execimage`, arguments of up to 48 bytes with their addresses,
and others only where the strings happen to lie at their offsets from the start of memory. -/
theorem marshalling_iff (d : Device) :
    (∀ path mode, PathDelivered d (file_open d.malloc path mode) (fun p => .file_open p mode) path ↔
      OpenOk d path) ∧
    (∀ path, PathDelivered d (file_unlink d.malloc path) .remove path ↔ PathOk d path) ∧
    (∀ path, PathDelivered d (dir_open d.malloc path) .opendir path ↔ PathOk d path) ∧
    (∀ path, PathDelivered d (dir_create d.malloc path) .mkdir path ↔ PathOk d path) ∧
    (∀ path, PathDelivered d (dir_remove d.malloc path) .rmdir path ↔ PathOk d path) ∧
    ∀ addr args copy, ArgsDelivered d (execimage d.malloc addr args copy) addr copy args ↔
      ArgsOk d args := by
  refine ⟨fun path mode => ?_, pathOk_iff d takesPath_remove, pathOk_iff d takesPath_opendir,
    pathOk_iff d takesPath_mkdir, pathOk_iff d takesPath_rmdir, fun addr args copy => ?_⟩
  · unfold OpenOk file_open
    by_cases hshort : path.length + 1 ≤ 48
    · rw [pathCommand_short d (takesPath_open mode) hshort (Nat.le_succ _)]
      exact and_congr_right fun _ => ⟨fun _ => .inl (by omega), fun _ => .inl (by omega)⟩
    · rw [pathCommand_long d (takesPath_open mode) (by omega) le_rfl]
      refine and_congr_right fun _ => ?_
      rw [eq_self, true_and, or_iff_right (by omega)]
  · unfold ArgsOk
    by_cases hshort : argsSize args ≤ 48
    · rw [execimage_short d hshort]
      exact ⟨fun h => ⟨h, .inl hshort⟩, And.left⟩
    · rw [execimage_long d (by omega), or_iff_right hshort]

/-- A device with one page for the frame and one for blocks. -/
def sample : Device where
  mem _ := 0
  malloc n := if n ≤ 4096 then 0x3000 else 0
  frame := 0x1000
  old := List.replicate 64 0
  old_length := List.length_replicate
  frame_bounds := by decide
  block_bounds n h := by
    split at h
    · rename_i hn
      rw [if_pos hn]
      exact ⟨by decide, (Nat.add_le_add_left hn _).trans (by decide)⟩
    · exact absurd rfl h
  block_apart n h := by
    split at h
    · rename_i hn
      rw [if_pos hn]
      exact .inr (by decide)
    · exact absurd rfl h

/-- For a path of 49 bytes, `file_unlink` writes 50 bytes into a block of 49. -/
theorem writes_behind_the_block :
    ¬ ∀ (d : Device) (path : List UInt8), 0 ∉ path →
      PathDelivered d (file_unlink d.malloc path) .remove path := by
  intro hall
  have hdel := hall sample (List.replicate 49 0x61) (by decide)
  have hsize := ((pathCommand_long sample takesPath_remove (by decide) (Nat.le_succ _)).1 hdel).2.1
  exact absurd hsize (by decide)

end Marshalling
end Freemyipod
