import Freemyipod.Lib.Effect
import Freemyipod.Lib.Memory

/-!
# Execimage.Model

`execimage.c`, and `library_register` of `library.c`: an image is checked, decompressed or moved,
relocated and started as a thread, or registered as a library.

Sizes and addresses are words of 32 bits. What the allocator answers, what the decompressor writes,
and what the functions of a library return are parameters. The blocks of the allocator are numbered;
`Env.addr` says where each of them lies. The strings of `argv` are given with their bytes, without
the one that ends them. The texts for the console are left out, and the library mutex.
-/

namespace Freemyipod
namespace Execimage

open Effect Memory

/-- `struct emcoreapp_header`; `creationtime` is not used. -/
structure Header where
  signature : List UInt8
  version : BitVec 32
  textstart : BitVec 32
  textsize : BitVec 32
  bsssize : BitVec 32
  stacksize : BitVec 32
  entrypoint : BitVec 32
  relocstart : BitVec 32
  reloccount : BitVec 32
  flags : BitVec 32

def Header.read (m : Mem 32) (image : BitVec 32) : Header where
  signature := load m image 8
  version := load32 m (image + 8)
  textstart := load32 m (image + 12)
  textsize := load32 m (image + 16)
  bsssize := load32 m (image + 20)
  stacksize := load32 m (image + 24)
  entrypoint := load32 m (image + 28)
  relocstart := load32 m (image + 32)
  reloccount := load32 m (image + 36)
  flags := load32 m (image + 40)

/-- `"emCOexec"` -/
def signature : List UInt8 := [0x65, 0x6d, 0x43, 0x4f, 0x65, 0x78, 0x65, 0x63]

/-- A string of `argv`. -/
structure Arg where
  ptr : BitVec 32
  text : List UInt8

def Arg.len (a : Arg) : BitVec 32 := BitVec.ofNat 32 a.text.length

/-- `(x + 3) & ~3` -/
def alignUp (x : BitVec 32) : BitVec 32 := (x + 3) &&& ~~~3

def argsize (args : List Arg) : BitVec 32 :=
  alignUp (args.foldl (fun n a => n + (5 + a.len)) 0)

namespace Header

variable (h : Header) (args : List Arg)

def compressed : Bool := h.flags &&& 1 ≠ 0

def lib : Bool := h.flags &&& 2 ≠ 0

/-- `relocstart`, relative to the text -/
def relocs : BitVec 32 := h.relocstart - h.textstart

def finalsize : BitVec 32 :=
  if h.lib then h.textsize + h.bsssize else h.textsize + h.bsssize + argsize args + h.stacksize

def datasize : BitVec 32 := h.relocs + h.reloccount * 4

def tempsize : BitVec 32 :=
  if h.datasize < h.finalsize args then h.finalsize args else h.datasize

end Header

/-- Who a block belongs to in the end. -/
inductive Owner
  | thread
  | library
  deriving DecidableEq

/-- What happens to a block of the allocator. -/
inductive Event
  | alloc (b : Nat)
  | free (b : Nat)
  | own (b : Nat) (o : Owner)
  deriving DecidableEq

/-- `struct scheduler_thread`, as `thread_create` is asked to set it up. -/
structure Thread where
  image : Nat
  entry : BitVec 32
  stack : BitVec 32
  stacksize : BitVec 32
  argc : Nat
  argv : BitVec 32

/-- What `execimage` returns. -/
inductive Handle
  | thread (t : Thread)
  | library

def Handle.owner : Handle → Owner
  | .thread _ => .thread
  | .library => .library

/-- What a library is found by. -/
structure Library where
  identifier : BitVec 32
  version : BitVec 32
  deriving DecidableEq

/-- How `tlsf_realign` answers a request of another size than zero. -/
inductive Resized
  | kept
  | moved
  | failed
  deriving DecidableEq

structure Env where
  addr : Nat → BitVec 32
  /-- `CACHEALIGN_BITS` -/
  cachealignBits : Nat
  /-- Whether there is a block for a request, when so many have been handed out. -/
  serves : (blocks : Nat) → (size : BitVec 32) → Bool
  resize : (b : Nat) → (size : BitVec 32) → Resized
  /-- `tlsf_block_size` -/
  blockSize : Nat → Nat
  /-- `ucl_decompress`: the memory after it, and `decompsize` -/
  decompress : Mem 32 → (src size dst : BitVec 32) → Mem 32 × BitVec 32
  /-- `thread_create` finds memory for the thread. -/
  threadCreate : Bool
  setup : Mem 32 → (setupfunc : BitVec 32) → Int
  init : Mem 32 → (initfunc : BitVec 32) → List Arg → Int

@[ext]
structure World where
  mem : Mem 32
  /-- The number of blocks so far. -/
  blocks : Nat
  heap : List Event
  libs : List Library

inductive Fault
  /-- `NULL` is written to. -/
  | nullPointer
  deriving DecidableEq

abbrev Prog := StateT World (Except Fault)

namespace World

variable (w : World)

def setMem (m : Mem 32) : World := { w with mem := m }

def alloc : World := { w with blocks := w.blocks + 1, heap := w.heap ++ [.alloc w.blocks] }

def free (b : Nat) : World := { w with heap := w.heap ++ [.free b] }

def own (b : Nat) (o : Owner) : World := { w with heap := w.heap ++ [.own b o] }

@[simp] theorem setMem_mem (m : Mem 32) : (w.setMem m).mem = m := rfl

@[simp] theorem setMem_blocks (m : Mem 32) : (w.setMem m).blocks = w.blocks := rfl

@[simp] theorem setMem_heap (m : Mem 32) : (w.setMem m).heap = w.heap := rfl

@[simp] theorem setMem_libs (m : Mem 32) : (w.setMem m).libs = w.libs := rfl

end World

def free (b : Nat) : Prog Unit := modify fun w => w.free b

/-- `reownalloc` -/
def reownalloc (b : Nat) (o : Owner) : Prog Unit := modify fun w => w.own b o

variable (env : Env)

/-- `memalign`, `malloc` -/
def memalign (size : BitVec 32) : Prog (Option Nat) := do
  let w ← get
  if env.serves w.blocks size then
    set w.alloc
    pure (some w.blocks)
  else pure none

/-- `realign` and `tlsf_realign`: the size is that of the owner's word too. -/
@[grind =] def realign (b : Nat) (size : BitVec 32) : Prog (Option Nat) := do
  if size + 4 = 0 then
    -- treated as free
    free b
    pure none
  else
    match env.resize b size with
    | .kept => pure (some b)
    | .failed => pure none
    | .moved =>
      let w ← get
      let minsize := min (env.blockSize b) (size + 4).toNat
      set (w.alloc.setMem (store w.mem (env.addr w.blocks) (load w.mem (env.addr b) minsize)))
      free b
      pure (some w.blocks)

/-- `if (!copy) free(image)` -/
def discard (copy : Bool) (image : Nat) : Prog Unit :=
  if copy then pure () else free image

/-- `memcpy` -/
def memcpy (dst src size : BitVec 32) : Prog Unit :=
  modify fun w => w.setMem (store w.mem dst (load w.mem src size.toNat))

/-- `(uint32_t)image & (CACHEALIGN_SIZE - 1)` -/
def misaligned (a : BitVec 32) : Bool :=
  a &&& (BitVec.twoPow 32 env.cachealignBits - 1) ≠ 0

/-- The image, decompressed or moved to where it is run. -/
@[grind =] def place (h : Header) (args : List Arg) (image : Nat) (copy : Bool) : Prog (Option Nat) := do
  if h.compressed then
    match ← memalign env (h.tempsize args) with
    | none =>
      discard copy image
      pure none
    | some alloc =>
      let w ← get
      let r := env.decompress w.mem (env.addr image + h.textstart) h.datasize (env.addr alloc)
      set (w.setMem r.1)
      discard copy image
      if h.datasize ≠ r.2 then
        free alloc
        pure none
      else pure (some alloc)
  else if copy || misaligned env (env.addr image) then
    match ← memalign env (h.tempsize args) with
    | none =>
      discard copy image
      pure none
    | some alloc =>
      memcpy (env.addr alloc) (env.addr image + h.textstart) h.datasize
      discard copy image
      pure (some alloc)
  else
    memcpy (env.addr image) (env.addr image + h.textstart) h.datasize
    match ← realign env image (h.tempsize args) with
    | none =>
      free image
      pure none
    | some newimage => pure (some newimage)

/-- The loop over the relocations. -/
def relocate (m : Mem 32) (image : BitVec 32) : (reloccount : Nat) → (relocstart : BitVec 32) → Mem 32
  | 0, _ => m
  | n + 1, relocstart =>
    let reloc := load32 m (image + relocstart)
    let data := load32 m (image + reloc)
    relocate (store32 m (image + reloc) (image + data)) image n (relocstart + 4)

/-- The loop that copies the strings: the memory, and `ptr` after it. -/
def copyStrings (m : Mem 32) (ptr : BitVec 32) : List Arg → Mem 32 × BitVec 32
  | [] => (m, ptr)
  | a :: args => copyStrings (store m ptr a.text) (ptr + a.len) args

/-- `argv_copy` -/
def argvCopy (h : Header) (image : BitVec 32) : BitVec 32 := image + h.textsize + h.bsssize

/-- The memory with the bss cleared. -/
def clearBss (h : Header) (image : BitVec 32) (m : Mem 32) : Mem 32 :=
  store m (image + h.textsize) (List.replicate h.bsssize.toNat 0)

/-- The arguments behind the bss, and the pointer to the stack behind them. -/
def copyArgs (h : Header) (image : BitVec 32) (args : List Arg) (m : Mem 32) : Mem 32 × BitVec 32 :=
  let ptr := argvCopy h image
  let r := copyStrings (store m ptr (args.flatMap fun a => word a.ptr))
    (ptr + BitVec.ofNat 32 (args.length * 4)) args
  (r.1, alignUp r.2)

/-- What `library_register` refuses: a library that is there already, or one whose functions fail. -/
def refuses (libs : List Library) (m : Mem 32) (header : BitVec 32) (args : List Arg) : Bool :=
  let setupfunc := load32 m (header + 16)
  let initfunc := load32 m (header + 20)
  ⟨load32 m (header + 4), load32 m (header + 8)⟩ ∈ libs ∨
    (setupfunc ≠ 0 ∧ env.setup m setupfunc < 0) ∨ (initfunc ≠ 0 ∧ env.init m initfunc args < 0)

/-- `sizeof(struct library_handle)` -/
def handleSize : BitVec 32 := 84

/-- `library_register` -/
def libraryRegister (image : Nat) (header : BitVec 32) (args : List Arg) : Prog (Option Handle) := do
  let w ← get
  if refuses env w.libs w.mem header args then pure none
  else
    match ← memalign env handleSize with
    | none => throw .nullPointer -- memset(handle, 0, ...)
    | some handle =>
      reownalloc handle .library
      reownalloc image .library
      modify fun v =>
        { v with libs := ⟨load32 w.mem (header + 4), load32 w.mem (header + 8)⟩ :: v.libs }
      pure (some .library)

/-- `if (tempsize != finalsize) realloc(image, finalsize)`; its result is not looked at. -/
@[grind =] def shrink (h : Header) (args : List Arg) (image : Nat) : Prog Unit := do
  if h.tempsize args ≠ h.finalsize args then
    let _ ← realign env image (h.finalsize args)
    pure ()
  else pure ()

/-- `execimage`, from the `memset` of the bss on. -/
def launch (h : Header) (args : List Arg) (image : Nat) : Prog (Option Handle) := do
  let a := env.addr image
  let w ← get
  let r := copyArgs h a args (clearBss h a w.mem)
  set (w.setMem r.1)
  if h.lib then libraryRegister env image (a + h.entrypoint) args
  else if env.threadCreate then
    reownalloc image .thread
    pure (some (.thread ⟨image, a + h.entrypoint, r.2, h.stacksize, args.length, argvCopy h a⟩))
  else
    free image
    pure none

/-- `execimage`, from the relocation on. -/
def start (h : Header) (args : List Arg) (image : Nat) : Prog (Option Handle) := do
  modify fun w => w.setMem (relocate w.mem (env.addr image) h.reloccount.toNat h.relocs)
  shrink env h args image
  launch env h args image

/-- `execimage` -/
def execimage (image : Nat) (copy : Bool) (argv : Option (List Arg)) : Prog (Option Handle) := do
  let w ← get
  let h := Header.read w.mem (env.addr image)
  let args := argv.getD []
  if h.signature ≠ signature ∨ h.version ≠ 1 then
    discard copy image
    pure none
  else
    match ← place env h args image copy with
    | none => pure none
    | some image => start env h args image

end Execimage
end Freemyipod
