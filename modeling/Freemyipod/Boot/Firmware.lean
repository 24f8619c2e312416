import Freemyipod.Lib.Effect
import Mathlib.Data.BitVec
import Mathlib.Logic.Function.Basic

/-!
# Boot.Firmware

Loading firmware for the boot menus, `libs/boot/main.c`: a file, or a file of the boot flash, is
read into a block of the allocator, and decompressed into another one.

* `verify_rockbox_checksum`, `check_firmware`, `load_from_file`, `load_from_flash`: the functions. A
  block that is not there is neither freed nor used, and nothing is read behind what was loaded, or
  written behind a block: that is a fault.
* `Disciplined`: no fault, and the block that is returned is all that is left.
* `disciplined_iff`: when the two load functions are.
-/

namespace Freemyipod
namespace Libboot

open Effect

inductive Fault
  /-- A block is freed, or used, that is not allocated. -/
  | notAllocated
  | readsOutside
  | writesOutside
  deriving DecidableEq

/-! ### The checksum -/

/-- `data[i]`, of `size` bytes that have been loaded -/
def byte (data : Nat → UInt8) (size i : Nat) : Except Fault (BitVec 32) :=
  if i < size then .ok ((data i).toBitVec.setWidth 32) else .error .readsOutside

/-- What is taken off the checksum, and the name of the platform. -/
def platformOf (id : BitVec 32) : Option (BitVec 32 × BitVec 32) :=
  if id = 0x47324e49 then some (62, 0x67326e6e)
  else if id = 0x4c435049 then some (71, 0x67367069)
  else none

/-- One turn of the loop: the image and the checksum. -/
def shift (size : Nat) (s : (Nat → UInt8) × BitVec 32) (i : Nat) :
    Except Fault ((Nat → UInt8) × BitVec 32) := do
  let b ← byte s.1 size (i + 8)
  return (Function.update s.1 i (s.1 (i + 8)), s.2 - b)

/-- A word, its lowest byte first -/
def word4 (data : Nat → UInt8) (size a b c d : Nat) : Except Fault (BitVec 32) := do
  let va ← byte data size a
  let vb ← byte data size b
  let vc ← byte data size c
  let vd ← byte data size d
  return va ||| (vb <<< 8) ||| (vc <<< 16) ||| (vd <<< 24)

/-- `size - 8`, as a `size_t` -/
def turns (size : Nat) : Nat := (size + 4294967288) % 4294967296

/-- The loop, and what is returned after it. -/
def sumUp (data : Nat → UInt8) (size : Nat) (checksum : BitVec 32) :
    Except Fault (Int × (Nat → UInt8)) := do
  let s ← (List.range (turns size)).foldlM (shift size) (data, checksum)
  return (if s.2 = 0 then 0 else -1, s.1)

/-- The result, and the image after it. -/
def verify_rockbox_checksum (id : BitVec 32) (data : Nat → UInt8) (size : Nat) :
    Except Fault (Int × (Nat → UInt8)) := do
  let checksum ← word4 data size 3 2 1 0
  match platformOf id with
  | none => return (-3, data)
  | some p =>
    let name ← word4 data size 4 5 6 7
    if name = p.2 then sumUp data size (checksum - p.1) else return (-2, data)

/-! ### The load functions -/

/-- What `ucl_decompress` returns, writes to `plen_dst`, and writes to `dst`. -/
structure Decompressed where
  rc : BitVec 32
  length : BitVec 32
  data : Nat → UInt8

/-- An open file: its size, what `read` returns, and what is in the buffer then. -/
structure File where
  size : BitVec 32
  read : BitVec 32
  data : Nat → UInt8

/-- How `tlsf_realign` answers a request of another size than zero. -/
inductive Resized
  | kept
  | moved
  | failed

structure Env where
  /-- `get_platform_id` -/
  platform : BitVec 32
  /-- Whether there is a block for a request, when so many have been handed out. -/
  serves : (blocks : Nat) → (size : BitVec 32) → Bool
  resize : (size : BitVec 32) → Resized
  decompress : (data : Nat → UInt8) → (size : BitVec 32) → Decompressed

structure World where
  /-- The number of blocks so far. -/
  blocks : Nat
  live : List Nat
  data : Nat → Nat → UInt8
  /-- `*firmware` and `*size` -/
  firmware : Option Nat
  size : BitVec 32

abbrev Prog := StateT World (Except Fault)

variable (env : Env)

def free (b : Nat) : Prog Unit := do
  let w ← get
  if b ∈ w.live then set { w with live := w.live.erase b } else throw .notAllocated

/-- `malloc`, `memalign` -/
def malloc (size : BitVec 32) : Prog (Option Nat) := do
  let w ← get
  if env.serves w.blocks size then
    set { w with blocks := w.blocks + 1, live := w.live ++ [w.blocks] }
    pure (some w.blocks)
  else pure none

/-- The size is that of the owner's word too. -/
def realloc (b : Nat) (size : BitVec 32) : Prog (Option Nat) := do
  if size + 4 = 0 then
    -- treated as free
    free b
    pure none
  else
    match env.resize size with
    | .kept => pure (some b)
    | .failed => pure none
    | .moved =>
      let w ← get
      set { w with
        blocks := w.blocks + 1
        live := w.live ++ [w.blocks]
        data := Function.update w.data w.blocks (w.data b) }
      free b
      pure (some w.blocks)

/-- `if (!verify || !verify_rockbox_checksum(buf, *size)) *firmware = buf; else free(buf);` -/
def keep (verify : Bool) (buf : Nat) : Prog Unit := do
  let w ← get
  if !verify then set { w with firmware := some buf }
  else if buf ∉ w.live then throw .notAllocated
  else
    match verify_rockbox_checksum env.platform (w.data buf) w.size.toNat with
    | .error e => throw e
    | .ok r =>
      let w := { w with data := Function.update w.data buf r.2 }
      if r.1 = 0 then set { w with firmware := some buf }
      else do
        set w
        free buf

def check_firmware (verify : Bool) (buf : Nat) (maxsize : BitVec 32) (compressed : Bool) :
    Prog Unit := do
  if compressed && maxsize != 0 then
    match ← malloc env maxsize with
    | none => free buf
    | some buf2 =>
      let w ← get
      let r := env.decompress (w.data buf) w.size
      if maxsize.toNat < r.length.toNat then throw .writesOutside
      else
        set { w with size := r.length, data := Function.update w.data buf2 r.data }
        if r.rc = 0 then
          free buf
          let buf ← realloc env buf2 r.length
          keep env verify (buf.getD buf2)
        else
          free buf2
          free buf
  else if !compressed then keep env verify buf
  else pure ()

def load_from_file (file : Option File) (verify : Bool) (maxsize : BitVec 32) : Prog Unit :=
  match file with
  | none => pure ()
  | some f => do
    modify fun w => { w with size := f.size }
    if (0 : BitVec 32).slt f.size then
      match ← malloc env f.size with
      | none => pure ()
      | some buf =>
        modify fun w => { w with data := Function.update w.data buf f.data }
        if f.read = f.size then check_firmware env verify buf maxsize (maxsize != 0) else free buf
    else pure ()

/-- `size`, `attributes` and `data` are what `bootflash_filesize`, `bootflash_attributes` and
`bootflash_read` yield. -/
def load_from_flash (size attributes : BitVec 32) (data : Nat → UInt8) (verify : Bool)
    (maxsize : BitVec 32) : Prog Unit := do
  modify fun w => { w with size := size }
  if (0 : BitVec 32).slt size then
    match ← malloc env size with
    | none => pure ()
    | some buf =>
      modify fun w => { w with data := Function.update w.data buf data }
      check_firmware env verify buf maxsize (attributes &&& 0x800 != 0)
  else pure ()

/-! ### What they are for -/

/-- Before a call: no block of its own, and no firmware. -/
def start (size : BitVec 32) : World where
  blocks := 0
  live := []
  data _ _ := 0
  firmware := none
  size := size

/-- The call ends without a fault, and the block that it returns, if any, is the only one left. -/
def Disciplined (p : Prog Unit) : Prop :=
  ∀ size, Wp p (start size) fun _ w => w.live = w.firmware.toList

/-- The checksum can be looked at without reading behind the image. -/
def Readable (id : BitVec 32) (size : Nat) : Prop := 8 ≤ size ∨ 4 ≤ size ∧ platformOf id = none

/-- What `check_firmware` must be given for the image `data` of `size` bytes. -/
def CheckOk (data : Nat → UInt8) (size : BitVec 32) (verify : Bool) (maxsize : BitVec 32)
    (compressed : Bool) : Prop :=
  if compressed then
    maxsize ≠ 0 ∧ (env.serves 1 maxsize = true →
      let r := env.decompress data size
      r.length.toNat ≤ maxsize.toNat ∧
        (r.rc = 0 → r.length + 4 ≠ 0 ∧ (verify = true → Readable env.platform r.length.toNat)))
  else verify = true → Readable env.platform size.toNat

variable {env} {data : Nat → UInt8} {n i b : Nat} {id size maxsize : BitVec 32} {w : World}
  {verify : Bool}

/-! ### What is read -/

theorem byte_of_lt (h : i < n) : byte data n i = .ok ((data i).toBitVec.setWidth 32) := if_pos h

theorem byte_of_le (h : n ≤ i) : byte data n i = .error .readsOutside := if_neg (Nat.not_lt.2 h)

theorem foldlM_shift (l : List Nat) (hl : ∀ i ∈ l, i + 8 < n) (s : (Nat → UInt8) × BitVec 32) :
    ∃ t, l.foldlM (shift n) s = .ok t := by
  induction l generalizing s with
  | nil => exact ⟨s, rfl⟩
  | cons i l ih =>
    have hturn : shift n s i = .ok (Function.update s.1 i (s.1 (i + 8)),
        s.2 - (s.1 (i + 8)).toBitVec.setWidth 32) := by
      rw [shift, byte_of_lt (hl i List.mem_cons_self)]
      rfl
    rw [List.foldlM_cons, hturn]
    exact ih (fun j hj => hl j (List.mem_cons_of_mem _ hj)) _

theorem word4_ok {a b c d : Nat} (ha : a < n) (hb : b < n) (hc : c < n) (hd : d < n) :
    ∃ v, word4 data n a b c d = .ok v := by
  rw [word4, byte_of_lt ha, byte_of_lt hb, byte_of_lt hc, byte_of_lt hd]
  exact ⟨_, rfl⟩

theorem word4_error {a b c d : Nat} (h : n ≤ a ∨ n ≤ b ∨ n ≤ c ∨ n ≤ d) :
    word4 data n a b c d = .error .readsOutside := by
  unfold word4 byte
  simp only [bind, Except.bind]
  split_ifs
  · omega
  all_goals rfl

theorem ok_bind {α β : Type} (a : α) (f : α → Except Fault β) : (Except.ok a >>= f) = f a := rfl

theorem turns_of_le (h : 8 ≤ n) (hn : n < 4294967296) : turns n = n - 8 := by
  unfold turns
  omega

theorem sumUp_ok (h : 8 ≤ n) (hn : n < 4294967296) (checksum : BitVec 32) :
    ∃ r, sumUp data n checksum = .ok r := by
  have hin : ∀ i ∈ List.range (turns n), i + 8 < n := by
    intro i hi
    rw [turns_of_le h hn, List.mem_range] at hi
    omega
  obtain ⟨t, ht⟩ := foldlM_shift _ hin (data, checksum)
  rw [sumUp, ht]
  exact ⟨_, rfl⟩

theorem verify_readable (h : Readable id n) (hn : n < 4294967296) :
    ∃ r, verify_rockbox_checksum id data n = .ok r := by
  have hfour : 4 ≤ n := by
    rcases h with h | h
    · omega
    · exact h.1
  obtain ⟨checksum, hsum⟩ := @word4_ok data n 3 2 1 0 (by omega) (by omega) (by omega) (by omega)
  rw [verify_rockbox_checksum, hsum, ok_bind]
  cases hp : platformOf id with
  | none => exact ⟨_, rfl⟩
  | some p =>
    have height : 8 ≤ n := by
      rcases h with h | h
      · exact h
      · rw [hp] at h
        cases h.2
    obtain ⟨name, hname⟩ := @word4_ok data n 4 5 6 7 (by omega) (by omega) (by omega) (by omega)
    dsimp only
    rw [hname, ok_bind]
    split
    · exact sumUp_ok height hn _
    · exact ⟨_, rfl⟩

theorem verify_unreadable (h : ¬ Readable id n) :
    verify_rockbox_checksum id data n = .error .readsOutside := by
  unfold Readable at h
  push Not at h
  by_cases hfour : 4 ≤ n
  · obtain ⟨checksum, hsum⟩ := @word4_ok data n 3 2 1 0 (by omega) (by omega) (by omega) (by omega)
    rw [verify_rockbox_checksum, hsum, ok_bind]
    cases hp : platformOf id with
    | none => exact absurd hp (h.2 hfour)
    | some p =>
      dsimp only
      rw [word4_error (by omega)]
      rfl
  · rw [verify_rockbox_checksum, word4_error (by omega)]
    rfl

/-! ### The blocks -/

/-- What is to be shown of the state after a call. -/
def Left (w : World) : Prop := w.live = w.firmware.toList

theorem wp_free {Q : Unit → World → Prop} :
    Wp (free b) w Q ↔ b ∈ w.live ∧ Q () { w with live := w.live.erase b } := by
  unfold free
  rw [wp_bind, wp_get]
  split
  · rename_i h
    rw [wp_set, and_iff_right h]
  · rename_i h
    exact ⟨fun hw => absurd hw (wp_throw _ _ _), fun hb => absurd hb.1 h⟩

theorem wp_malloc {Q : Option Nat → World → Prop} :
    Wp (malloc env size) w Q ↔
      if env.serves w.blocks size then
        Q (some w.blocks) { w with blocks := w.blocks + 1, live := w.live ++ [w.blocks] }
      else Q none w := by
  unfold malloc
  rw [wp_bind, wp_get]
  split
  · rw [wp_bind, wp_set, wp_pure]
  · rw [wp_pure]

/-- The last block is kept as firmware, or freed: what matters is that the checksum can be read. -/
theorem keep_live (hl : w.live = [b]) (hf : w.firmware = none) :
    Wp (keep env verify b) w (fun _ w => Left w) ↔
      (verify = true → Readable env.platform w.size.toNat) := by
  unfold keep
  rw [wp_bind, wp_get]
  cases verify with
  | false => simp [Left, hl]
  | true =>
    have hmem : ¬ b ∉ w.live := by simp [hl]
    rw [if_neg (by decide), if_neg hmem]
    by_cases hread : Readable env.platform w.size.toNat
    · obtain ⟨r, hr⟩ := @verify_readable (w.data b) _ _ hread w.size.isLt
      rw [hr]
      refine (iff_true_right fun _ => hread).2 ?_
      dsimp only
      split
      · simp [Left, hl]
      · rw [wp_bind, wp_set, wp_free]
        simp [Left, hl, hf]
    · rw [verify_unreadable hread]
      exact ⟨fun hw => absurd hw (wp_throw _ _ _), fun h => absurd (h rfl) hread⟩

/-- A block that is gone must not be kept. -/
theorem keep_gone (hl : w.live = []) : ¬ Wp (keep env verify b) w (fun _ w => Left w) := by
  unfold keep
  rw [wp_bind, wp_get]
  cases verify with
  | false => simp [Left, hl]
  | true =>
    have hmem : b ∉ w.live := by simp [hl]
    rw [if_neg (by decide), if_pos hmem]
    exact wp_throw _ _ _

/-- Wherever the block that holds the decompressed data ends up, it is the only one. -/
theorem keep_resized (hl : w.live = [1]) (hb : w.blocks = 2) (hf : w.firmware = none)
    (hsize : w.size = size) (hz : size + 4 ≠ 0) :
    Wp (realloc env 1 size >>= fun buf => keep env verify (buf.getD 1)) w (fun _ w => Left w) ↔
      (verify = true → Readable env.platform size.toNat) := by
  rw [wp_bind, realloc, if_neg hz]
  cases env.resize size with
  | kept =>
    rw [wp_pure, ← hsize]
    exact keep_live hl hf
  | failed =>
    rw [wp_pure, ← hsize]
    exact keep_live hl hf
  | moved =>
    rw [wp_bind, wp_get, wp_bind, wp_set, wp_bind, wp_free, wp_pure, ← hsize]
    refine (and_iff_right (by simp [hl])).trans (keep_live ?_ hf)
    simp [hl, hb]

theorem check_iff {compressed : Bool} (hl : w.live = [0]) (hb : w.blocks = 1)
    (hf : w.firmware = none) :
    Wp (check_firmware env verify 0 maxsize compressed) w (fun _ w => Left w) ↔
      CheckOk env (w.data 0) w.size verify maxsize compressed := by
  unfold check_firmware CheckOk
  cases compressed with
  | false => exact keep_live hl hf
  | true =>
    by_cases hmax : maxsize = 0
    · -- the block of the file is forgotten
      subst hmax
      simp [Left, hl, hf]
    · rw [if_pos (by rwa [Bool.true_and, bne_iff_ne]), if_pos rfl, and_iff_right hmax, wp_bind,
        wp_malloc, hb]
      split
      · rename_i hserves
        rw [forall_prop_of_true hserves]
        dsimp only
        rw [wp_bind, wp_get]
        dsimp only
        by_cases hroom : (env.decompress (w.data 0) w.size).length.toNat ≤ maxsize.toNat
        · rw [if_neg (Nat.not_lt.2 hroom), and_iff_right hroom, wp_bind, wp_set]
          by_cases hrc : (env.decompress (w.data 0) w.size).rc = 0
          · rw [if_pos hrc, forall_prop_of_true hrc, wp_bind, wp_free]
            by_cases hz : (env.decompress (w.data 0) w.size).length + 4 = 0
            · rw [wp_bind, realloc, if_pos hz, wp_bind, wp_free, wp_pure]
              refine ⟨fun h => absurd h.2.2 (keep_gone (by simp [hl])), fun h => absurd hz h.1⟩
            · rw [and_iff_right hz]
              refine (and_iff_right (by simp [hl])).trans ?_
              exact keep_resized (by simp [hl]) rfl hf rfl hz
          · rw [if_neg hrc, wp_bind, wp_free, wp_free]
            refine (iff_true_right fun h => absurd h hrc).2 ?_
            simp [Left, hl, hf]
        · rw [if_pos (Nat.lt_of_not_le hroom)]
          exact ⟨fun h => absurd h (wp_throw _ _ _), fun h => absurd h.1 hroom⟩
      · rename_i hserves
        rw [wp_free]
        simp [Left, hl, hf, hserves]

/-- The state when an image has been loaded into the first block. -/
theorem check_loaded {compressed : Bool} :
    Wp (check_firmware env verify 0 maxsize compressed)
      ⟨1, [0], Function.update (fun _ _ => 0) 0 data, none, size⟩ (fun _ w => Left w) ↔
      CheckOk env data size verify maxsize compressed := by
  have hcheck := @check_iff env maxsize ⟨1, [0], Function.update (fun _ _ => 0) 0 data, none, size⟩
    verify compressed rfl rfl rfl
  dsimp only at hcheck
  rwa [Function.update_self] at hcheck

/-! ### The load functions -/

variable (env)

/-- A file that is opened, found not to be empty, and read as a whole into a block, can be checked. -/
def FileOk (file : Option File) (verify : Bool) (maxsize : BitVec 32) : Prop :=
  ∀ f, file = some f → (0 : BitVec 32).slt f.size = true → env.serves 0 f.size = true →
    f.read = f.size → CheckOk env f.data f.size verify maxsize (maxsize != 0)

/-- For the boot flash the attributes of the file say if it is compressed. -/
def FlashOk (size attributes : BitVec 32) (data : Nat → UInt8) (verify : Bool)
    (maxsize : BitVec 32) : Prop :=
  (0 : BitVec 32).slt size = true → env.serves 0 size = true →
    CheckOk env data size verify maxsize (attributes &&& 0x800 != 0)

/-- The load functions return their one live block, or none, free all others once and read nothing
behind the image, exactly when: where the checksum is looked at there are 8 bytes (or 4, on a device
that they have no name for); and a file that is compressed comes with a limit, fits into it, and
does not have the one length for which `realloc` frees the block. -/
theorem disciplined_iff (env : Env) (verify : Bool) (maxsize : BitVec 32) :
    (∀ file, Disciplined (load_from_file env file verify maxsize) ↔
      FileOk env file verify maxsize) ∧
    ∀ size attributes data,
      Disciplined (load_from_flash env size attributes data verify maxsize) ↔
        FlashOk env size attributes data verify maxsize := by
  constructor
  · intro file
    refine (forall_congr' fun size₀ => ?_).trans (forall_const _)
    unfold FileOk
    cases file with
    | none => simp [load_from_file, start]
    | some f =>
      simp only [Option.some.injEq, forall_eq']
      rw [load_from_file, wp_bind, wp_modify]
      split
      · rename_i hpos
        rw [forall_prop_of_true hpos, wp_bind, wp_malloc]
        change (if env.serves 0 f.size = true then _ else _) ↔ _
        split
        · rename_i hserves
          rw [forall_prop_of_true hserves]
          dsimp only
          rw [wp_bind, wp_modify]
          split
          · rename_i hread
            rw [forall_prop_of_true hread]
            exact check_loaded
          · rename_i hread
            refine (iff_true_right fun h => absurd h hread).2 ?_
            rw [wp_free]
            simp [start]
        · rename_i hserves
          exact (iff_true_right fun h => absurd h hserves).2 ((wp_pure _ _ _).2 rfl)
      · rename_i hpos
        exact (iff_true_right fun h => absurd h hpos).2 ((wp_pure _ _ _).2 rfl)
  · intro size attributes data
    refine (forall_congr' fun size₀ => ?_).trans (forall_const _)
    unfold FlashOk
    rw [load_from_flash, wp_bind, wp_modify]
    split
    · rename_i hpos
      rw [forall_prop_of_true hpos, wp_bind, wp_malloc]
      change (if env.serves 0 size = true then _ else _) ↔ _
      split
      · rename_i hserves
        rw [forall_prop_of_true hserves]
        dsimp only
        rw [wp_bind, wp_modify]
        exact check_loaded
      · rename_i hserves
        exact (iff_true_right fun h => absurd h hserves).2 ((wp_pure _ _ _).2 rfl)
    · rename_i hpos
      exact (iff_true_right fun h => absurd h hpos).2 ((wp_pure _ _ _).2 rfl)

/-- An allocator that always has a block, and a decompressor that does nothing. -/
def sample : Env where
  platform := 0x4c435049
  serves _ _ := true
  resize _ := .kept
  decompress data size := ⟨0, size, data⟩

/-- A compressed file of the boot flash that is loaded without a limit is never freed. -/
theorem loses_the_block :
    ¬ ∀ (env : Env) (verify : Bool) (maxsize : BitVec 32),
      (∀ file, Disciplined (load_from_file env file verify maxsize)) ∧
        ∀ size attributes data,
          Disciplined (load_from_flash env size attributes data verify maxsize) := by
  intro hall
  obtain ⟨u, w, hrun, hleft⟩ := (hall sample false 0).2 16 0x800 (fun _ => 0) 0
  cases hrun
  cases hleft

end Libboot
end Freemyipod
