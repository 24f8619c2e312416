import Freemyipod.Bootflash.Directory

/-!
# Installer.Flash

The boot flash image that the installers make (`main` of `apps/installer-ipodnano2g/main.c` and
`apps/installer-ipodclassic/main.c`): files are stored from both ends of the flash, each on sectors
of 4 KiB of its own, and entered into a directory.

* `fetch`, `records`: a pass of the loop reads one record of the script.
* `State.place`: the rest of the pass. `pack` is the loop.
* `LaidOut`: what a good image is.
* `Fits`: the space that a file takes is there.
-/

namespace Freemyipod
namespace Installer

open Bytes
open Bootflash (Entry findflashfile filesize)
open Memory (Mem load word)

/-- The installers; that for the nano 2G knows two files of its own. -/
inductive Version where
  | nano2g (diskuclptr diskuclsize diaguclptr diaguclsize : BitVec 32)
  | classic

namespace Version

/-- Where the directory starts, and ends -/
def dir : Version → Nat
  | nano2g _ _ _ _ => 0
  | classic => 0x1000

def dirend (v : Version) : Nat := v.dir + 0x1000

def syscfg : Version → Nat
  | nano2g _ _ _ _ => 0x1000
  | classic => 0

def hasHeaders : Version → Bool
  | nano2g _ _ _ _ => false
  | classic => true

end Version

/-! ### The script -/

/-- What is read of the script for a file. `name` are the two words that the directory gets. -/
structure Record where
  flags : Nat
  align : BitVec 8
  data : BitVec 32
  size : BitVec 32
  name : BitVec 32 × BitVec 32

/-- The words behind the first one: pointer and size, unless the installer has them. -/
def Version.fetchData (v : Version) (file flags : Nat) (rest : List (BitVec 32)) :
    Nat × BitVec 32 × BitVec 32 × List (BitVec 32) :=
  match v, file with
  | .nano2g diskuclptr diskuclsize _ _, 1 => (flags ||| 2, diskuclptr, diskuclsize, rest)
  | .nano2g _ _ diaguclptr diaguclsize, 2 => (flags ||| 2, diaguclptr, diaguclsize, rest)
  | _, _ => (flags, rest.getD 0 0, rest.getD 1 0, rest.drop 2)

/-- A record, and the script behind it. There is a name unless flag 4 is set. -/
def Version.fetch (v : Version) (head : BitVec 32) (rest : List (BitVec 32)) :
    Record × List (BitVec 32) :=
  let file := head.toNat % 256
  let align := BitVec.ofNat 8 (head.toNat / 65536)
  let (flags, data, size, rest) := v.fetchData file (head.toNat / 256 % 256) rest
  if flags.testBit 2 then (⟨flags, align, data, size, (0, 0)⟩, rest)
  else (⟨flags, align, data, size, (rest.getD 0 0, rest.getD 1 0)⟩, rest.drop 2)

theorem Version.fetch_length (v : Version) (head : BitVec 32) (rest : List (BitVec 32)) :
    (v.fetch head rest).2.length ≤ rest.length := by
  have hdata : ∀ file flags,
      (v.fetchData file flags rest).2.2.2.length ≤ rest.length := by
    intro file flags
    unfold fetchData
    split <;> simp
  unfold fetch
  dsimp only
  split
  · exact hdata _ _
  · rw [List.length_drop]
    exact (Nat.sub_le _ _).trans (hdata _ _)

/-- All records, up to a zero -/
def records (v : Version) : List (BitVec 32) → List Record
  | [] => []
  | head :: rest =>
    if head = 0 then []
    else (v.fetch head rest).1 :: records v (v.fetch head rest).2
termination_by script => script.length
decreasing_by
  have := v.fetch_length head rest
  simp only [List.length_cons]
  omega

namespace Record

variable (v : Version) (r : Record)

def atEnd : Bool := r.flags.testBit 0

def unlisted : Bool := r.flags.testBit 2

def headed : Bool := v.hasHeaders && r.flags.testBit 3

/-- `align && !(flags & 1)` -/
def aligned : Bool := r.align != 0 && !r.atEnd

def storesize : BitVec 32 := if r.flags.testBit 1 then r.size ||| 0x80000000 else r.size

def offs : Nat := if r.headed v then 0x800 else 0

/-- The size that is copied, which with a header is a multiple of 16 -/
def copied : Nat :=
  if r.headed v then (r.size.toNat + 0xf) % 4294967296 / 16 * 16 else r.size.toNat

/-- `(offs + size + 0xfff) & ~0xfff` -/
def room : Nat := (r.offs v + r.copied v + 0xfff) % 4294967296 / 4096 * 4096

/-- The sectors that header and file need -/
def space : Nat := (r.offs v + r.copied v + 0xfff) / 4096 * 4096

/-- What goes into the directory, for a file that is at `file` -/
def entry (file : Nat) : Entry where
  name := word r.name.1 ++ word r.name.2
  file := BitVec.ofNat 32 file
  size := r.storesize
  name_length := rfl

end Record

/-! ### The image -/

/-- The two hardware units: SHA-1, and the AES with the key of the device. -/
structure Hardware where
  sha1 : List UInt8 → List UInt8
  aes : List UInt8 → List UInt8
  sha1_length : ∀ bs, (sha1 bs).length = 20
  aes_length : ∀ bs, (aes bs).length = bs.length

variable (hw : Hardware)

/-- `hwkeyaes(HWKEYAES_ENCRYPT, 2, &norbuf[a], n)` -/
def Hardware.encrypt (norbuf : Memory) (a n : Nat) : Memory :=
  put norbuf a (hw.aes (bytes norbuf a n))

/-- `sha1(&norbuf[a], n, &norbuf[dst])` -/
def Hardware.hash (norbuf : Memory) (a n dst : Nat) : Memory :=
  put norbuf dst (hw.sha1 (bytes norbuf a n))

/-- The header, in front of the `size` bytes of a file -/
def Hardware.addHeader (norbuf : Memory) (file size : Nat) : Memory :=
  let norbuf := put norbuf file (List.replicate 0x800 0)
  let norbuf := put norbuf file [0x38, 0x37, 0x30, 0x32, 0x31, 0x2e, 0x30, 0x01]
  let norbuf := put norbuf (file + 0xc) (word (BitVec.ofNat 32 size))
  let norbuf := hw.hash norbuf (file + 0x800) size (file + 0x10)
  let norbuf := put norbuf (file + 0x20) (word 0)
  let norbuf := hw.encrypt norbuf (file + 0x10) 0x10
  let norbuf := hw.hash norbuf file 0x40 (file + 0x40)
  let norbuf := put norbuf (file + 0x50) (word 0)
  let norbuf := hw.encrypt norbuf (file + 0x40) 0x10
  hw.encrypt norbuf (file + 0x800) size

/-- A file that has been stored: where, and how many bytes it takes with header and padding. The
installers do not keep this. -/
structure Stored where
  record : Record
  file : Nat
  length : Nat

def Stored.Contains (f : Stored) (x : Nat) : Prop := f.file ≤ x ∧ x < f.file + f.length

/-- No byte belongs to both files. -/
def Stored.Apart (f g : Stored) : Prop := f.file + f.length ≤ g.file ∨ g.file + g.length ≤ f.file

structure State where
  norbuf : Memory
  beginptr : Nat
  endptr : Nat
  dirptr : Nat
  stored : List Stored

variable (v : Version) (ram : Mem 32)

/-- `beginptr` after the alignment -/
def State.start (r : Record) (s : State) : Nat :=
  if r.aligned then r.align.toNat * 4096 else s.beginptr

def State.file (r : Record) (s : State) : Nat :=
  if r.atEnd then (s.endptr + 4294967296 - r.room v) % 4294967296 else s.start r

/-- The file is copied, gets its directory entry and its header, and the pointers move. -/
def State.store (r : Record) (s : State) : State :=
  let file := s.file v r
  let norbuf := put s.norbuf ((file + r.offs v) % 4294967296) (load ram r.data (r.copied v))
  let norbuf := if r.unlisted then norbuf else put norbuf s.dirptr (r.entry file).bytes
  { norbuf := if r.headed v then hw.addHeader norbuf file (r.copied v) else norbuf
    beginptr := if r.atEnd then s.start r else (s.start r + r.room v) % 4294967296
    endptr := if r.atEnd then file else s.endptr
    dirptr := if r.unlisted then s.dirptr else s.dirptr + 0x10
    stored := s.stored ++ [⟨r, file, r.space v⟩] }

/-- The pass of the loop for a record: nothing if it ends in a panic. -/
def State.place (r : Record) (s : State) : Option State :=
  if r.size = 0 then some s
  else if r.aligned ∧ r.align.toNat * 4096 < s.beginptr then none
  else if (s.endptr + 4294967296 - s.start r) % 4294967296 < r.size.toNat then none
  else if ¬ r.unlisted ∧ v.dirend ≤ s.dirptr then none
  else some (s.store hw v ram r)

/-- The image and the pointers before the loop -/
def init (syscfgptr : Memory) : State where
  norbuf := put (fun _ => 0xff) v.syscfg (bytes syscfgptr 0 0x1000)
  beginptr := 0x2000
  endptr := 0x100000
  dirptr := v.dir
  stored := []

def placeAll (rs : List Record) (s : State) : Option State :=
  rs.foldlM (fun s r => s.place hw v ram r) s

def pack (syscfgptr : Memory) (script : List (BitVec 32)) : Option State :=
  placeAll hw v ram (records v script) (init v syscfgptr)

/-! ### What it is for -/

def Stored.entry (f : Stored) : Entry := f.record.entry f.file

/-- The files that get a directory entry -/
def State.listed (s : State) : List Stored := s.stored.filter fun f => !f.record.unlisted

structure LaidOut (syscfgptr : Memory) (rs : List Record) (s : State) : Prop where
  complete : s.stored.map Stored.record = rs.filter fun r => r.size != 0
  inside : ∀ f ∈ s.stored, 0x2000 ≤ f.file ∧ f.file + f.length ≤ 0x100000
  apart : s.stored.Pairwise Stored.Apart
  syscfg : bytes s.norbuf v.syscfg 0x1000 = bytes syscfgptr 0 0x1000
  directory : ∃ free, bytes s.norbuf v.dir 0x1000 =
    (s.listed.map Stored.entry).flatMap Entry.bytes ++ List.replicate free 0xff
  found : v = .classic → (s.listed.map fun f => f.entry.name).Nodup → ∀ f ∈ s.listed, ∀ size,
    findflashfile s.norbuf f.entry.name size = (BitVec.ofNat 32 f.file, f.record.storesize) ∧
      filesize s.norbuf f.entry.name size = f.record.size.toNat

/-- The pointers do not cross, and the space between them is enough. -/
def Fits (r : Record) (s : State) : Prop :=
  s.start r ≤ s.endptr ∧ r.space v ≤ s.endptr - s.start r

/-- Every file fits when it is its turn. -/
def AllFit : List Record → State → Prop
  | [], _ => True
  | r :: rs, s => (r.size ≠ 0 → Fits v r s) ∧ ∀ s', s.place hw v ram r = some s' → AllFit rs s'

variable {hw v ram} {r : Record} {rs : List Record} {s s' : State} {syscfgptr : Memory}

/-! ### The space -/

theorem Stored.not_apart {f g : Stored} {x : Nat} (hf : f.Contains x) (hg : g.Contains x) :
    ¬ f.Apart g := by
  obtain ⟨hf₁, hf₂⟩ := hf
  obtain ⟨hg₁, hg₂⟩ := hg
  rintro (h | h)
  · omega
  · omega

/-- Where the files are: they take all the space from `endptr` on, and the sector in front of
`beginptr`. -/
structure Spaces (s : State) : Prop where
  begin_aligned : s.beginptr % 4096 = 0
  end_aligned : s.endptr % 4096 = 0
  low : 0x2000 ≤ s.beginptr
  ordered : s.beginptr ≤ s.endptr
  high : s.endptr ≤ 0x100000
  taken : ∀ f ∈ s.stored, (0x2000 ≤ f.file ∧ f.file + f.length ≤ s.beginptr) ∨
    (s.endptr ≤ f.file ∧ f.file + f.length ≤ 0x100000)
  apart : s.stored.Pairwise Stored.Apart
  behind : s.beginptr = 0x2000 ∨ ∃ f ∈ s.stored, f.Contains (s.beginptr - 1)
  ahead : ∀ x, s.endptr ≤ x → x < 0x100000 → ∃ f ∈ s.stored, f.Contains x

theorem Spaces.init : Spaces (init v syscfgptr) where
  begin_aligned := by simp [Installer.init]
  end_aligned := by simp [Installer.init]
  low := Nat.le_refl _
  ordered := by simp [Installer.init]
  high := Nat.le_refl _
  taken := by simp [Installer.init]
  apart := List.Pairwise.nil
  behind := .inl rfl
  ahead := fun x hlow hhigh => absurd hhigh (by simpa [Installer.init] using hlow)

/-- What a pass does that does not end in a panic, for a file that is not empty. -/
theorem place_cases (h : s.place hw v ram r = some s') (hsize : r.size ≠ 0) :
    (r.aligned → s.beginptr ≤ r.align.toNat * 4096) ∧
      r.size.toNat ≤ (s.endptr + 4294967296 - s.start r) % 4294967296 ∧
      (r.unlisted = false → s.dirptr < v.dirend) ∧ s' = s.store hw v ram r := by
  unfold State.place at h
  rw [if_neg hsize] at h
  split at h
  · cases h
  rename_i halign
  split at h
  · cases h
  rename_i hfull
  split at h
  · cases h
  rename_i hdir
  refine ⟨fun hal => ?_, Nat.le_of_not_lt hfull, fun hlisted => ?_, (Option.some.inj h).symm⟩
  · by_contra hlt
    exact halign ⟨hal, Nat.lt_of_not_le hlt⟩
  · by_contra hge
    exact hdir ⟨by simp [hlisted], Nat.le_of_not_lt hge⟩

/-- Where a file of the lower end goes -/
theorem Spaces.start (hs : Spaces s) (hal : r.aligned → s.beginptr ≤ r.align.toNat * 4096) :
    s.start r % 4096 = 0 ∧ s.beginptr ≤ s.start r ∧ s.start r < 0x100000 + 4096 ∧
      (s.start r = s.beginptr ∨ r.atEnd = false ∧ s.start r < 0x100000) := by
  have hbegin := hs.begin_aligned
  have hordered := hs.ordered
  have hhigh := hs.high
  unfold State.start
  split
  · rename_i h
    have hbound := r.align.isLt
    have hend : r.atEnd = false := by
      unfold Record.aligned at h
      simp at h
      exact h.2
    refine ⟨Nat.mul_mod_left _ _, hal h, by omega, .inr ⟨hend, by omega⟩⟩
  · exact ⟨hbegin, Nat.le_refl _, by omega, .inl rfl⟩

theorem Record.space_mod (r : Record) : r.space v % 4096 = 0 := Nat.mul_mod_left _ _

/-- With a file that is not too long nothing overflows. -/
theorem Record.copied_spec (hsize : r.size ≠ 0) (hlong : r.size.toNat ≤ 4294963200) :
    0 < r.copied v ∧ r.size.toNat ≤ r.copied v ∧ r.offs v + r.copied v ≤ r.space v ∧
      (r.headed v = false → r.offs v + r.copied v = r.size.toNat) ∧
      (r.headed v = true → r.offs v = 0x800 ∧ r.copied v < r.size.toNat + 16 ∧
        r.copied v % 16 = 0) := by
  have hpos : r.size.toNat ≠ 0 := by
    intro h0
    exact hsize (BitVec.eq_of_toNat_eq (by simpa using h0))
  unfold Record.space Record.copied Record.offs
  cases r.headed v
  · simp only [Bool.false_eq_true, if_false]
    refine ⟨by omega, by omega, by omega, fun _ => by omega, fun h => absurd h (by decide)⟩
  · simp only [if_true]
    refine ⟨by omega, by omega, by omega, fun h => absurd h (by decide), fun _ => ?_⟩
    exact ⟨trivial, by omega, by omega⟩

theorem Record.room_eq (h : r.space v ≤ 0x100000) : r.room v = r.space v := by
  unfold Record.space at h
  unfold Record.room Record.space
  rw [Nat.mod_eq_of_lt (by omega)]

/-- Where a file that fits goes, and what is left. -/
theorem Spaces.store_eq (hs : Spaces s) (hfit : Fits v r s) :
    s.file v r = (if r.atEnd then s.endptr - r.space v else s.start r) ∧
      (s.store hw v ram r).beginptr = (if r.atEnd then s.start r else s.start r + r.space v) ∧
      (s.store hw v ram r).endptr = (if r.atEnd then s.endptr - r.space v else s.endptr) := by
  obtain ⟨hcross, hspace⟩ := hfit
  have hhigh := hs.high
  have hfile : s.file v r = if r.atEnd then s.endptr - r.space v else s.start r := by
    unfold State.file
    rw [Record.room_eq (by omega)]
    split
    · omega
    · rfl
  refine ⟨hfile, ?_, ?_⟩
  · simp only [State.store]
    rw [Record.room_eq (by omega), Nat.mod_eq_of_lt (by omega)]
  · simp only [State.store, hfile]
    split <;> rfl

theorem Spaces.store (hs : Spaces s) (hfit : Fits v r s) (hpos : 0 < r.space v)
    (hal : r.aligned → s.beginptr ≤ r.align.toNat * 4096) : Spaces (s.store hw v ram r) := by
  obtain ⟨hfile, hbegin, hend⟩ := @Spaces.store_eq hw v ram r s hs hfit
  obtain ⟨hstart, hmono, -, hsame⟩ := hs.start hal
  obtain ⟨hcross, hspace⟩ := hfit
  have hbegin_aligned := hs.begin_aligned
  have hend_aligned := hs.end_aligned
  have hlow := hs.low
  have hhigh := hs.high
  have hmod := r.space_mod (v := v)
  have hstored : (s.store hw v ram r).stored = s.stored ++ [⟨r, s.file v r, r.space v⟩] := rfl
  cases hat : r.atEnd
  -- from the front
  · rw [if_neg (by simp [hat])] at hfile hbegin hend
    have hnew : (⟨r, s.file v r, r.space v⟩ : Stored).Contains
        ((s.store hw v ram r).beginptr - 1) := by
      refine ⟨?_, ?_⟩
      · simp only
        omega
      · simp only
        omega
    refine ⟨by omega, by omega, by omega, by omega, by omega, ?_, ?_, .inr ⟨_, ?_, hnew⟩, ?_⟩
    · rw [hstored, hbegin, hend]
      intro f hf
      obtain hf | hf := List.mem_append.1 hf
      · have := hs.taken f hf
        omega
      · cases List.mem_singleton.1 hf
        simp only
        omega
    · rw [hstored]
      refine List.pairwise_append.2 ⟨hs.apart, List.pairwise_singleton _ _, fun f hf g hg => ?_⟩
      cases List.mem_singleton.1 hg
      have := hs.taken f hf
      unfold Stored.Apart
      simp only
      omega
    · simp [hstored]
    · intro x hx hx'
      obtain ⟨f, hf, hfx⟩ := hs.ahead x (by omega) hx'
      exact ⟨f, by simp [hstored, hf], hfx⟩
  -- from the end
  · rw [if_pos hat] at hfile hbegin hend
    have heq : s.start r = s.beginptr := by
      obtain h | ⟨h, -⟩ := hsame
      · exact h
      · rw [hat] at h
        cases h
    refine ⟨by omega, by omega, by omega, by omega, by omega, ?_, ?_, ?_, ?_⟩
    · rw [hstored, hbegin, hend]
      intro f hf
      obtain hf | hf := List.mem_append.1 hf
      · have := hs.taken f hf
        omega
      · cases List.mem_singleton.1 hf
        simp only
        omega
    · rw [hstored]
      refine List.pairwise_append.2 ⟨hs.apart, List.pairwise_singleton _ _, fun f hf g hg => ?_⟩
      cases List.mem_singleton.1 hg
      have := hs.taken f hf
      unfold Stored.Apart
      simp only
      omega
    · rw [hbegin, heq]
      obtain h | ⟨f, hf, hfx⟩ := hs.behind
      · exact .inl h
      · exact .inr ⟨f, by simp [hstored, hf], hfx⟩
    · intro x hx hx'
      by_cases hold : s.endptr ≤ x
      · obtain ⟨f, hf, hfx⟩ := hs.ahead x hold hx'
        exact ⟨f, by simp [hstored, hf], hfx⟩
      · refine ⟨⟨r, s.file v r, r.space v⟩, by simp [hstored], ?_, ?_⟩
        · simp only
          omega
        · simp only
          omega

/-- A file that does not fit is stored over another one or outside of the space for files. -/
theorem Spaces.breaks (hs : Spaces s) (h : s.place hw v ram r = some s') (hsize : r.size ≠ 0)
    (hfit : ¬ Fits v r s) :
    ¬ ((∀ f ∈ s'.stored, 0x2000 ≤ f.file ∧ f.file + f.length ≤ 0x100000) ∧
      s'.stored.Pairwise Stored.Apart) := by
  obtain ⟨hal, hroom, -, rfl⟩ := place_cases h hsize
  obtain ⟨hstart, hmono, hbound, hsame⟩ := hs.start hal
  have hbegin_aligned := hs.begin_aligned
  have hend_aligned := hs.end_aligned
  have hlow := hs.low
  have hordered := hs.ordered
  have hhigh := hs.high
  have hmod := r.space_mod (v := v)
  rintro ⟨hinside, hapart⟩
  have hstored : (s.store hw v ram r).stored = s.stored ++ [⟨r, s.file v r, r.space v⟩] := rfl
  rw [hstored] at hinside hapart
  obtain ⟨hlow', hhigh'⟩ := hinside ⟨r, s.file v r, r.space v⟩ (by simp)
  -- no other file has a byte of the new one
  have hfree : ∀ x, s.file v r ≤ x → x < s.file v r + r.space v →
      ¬ ∃ f ∈ s.stored, f.Contains x := by
    rintro x hx hx' ⟨f, hf, hfx⟩
    exact Stored.not_apart hfx ⟨hx, hx'⟩
      ((List.pairwise_append.1 hapart).2.2 f hf _ (List.mem_singleton.2 rfl))
  simp only at hlow' hhigh'
  obtain ⟨hpos, hcopied, hspace, hplain, hhead⟩ := Record.copied_spec (v := v) hsize (by
    unfold Fits at hfit
    omega)
  by_cases hcross : s.start r ≤ s.endptr
  · have hover : s.endptr - s.start r < r.space v := by
      by_contra hle
      exact hfit ⟨hcross, by omega⟩
    have hsum : r.space v = (r.offs v + r.copied v + 0xfff) / 4096 * 4096 := rfl
    have hheaded : r.headed v = true := by
      by_contra hne
      have := hplain (by simpa using hne)
      omega
    obtain ⟨hoffs, hround, hsixteen⟩ := hhead hheaded
    have hexact : r.space v = s.endptr - s.start r + 4096 := by omega
    have hroom_eq : r.room v = r.space v := by
      unfold Record.room
      rw [hsum, Nat.mod_eq_of_lt (by omega)]
    cases hat : r.atEnd
    · have hfile : s.file v r = s.start r := by simp [State.file, hat]
      obtain htop | htop := Nat.lt_or_ge s.endptr 0x100000
      · exact hfree s.endptr (by omega) (by omega) (hs.ahead _ (Nat.le_refl _) htop)
      · omega
    · have hfile : s.file v r = s.endptr - r.space v := by
        rw [State.file, if_pos hat, hroom_eq]
        omega
      have heq : s.start r = s.beginptr := by
        obtain h | ⟨h, -⟩ := hsame
        · exact h
        · rw [hat] at h
          cases h
      obtain hb | hb := hs.behind
      · omega
      · exact hfree (s.beginptr - 1) (by omega) (by omega) hb
  -- the alignment has taken the pointer past the other one
  · obtain heq | ⟨hat, htop⟩ := hsame
    · omega
    · have hfile : s.file v r = s.start r := by simp [State.file, hat]
      exact hfree (s.start r) (by omega) (by omega) (hs.ahead _ (by omega) htop)

/-! ### The image -/

/-- The header is written to its place, and what else is written is the file. -/
theorem addHeader_same (norbuf : Memory) (file size : Nat) :
    SameOutside file (file + 0x800 + size) norbuf (hw.addHeader norbuf file size) := by
  have hput : ∀ {m : Memory} {a : Nat} {bs : List UInt8},
      SameOutside file (file + 0x800 + size) norbuf m → file ≤ a →
      a + bs.length ≤ file + 0x800 + size →
      SameOutside file (file + 0x800 + size) norbuf (put m a bs) := fun hm hlo hhi =>
    hm.trans (SameOutside.put hlo hhi)
  have hhash : ∀ {m : Memory} {a n dst : Nat}, SameOutside file (file + 0x800 + size) norbuf m →
      file ≤ dst → dst + 20 ≤ file + 0x800 →
      SameOutside file (file + 0x800 + size) norbuf (hw.hash m a n dst) := fun hm hlo hhi =>
    hput hm hlo (by rw [hw.sha1_length]; omega)
  have hencrypt : ∀ {m : Memory} {a n : Nat}, SameOutside file (file + 0x800 + size) norbuf m →
      file ≤ a → a + n ≤ file + 0x800 + size →
      SameOutside file (file + 0x800 + size) norbuf (hw.encrypt m a n) := fun hm hlo hhi =>
    hput hm hlo (by rw [hw.aes_length, length_bytes]; exact hhi)
  unfold Hardware.addHeader
  dsimp only
  -- the writes from the last one to the first
  refine hencrypt ?_ (by omega) (by omega)
  refine hencrypt ?_ (by omega) (by omega)
  refine hput ?_ (by omega) (by rw [Memory.length_word]; omega)
  refine hhash ?_ (by omega) (by omega)
  refine hencrypt ?_ (by omega) (by omega)
  refine hput ?_ (by omega) (by rw [Memory.length_word]; omega)
  refine hhash ?_ (by omega) (by omega)
  refine hput ?_ (by omega) (by rw [Memory.length_word]; omega)
  refine hput ?_ (by omega) (by simp; omega)
  exact hput (fun _ _ => rfl) (by omega) (by rw [List.length_replicate]; omega)

/-- Apart from the space that the file gets only its directory entry is written. -/
theorem store_same (hspace : r.offs v + r.copied v ≤ r.space v)
    (hhigh : s.file v r + r.space v ≤ 0x100000) :
    SameOutside (s.file v r) (s.file v r + r.space v)
      (if r.unlisted then s.norbuf else put s.norbuf s.dirptr (r.entry (s.file v r)).bytes)
      (s.store hw v ram r).norbuf := by
  have hdata : SameOutside (s.file v r) (s.file v r + r.space v) s.norbuf
      (put s.norbuf ((s.file v r + r.offs v) % 4294967296)
        (load ram r.data (r.copied v))) := by
    rw [Nat.mod_eq_of_lt (by omega)]
    refine SameOutside.put (Nat.le_add_right _ _) ?_
    rw [Memory.length_load]
    omega
  have hentry : SameOutside (s.file v r) (s.file v r + r.space v)
      (if r.unlisted then s.norbuf else put s.norbuf s.dirptr (r.entry (s.file v r)).bytes)
      (if r.unlisted then put s.norbuf ((s.file v r + r.offs v) % 4294967296)
          (load ram r.data (r.copied v))
        else put (put s.norbuf ((s.file v r + r.offs v) % 4294967296)
          (load ram r.data (r.copied v))) s.dirptr (r.entry (s.file v r)).bytes) := by
    split
    · exact hdata
    · exact hdata.put_congr _ _
  have hstore : (s.store hw v ram r).norbuf =
      let norbuf := if r.unlisted then put s.norbuf ((s.file v r + r.offs v) % 4294967296)
          (load ram r.data (r.copied v))
        else put (put s.norbuf ((s.file v r + r.offs v) % 4294967296)
          (load ram r.data (r.copied v))) s.dirptr (r.entry (s.file v r)).bytes
      if r.headed v then hw.addHeader norbuf (s.file v r) (r.copied v) else norbuf := rfl
  rw [hstore]
  by_cases hheaded : r.headed v = true
  · have hoffs : r.offs v = 0x800 := if_pos hheaded
    rw [if_pos hheaded]
    refine hentry.trans fun x hx => addHeader_same _ _ _ x ?_
    omega
  · rw [if_neg hheaded]
    exact hentry

/-- What is in the image, of the records `rs`. -/
structure Image (v : Version) (syscfgptr : Memory) (rs : List Record) (s : State) : Prop where
  complete : s.stored.map Stored.record = rs.filter fun r => r.size != 0
  sizes : ∀ f ∈ s.stored, f.record.size.toNat ≤ f.length
  dirptr : s.dirptr = v.dir + 16 * s.listed.length
  count : s.listed.length ≤ 0x100
  entries : bytes s.norbuf v.dir (16 * s.listed.length) =
    (s.listed.map Stored.entry).flatMap Entry.bytes
  free : ∀ x, s.dirptr ≤ x → x < v.dirend → s.norbuf x = 0xff
  syscfg : bytes s.norbuf v.syscfg 0x1000 = bytes syscfgptr 0 0x1000

/-- SYSCFG and the directory are the first two sectors. -/
theorem Version.sectors (v : Version) : v.dirend = v.dir + 0x1000 ∧
    (v.dir = 0 ∧ v.syscfg = 0x1000 ∨ v.dir = 0x1000 ∧ v.syscfg = 0) := by
  cases v with
  | nano2g _ _ _ _ => exact ⟨rfl, .inl ⟨rfl, rfl⟩⟩
  | classic => exact ⟨rfl, .inr ⟨rfl, rfl⟩⟩

theorem Image.init : Image v syscfgptr [] (init v syscfgptr) := by
  obtain ⟨hend, hsectors⟩ := v.sectors
  have hlen : (bytes syscfgptr 0 0x1000).length = 0x1000 := length_bytes _
  refine ⟨rfl, by simp [Installer.init], rfl, by simp [State.listed, Installer.init],
    by simp [bytes, State.listed, Installer.init], fun x hx hx' => ?_, ?_⟩
  · have hlow : v.dir ≤ x := hx
    have hout : x < v.syscfg ∨ v.syscfg + (bytes syscfgptr 0 0x1000).length ≤ x := by omega
    show put (fun _ => 0xff) _ _ x = 0xff
    rw [put_outside hout]
  · have := @bytes_put (fun _ => 0xff) v.syscfg (bytes syscfgptr 0 0x1000)
    rwa [hlen] at this

theorem Image.store (hi : Image v syscfgptr rs s) (hsize : r.size ≠ 0)
    (hdir : r.unlisted = false → s.dirptr < v.dirend)
    (hlong : r.size.toNat ≤ r.space v) (hspace : r.offs v + r.copied v ≤ r.space v)
    (hlow : 0x2000 ≤ s.file v r)
    (hhigh : s.file v r + r.space v ≤ 0x100000) :
    Image v syscfgptr (rs ++ [r]) (s.store hw v ram r) := by
  obtain ⟨hend, hsectors⟩ := v.sectors
  have hdirptr := hi.dirptr
  have hsame := @store_same hw v ram r s hspace hhigh
  have hstored : (s.store hw v ram r).stored = s.stored ++ [⟨r, s.file v r, r.space v⟩] := rfl
  have hcomplete : (s.store hw v ram r).stored.map Stored.record =
      (rs ++ [r]).filter fun r => r.size != 0 := by
    have hkeep : (r.size != 0) = true := bne_iff_ne.2 hsize
    rw [hstored, List.map_append, hi.complete, List.filter_append,
      List.filter_cons_of_pos (p := fun r : Record => r.size != 0) hkeep]
    rfl
  have hsizes : ∀ f ∈ (s.store hw v ram r).stored, f.record.size.toNat ≤ f.length := by
    rw [hstored]
    intro f hf
    obtain hf | hf := List.mem_append.1 hf
    · exact hi.sizes f hf
    · cases List.mem_singleton.1 hf
      exact hlong
  cases hlist : r.unlisted
  · have hroom := hdir hlist
    rw [if_neg (by simp [hlist])] at hsame
    have hlisted : (s.store hw v ram r).listed = s.listed ++ [⟨r, s.file v r, r.space v⟩] := by
      simp [State.listed, hstored, hlist]
    have hptr : (s.store hw v ram r).dirptr = s.dirptr + 0x10 := by simp [State.store, hlist]
    have hlength : (r.entry (s.file v r)).bytes.length = 16 := Entry.length_bytes _
    refine ⟨hcomplete, hsizes, ?_, ?_, ?_, ?_, ?_⟩
    · rw [hptr, hlisted, hdirptr, List.length_append, List.length_singleton]
      omega
    · rw [hlisted, List.length_append, List.length_singleton]
      omega
    · rw [hlisted, List.length_append, List.length_singleton, Nat.mul_succ, bytes_add,
        List.map_append, List.flatMap_append, ← hi.entries]
      congr 1
      · rw [hsame.bytes_eq (by omega), bytes_put_disjoint (by omega)]
      · have hnew := @bytes_put s.norbuf s.dirptr (r.entry (s.file v r)).bytes
        rw [hlength, hdirptr] at hnew
        rw [hsame.bytes_eq (by omega), hdirptr, hnew]
        simp [Stored.entry]
    · intro x hx hx'
      rw [hsame x (by omega), put_outside (by omega)]
      exact hi.free x (by omega) hx'
    · rw [hsame.bytes_eq (by omega), bytes_put_disjoint (by omega)]
      exact hi.syscfg
  · rw [if_pos hlist] at hsame
    have hlisted : (s.store hw v ram r).listed = s.listed := by
      simp [State.listed, hstored, hlist]
    have hptr : (s.store hw v ram r).dirptr = s.dirptr := by simp [State.store, hlist]
    refine ⟨hcomplete, hsizes, ?_, ?_, ?_, ?_, ?_⟩
    · rw [hptr, hlisted, hdirptr]
    · rw [hlisted]
      exact hi.count
    · have := hi.count
      rw [hlisted, hsame.bytes_eq (by omega)]
      exact hi.entries
    · intro x hx hx'
      rw [hsame x (by omega)]
      exact hi.free x (by omega) hx'
    · rw [hsame.bytes_eq (by omega)]
      exact hi.syscfg

/-! ### The loop -/

/-- A file that fits keeps everything in order. -/
theorem place_fits (hs : Spaces s) (hi : Image v syscfgptr rs s)
    (h : s.place hw v ram r = some s') (hsize : r.size ≠ 0) (hfit : Fits v r s) :
    Spaces s' ∧ Image v syscfgptr (rs ++ [r]) s' := by
  obtain ⟨hal, hroom, hdir, rfl⟩ := place_cases h hsize
  obtain ⟨hfile, -, -⟩ := @Spaces.store_eq hw v ram r s hs hfit
  obtain ⟨-, hmono, -, -⟩ := hs.start hal
  obtain ⟨hcross, hspace⟩ := id hfit
  have hlow := hs.low
  have hhigh := hs.high
  obtain ⟨hpos, hcopied, hcover, -, -⟩ := Record.copied_spec (v := v) hsize (by omega)
  have hplace : 0x2000 ≤ s.file v r ∧ s.file v r + r.space v ≤ 0x100000 := by
    rw [hfile]
    split <;> omega
  exact ⟨hs.store hfit (by omega) hal,
    hi.store hsize hdir (by omega) hcover hplace.1 hplace.2⟩

/-- An empty file is passed over. -/
theorem place_empty (h : s.place hw v ram r = some s') (hsize : r.size = 0) : s' = s := by
  rw [State.place, if_pos hsize] at h
  exact (Option.some.inj h).symm

theorem Image.empty (hi : Image v syscfgptr rs s) (hsize : r.size = 0) :
    Image v syscfgptr (rs ++ [r]) s := by
  refine ⟨?_, hi.sizes, hi.dirptr, hi.count, hi.entries, hi.free, hi.syscfg⟩
  rw [hi.complete, List.filter_append, List.filter_cons_of_neg (by simp [hsize]), List.filter_nil,
    List.append_nil]

theorem placeAll_cons {s'' : State} : placeAll hw v ram (r :: rs) s = some s'' ↔
    ∃ s', s.place hw v ram r = some s' ∧ placeAll hw v ram rs s' = some s'' := by
  unfold placeAll
  rw [List.foldlM_cons]
  exact Option.bind_eq_some_iff

theorem placeAll_fits {rs' : List Record} (hs : Spaces s) (hi : Image v syscfgptr rs' s)
    (h : placeAll hw v ram rs s = some s') (hfit : AllFit hw v ram rs s) :
    Spaces s' ∧ Image v syscfgptr (rs' ++ rs) s' := by
  induction rs generalizing s rs' with
  | nil =>
    cases h
    rw [List.append_nil]
    exact ⟨hs, hi⟩
  | cons r rs ih =>
    obtain ⟨s₁, hplace, hrest⟩ := placeAll_cons.1 h
    have hnext : Spaces s₁ ∧ Image v syscfgptr (rs' ++ [r]) s₁ := by
      by_cases hsize : r.size = 0
      · rw [place_empty hplace hsize]
        exact ⟨hs, hi.empty hsize⟩
      · exact place_fits hs hi hplace hsize (hfit.1 hsize)
    have hall := ih hnext.1 hnext.2 hrest (hfit.2 s₁ hplace)
    rwa [List.append_assoc] at hall

/-- No file is ever moved or dropped. -/
theorem placeAll_stored (h : placeAll hw v ram rs s = some s') :
    ∃ l, s'.stored = s.stored ++ l := by
  induction rs generalizing s with
  | nil =>
    cases h
    exact ⟨[], (List.append_nil _).symm⟩
  | cons r rs ih =>
    obtain ⟨s₁, hplace, hrest⟩ := placeAll_cons.1 h
    obtain ⟨l, hl⟩ := ih hrest
    by_cases hsize : r.size = 0
    · rw [place_empty hplace hsize] at hl
      exact ⟨l, hl⟩
    · obtain ⟨-, -, -, rfl⟩ := place_cases hplace hsize
      refine ⟨[⟨r, s.file v r, r.space v⟩] ++ l, ?_⟩
      rw [hl, ← List.append_assoc]
      rfl

/-- If the files are apart in the end, each of them has fitted. -/
theorem placeAll_allFit (hs : Spaces s) (h : placeAll hw v ram rs s = some s')
    (hinside : ∀ f ∈ s'.stored, 0x2000 ≤ f.file ∧ f.file + f.length ≤ 0x100000)
    (hapart : s'.stored.Pairwise Stored.Apart) : AllFit hw v ram rs s := by
  induction rs generalizing s with
  | nil => exact trivial
  | cons r rs ih =>
    obtain ⟨s₁, hplace, hrest⟩ := placeAll_cons.1 h
    have hfit : r.size ≠ 0 → Fits v r s := by
      intro hsize
      by_contra hnot
      obtain ⟨l, hl⟩ := placeAll_stored hrest
      rw [hl] at hinside hapart
      exact hs.breaks hplace hsize hnot ⟨fun f hf => hinside f (List.mem_append_left l hf),
        (List.pairwise_append.1 hapart).1⟩
    have hs₁ : Spaces s₁ := by
      by_cases hsize : r.size = 0
      · rwa [place_empty hplace hsize]
      · obtain ⟨hal, hroom, -, rfl⟩ := place_cases hplace hsize
        have hhigh := hs.high
        have hcross := (hfit hsize).1
        obtain ⟨hpos, -, hcover, -, -⟩ := Record.copied_spec (v := v) hsize (by omega)
        exact hs.store (hfit hsize) (by omega) hal
    refine ⟨hfit, fun s₂ hplace₂ => ?_⟩
    cases hplace.symm.trans hplace₂
    exact ih hs₁ hrest

/-- The size word without the upper bits -/
theorem Record.storesize_and (hsize : r.size.toNat < 1048576) :
    (r.storesize &&& 0xfffff).toNat = r.size.toNat := by
  have hmask : ∀ x : BitVec 32, (x &&& 0xfffff).toNat = x.toNat % 2 ^ 20 := fun x =>
    Nat.and_two_pow_sub_one_eq_mod x.toNat 20
  rw [hmask]
  unfold Record.storesize
  split
  · have hbit : (0x80000000 : BitVec 32).toNat % 2 ^ 20 = 0 := by decide
    rw [BitVec.toNat_or, Nat.or_mod_two_pow, hbit, Nat.or_zero]
    exact Nat.mod_eq_of_lt hsize
  · exact Nat.mod_eq_of_lt hsize

theorem LaidOut.of_image (hs : Spaces s) (hi : Image v syscfgptr rs s) :
    LaidOut v syscfgptr rs s := by
  obtain ⟨hend, hsectors⟩ := v.sectors
  have hdirptr := hi.dirptr
  have hcount := hi.count
  have hordered := hs.ordered
  have hhigh := hs.high
  have hlow := hs.low
  have hinside : ∀ f ∈ s.stored, 0x2000 ≤ f.file ∧ f.file + f.length ≤ 0x100000 := by
    intro f hf
    have := hs.taken f hf
    omega
  refine ⟨hi.complete, hinside, hs.apart, hi.syscfg, ⟨0x1000 - 16 * s.listed.length, ?_⟩, ?_⟩
  · have hfree : bytes s.norbuf s.dirptr (0x1000 - 16 * s.listed.length) =
        List.replicate (0x1000 - 16 * s.listed.length) 0xff := by
      refine List.eq_replicate_iff.2 ⟨length_bytes _, fun b hb => ?_⟩
      obtain ⟨i, hi', rfl⟩ := List.mem_map.1 hb
      have := List.mem_range.1 hi'
      exact hi.free _ (by omega) (by omega)
    rw [← hfree, ← hi.entries, hdirptr, ← bytes_add]
    congr 1
    omega
  · intro hclassic hnames f hf size
    subst hclassic
    have hmem : f ∈ s.stored := (List.mem_filter.1 hf).1
    obtain ⟨hfile, hfile'⟩ := hinside f hmem
    have hlong := hi.sizes f hmem
    have hfound := @Bootflash.findflashfile_entries s.norbuf (s.listed.map Stored.entry)
      (by rwa [List.length_map]) (by rw [List.length_map]; exact hi.entries)
      (by rwa [List.map_map]) f.entry (List.mem_map_of_mem hf) size
    refine ⟨hfound, ?_⟩
    have hne : f.entry.file ≠ 0 := by
      intro h0
      have hzero : f.file % 4294967296 = 0 := congrArg BitVec.toNat h0
      omega
    have hsize := @Record.storesize_and f.record (by omega)
    rw [filesize, hfound]
    dsimp only
    rw [if_pos hne]
    exact congrArg Int.ofNat hsize

/-- For every script that is packed without a panic: all files with header and padding are apart,
between 0x2000 and 0x100000, SYSCFG is untouched, the directory has the entries of the files that
are to be listed and nothing else, and in the classic image each of them is found, exactly when each
file fits into what is left between the two ends. -/
theorem laidOut_iff (hw : Hardware) (v : Version) (ram : Mem 32) (syscfgptr : Memory)
    (script : List (BitVec 32)) (s : State) (h : pack hw v ram syscfgptr script = some s) :
    LaidOut v syscfgptr (records v script) s ↔
      AllFit hw v ram (records v script) (init v syscfgptr) := by
  constructor
  · intro hlaid
    exact placeAll_allFit Spaces.init h hlaid.inside hlaid.apart
  · intro hfit
    obtain ⟨hs, hi⟩ := placeAll_fits Spaces.init Image.init h hfit
    rw [List.nil_append] at hi
    exact LaidOut.of_image hs hi

/-- No hash and no encryption, for the runs below -/
def plain : Hardware where
  sha1 := fun _ => List.replicate 20 0
  aes := id
  sha1_length := fun _ => List.length_replicate
  aes_length := fun _ => rfl

/-- One file of the given flags and size -/
theorem pack_one {flags : Nat} {size : BitVec 32}
    (hrecords : records .classic [BitVec.ofNat 32 (0x1000000 + 0x100 * flags), 0, size, 1, 2] =
      [⟨flags, 0, 0, size, (1, 2)⟩]) (hpos : size ≠ 0) (hsize : size.toNat ≤ 0xfe000) :
    pack plain .classic (fun _ => 0) (fun _ => 0)
        [BitVec.ofNat 32 (0x1000000 + 0x100 * flags), 0, size, 1, 2] =
      some ((init .classic fun _ => 0).store plain .classic (fun _ => 0)
        ⟨flags, 0, 0, size, (1, 2)⟩) := by
  have hstart : (init .classic fun _ => 0).start ⟨flags, 0, 0, size, (1, 2)⟩ = 0x2000 := rfl
  rw [pack, hrecords, placeAll_cons]
  refine ⟨_, ?_, rfl⟩
  rw [State.place, if_neg hpos, if_neg (by simp [Record.aligned]), hstart, if_neg (by
    simp only [init]
    omega), if_neg (by simp [init, Version.dirend, Version.dir])]

/-- A small file -/
theorem laidOut_one : ∃ s, pack plain .classic (fun _ => 0) (fun _ => 0) [0x1000000, 0, 5, 1, 2] =
    some s ∧ LaidOut .classic (fun _ => 0) [⟨0, 0, 0, 5, (1, 2)⟩] s := by
  have hrecords : records .classic [0x1000000, 0, 5, 1, 2] = [⟨0, 0, 0, 5, (1, 2)⟩] := by
    simp [records, Version.fetch, Version.fetchData]
  have hpack := @pack_one 0 5 hrecords (by decide) (by decide)
  have hlaid := (laidOut_iff plain .classic (fun _ => 0) (fun _ => 0) [0x1000000, 0, 5, 1, 2] _
    hpack).2
  rw [hrecords] at hlaid
  exact ⟨_, hpack, hlaid ⟨fun _ => ⟨by decide, by decide⟩, fun _ _ => trivial⟩⟩

/-- A file that fills the flash, with a header -/
theorem leaves_the_flash : ¬ ∀ (hw : Hardware) (v : Version) (ram : Mem 32) (syscfgptr : Memory)
    (script : List (BitVec 32)) (s : State), pack hw v ram syscfgptr script = some s →
      LaidOut v syscfgptr (records v script) s := by
  intro hall
  have hrecords : records .classic [0x1000800, 0, 0xfe000, 1, 2] =
      [⟨8, 0, 0, 0xfe000, (1, 2)⟩] := by
    simp [records, Version.fetch, Version.fetchData, Nat.testBit]
  have hpack := @pack_one 8 0xfe000 hrecords (by decide) (by decide)
  have hinside := (hall _ _ _ _ _ _ hpack).inside
    ⟨⟨8, 0, 0, 0xfe000, (1, 2)⟩, 0x2000, 0xff000⟩ (List.mem_singleton.2 rfl)
  exact absurd hinside.2 (by decide)

end Installer
end Freemyipod
