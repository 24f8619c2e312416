import Freemyipod.Lib.Memory

/-!
# Boot.Options

The tree of boot options that `libemcorebootcfg.py` writes behind the header of an emCORE binary,
and that `emcore/init.c` follows when it starts.

* `encode`, `configure`: the two functions. A Python exception is `none`.
* `Represents`: `struct bootoption` in memory, read from a pointer on, is the tree.
* `configure_reads_back`: what `configure` writes is read back.
-/

namespace Freemyipod
namespace Boot

open Memory

/-- In Python 2 the empty literal is a string of bytes; in Python 3 it is not, and cannot be added
to one. -/
inductive Python where
  | two
  | three
  deriving DecidableEq

/-- `option[1]`: a string of bytes without NULs, or a number -/
inductive Source where
  | text (s : List UInt8) (clean : 0 ∉ s)
  | number (v : Int)

/-- A boot option, or `None`. -/
inductive Tree where
  | none
  | option (type : Int) (source : Source) (success fail : Tree)

/-- `struct.pack("<I", v)` -/
def pack (v : Int) : Option (List UInt8) :=
  if 0 ≤ v ∧ v < 4294967296 then some (word (BitVec.ofInt 32 v)) else none

/-- `struct.unpack("<I", bs)` -/
def unpack (bs : List UInt8) : Option Nat :=
  if bs.length = 4 then some (ofBytes bs).toNat else none

/-- `data.ljust((len(data) + 3) & ~3, b"\0")` of the string and its NUL -/
def padded (s : List UInt8) : List UInt8 :=
  let data := s ++ [0]
  data ++ List.replicate ((data.length + 3) / 4 * 4 - data.length) 0

/-- The address of encoded data, which is `NULL` if there are none. -/
def link (data : List UInt8) (addr : Nat) : Nat := if data.length = 0 then 0 else addr

/-- `struct.pack("<IIII", addr1, addr2, option[0], addr)` -/
def packOption (addr1 addr2 : Nat) (type addr : Int) : Option (List UInt8) := do
  return (← pack addr1) ++ (← pack addr2) ++ (← pack type) ++ (← pack addr)

def encode (py : Python) (addr : Nat) : Tree → Option (List UInt8)
  | .none => some []
  | .option type source success fail => do
    let addr := addr + 16
    let data1 ← encode py addr success
    let addr1 := link data1 addr
    let addr := addr + data1.length
    let data2 ← encode py addr fail
    let addr2 := link data2 addr
    let addr := addr + data2.length
    match source with
    | .text s _ => return (← packOption addr1 addr2 type addr) ++ data1 ++ data2 ++ padded s
    | .number v =>
      let data ← packOption addr1 addr2 type v
      match py with
      | .two => return data ++ data1 ++ data2
      -- `bytes + str`
      | .three => none

/-- `b"emCOboot"` -/
def signature : List UInt8 := [0x65, 0x6d, 0x43, 0x4f, 0x62, 0x6f, 0x6f, 0x74]

/-- `binary.index(s)` -/
def index (s binary : List UInt8) : Option Nat :=
  (List.range (binary.length + 1)).find? fun i => s.isPrefixOf (binary.drop i)

/-- `binary[i : j]` -/
def slice (binary : List UInt8) (i j : Nat) : List UInt8 := (binary.take j).drop i

def configure (py : Python) (binary : List UInt8) (options : Tree) : Option (List UInt8) := do
  let fileaddr ← index signature binary
  let version ← unpack (slice binary (fileaddr + 8) (fileaddr + 12))
  if version ≠ 1 then none
  else
    let memaddr ← unpack (slice binary (fileaddr + 12) (fileaddr + 16))
    let data ← encode py (memaddr + 24) options
    let addr := link data (memaddr + 24)
    return binary.take (fileaddr + 16) ++ ((← pack (data.length + 24)) ++ (← pack addr)) ++ data

/-! ### In memory -/

variable (m : Mem 32) (p : BitVec 32)

/-- The fields of `struct bootoption` -/
def success_next : BitVec 32 := load32 m p
def fail_next : BitVec 32 := load32 m (p + 4)
def optionType : BitVec 32 := load32 m (p + 8)
def source : BitVec 32 := load32 m (p + 12)

def IsSource : Source → Prop
  | .text s _ => IsString m p s
  | .number v => (p.toNat : Int) = v

/-- The tree that is found from a pointer on, on both ways. -/
def Represents : Tree → BitVec 32 → Prop
  | .none, p => p = 0
  | .option type src success fail, p =>
    p ≠ 0 ∧ ((optionType m p).toNat : Int) = type ∧ IsSource m (source m p) src ∧
      Represents success (success_next m p) ∧ Represents fail (fail_next m p)

/-- What is in use by the string: an address and a number of bytes. -/
def Source.spans (addr : Nat) : Source → List (Nat × Nat)
  | .text s _ => [(addr, s.length + 1)]
  | .number _ => []

/-- What is in use by the nodes and strings of the tree. -/
def spans : Tree → BitVec 32 → List (Nat × Nat)
  | .none, _ => []
  | .option _ src success fail, p =>
    (p.toNat, 16) :: (spans success (success_next m p) ++ (spans fail (fail_next m p) ++
      src.spans (source m p).toNat))

def Apart (x y : Nat × Nat) : Prop := x.1 + x.2 ≤ y.1 ∨ y.1 + y.2 ≤ x.1

/-- `struct bootinfo` at `base`, with the tree in the `totalsize` bytes that start there. -/
structure Bootable (base totalsize : Nat) (options : Tree) : Prop where
  signature : Holds m (BitVec.ofNat 32 base) signature
  version : load32 m (BitVec.ofNat 32 base + 8) = 1
  baseaddr : (load32 m (BitVec.ofNat 32 base + 12)).toNat = base
  size : (load32 m (BitVec.ofNat 32 base + 16)).toNat = totalsize
  tree : Represents m options (load32 m (BitVec.ofNat 32 base + 20))
  inside : ∀ x ∈ spans m options (load32 m (BitVec.ofNat 32 base + 20)),
    base + 24 ≤ x.1 ∧ x.1 + x.2 ≤ base + totalsize
  aligned : 4 ∣ base → ∀ x ∈ spans m options (load32 m (BitVec.ofNat 32 base + 20)), 4 ∣ x.1
  apart : (spans m options (load32 m (BitVec.ofNat 32 base + 20))).Pairwise Apart

/-- The header that `configure` looks for -/
structure Header (binary : List UInt8) (fileaddr base : Nat) : Prop where
  found : index signature binary = some fileaddr
  version : unpack (slice binary (fileaddr + 8) (fileaddr + 12)) = some 1
  base : unpack (slice binary (fileaddr + 12) (fileaddr + 16)) = some base

/-- A number fits in a word, and only Python 2 can add the empty literal that goes with it. -/
def Source.Fits (py : Python) : Source → Prop
  | .text _ _ => True
  | .number v => (0 ≤ v ∧ v < 4294967296) ∧ py = .two

def Tree.Fits (py : Python) : Tree → Prop
  | .none => True
  | .option type source success fail =>
    (0 ≤ type ∧ type < 4294967296) ∧ source.Fits py ∧ success.Fits py ∧ fail.Fits py

/-- How many bytes are needed -/
def Source.size : Source → Nat
  | .text s _ => (s.length + 4) / 4 * 4
  | .number _ => 0

@[grind =] def Tree.size : Tree → Nat
  | .none => 0
  | .option _ source success fail => 16 + success.size + fail.size + source.size

variable {m p} {py : Python} {bs data head : List UInt8} {a lo hi : Nat} {t : Tree}

/-! ### Words and lengths -/

theorem pack_some {v : Int} (h : pack v = some bs) :
    (0 ≤ v ∧ v < 4294967296) ∧ bs = word (BitVec.ofInt 32 v) := by
  unfold pack at h
  split at h
  · rename_i hv
    exact ⟨hv, (Option.some.inj h).symm⟩
  · cases h

theorem pack_of_range {v : Int} (h : 0 ≤ v ∧ v < 4294967296) :
    pack v = some (word (BitVec.ofInt 32 v)) :=
  if_pos h

theorem length_pack {v : Int} (h : pack v = some bs) : bs.length = 4 := by
  rw [(pack_some h).2]
  rfl

theorem holds_pack {v : Int} (h : pack v = some bs) (hm : Holds m p bs) :
    ((load32 m p).toNat : Int) = v := by
  obtain ⟨hv, rfl⟩ := pack_some h
  rw [hm.load32, BitVec.toNat_ofInt]
  omega

theorem holds_unpack {n : Nat} (h : unpack bs = some n) (hm : Holds m p bs) :
    (load32 m p).toNat = n := by
  unfold unpack at h
  split at h
  · rename_i hlen
    rw [← Option.some.inj h, ← hm, hlen]
    rfl
  · cases h

theorem packOption_some {addr1 addr2 : Nat} {type addr : Int}
    (h : packOption addr1 addr2 type addr = some head) :
    ∃ w1 w2 w3 w4, pack addr1 = some w1 ∧ pack addr2 = some w2 ∧ pack type = some w3 ∧
      pack addr = some w4 ∧ head = w1 ++ w2 ++ w3 ++ w4 := by
  simp only [packOption, Option.bind_eq_bind, Option.bind_eq_some_iff] at h
  obtain ⟨w1, h1, w2, h2, w3, h3, w4, h4, hhead⟩ := h
  exact ⟨w1, w2, w3, w4, h1, h2, h3, h4, (Option.some.inj hhead).symm⟩

theorem length_packOption {addr1 addr2 : Nat} {type addr : Int}
    (h : packOption addr1 addr2 type addr = some head) : head.length = 16 := by
  obtain ⟨w1, w2, w3, w4, h1, h2, h3, h4, rfl⟩ := packOption_some h
  simp [length_pack h1, length_pack h2, length_pack h3, length_pack h4]

/-- What goes into the last field, and behind the subtrees. -/
def Source.value (addr : Nat) : Source → Int
  | .text _ _ => addr
  | .number v => v

def Source.tail : Source → List UInt8
  | .text s _ => padded s
  | .number _ => []

theorem length_padded (s : List UInt8) : (padded s).length = (s.length + 4) / 4 * 4 := by
  simp only [padded, List.length_append, List.length_replicate, List.length_singleton]
  omega

/-- A number can only be added by Python 2. -/
def Source.Added (py : Python) : Source → Prop
  | .text _ _ => True
  | .number _ => py = .two

theorem encode_option {type : Int} {src : Source} {success fail : Tree} :
    encode py a (.option type src success fail) = some data ↔
      src.Added py ∧ ∃ data1 data2 head, encode py (a + 16) success = some data1 ∧
        encode py (a + 16 + data1.length) fail = some data2 ∧
        packOption (link data1 (a + 16)) (link data2 (a + 16 + data1.length)) type
          (src.value (a + 16 + data1.length + data2.length)) = some head ∧
        head ++ data1 ++ data2 ++ src.tail = data := by
  cases src with
  | text s hs =>
    simp [encode, Option.bind_eq_some_iff, Source.Added, Source.value, Source.tail]
  | number v =>
    cases py <;> simp [encode, Option.bind_eq_some_iff, Source.Added, Source.value, Source.tail]

theorem Source.length_tail (src : Source) : src.tail.length = src.size := by
  cases src with
  | text s hs => exact length_padded s
  | number v => rfl

theorem length_encode (h : encode py a t = some data) : data.length = t.size := by
  induction t generalizing a data with
  | none =>
    cases h
    rfl
  | option type src success fail ihs ihf =>
    obtain ⟨-, data1, data2, head, h1, h2, hhead, rfl⟩ := encode_option.1 h
    simp only [List.length_append, length_packOption hhead, ihs h1, ihf h2, src.length_tail,
      Tree.size]

/-! ### Reading back -/

/-- A span lies between two addresses, on a word if they do. -/
def Placed (lo hi : Nat) (x : Nat × Nat) : Prop :=
  lo ≤ x.1 ∧ x.1 + x.2 ≤ hi ∧ (4 ∣ lo → 4 ∣ x.1)

theorem Placed.mono {lo' hi' : Nat} {x : Nat × Nat} (h : Placed lo' hi' x) (hlo : lo ≤ lo')
    (hhi : hi' ≤ hi) (hdvd : 4 ∣ lo → 4 ∣ lo') : Placed lo hi x :=
  ⟨hlo.trans h.1, h.2.1.trans hhi, fun h4 => h.2.2 (hdvd h4)⟩

theorem pairwise_append {mid : Nat} {xs ys : List (Nat × Nat)} (hx : ∀ x ∈ xs, Placed lo mid x)
    (hy : ∀ y ∈ ys, Placed mid hi y) (hxs : xs.Pairwise Apart) (hys : ys.Pairwise Apart) :
    (xs ++ ys).Pairwise Apart := by
  refine List.pairwise_append.2 ⟨hxs, hys, fun x hxm y hym => .inl ?_⟩
  exact (hx x hxm).2.1.trans (hy y hym).1

/-- The spans of a tree whose data start at `lo` and end at `hi`. -/
structure SpansOk (lo hi : Nat) (xs : List (Nat × Nat)) : Prop where
  placed : ∀ x ∈ xs, Placed lo hi x
  apart : xs.Pairwise Apart

theorem SpansOk.nil : SpansOk lo hi [] :=
  ⟨fun _ hx => absurd hx List.not_mem_nil, .nil⟩

theorem SpansOk.single {n : Nat} (h : lo + n ≤ hi) : SpansOk lo hi [(lo, n)] := by
  refine ⟨?_, List.pairwise_singleton _ _⟩
  simpa [Placed] using h

/-- Data whose length is a multiple of four, and what comes behind them. -/
theorem SpansOk.append {n : Nat} {xs ys : List (Nat × Nat)} (hx : SpansOk lo (lo + n) xs)
    (hy : SpansOk (lo + n) hi ys) (hn : 4 ∣ n) (hhi : lo + n ≤ hi) : SpansOk lo hi (xs ++ ys) := by
  refine ⟨fun x hmem => ?_, pairwise_append hx.placed hy.placed hx.apart hy.apart⟩
  rcases List.mem_append.1 hmem with hmem | hmem
  · exact (hx.placed x hmem).mono le_rfl hhi id
  · exact (hy.placed x hmem).mono (Nat.le_add_right _ _) le_rfl fun h4 => Nat.dvd_add h4 hn

theorem Source.dvd_size (src : Source) : 4 ∣ src.size := by
  cases src with
  | text s hs => exact Nat.dvd_mul_left _ _
  | number v => exact Nat.dvd_zero _

theorem Tree.dvd_size (t : Tree) : 4 ∣ t.size := by
  induction t with
  | none => exact Nat.dvd_zero _
  | option type src success fail ihs ihf =>
    have hsrc := src.dvd_size
    simp only [Tree.size]
    omega

theorem ofNat_of_toNat {x : BitVec 32} {n : Nat} (h : (x.toNat : Int) = n) :
    x = BitVec.ofNat 32 n := by
  rw [show n = x.toNat by omega, BitVec.ofNat_toNat, BitVec.setWidth_eq]

/-- The four fields of a node -/
theorem holds_packOption {addr1 addr2 : Nat} {type addr : Int}
    (h : packOption addr1 addr2 type addr = some head) (hm : Holds m p head) :
    success_next m p = BitVec.ofNat 32 addr1 ∧ fail_next m p = BitVec.ofNat 32 addr2 ∧
      ((optionType m p).toNat : Int) = type ∧ ((source m p).toNat : Int) = addr := by
  obtain ⟨w1, w2, w3, w4, h1, h2, h3, h4, rfl⟩ := packOption_some h
  obtain ⟨hm123, hm4⟩ := holds_append.1 hm
  obtain ⟨hm12, hm3⟩ := holds_append.1 hm123
  obtain ⟨hm1, hm2⟩ := holds_append.1 hm12
  rw [List.length_append, List.length_append, length_pack h1, length_pack h2, length_pack h3] at hm4
  rw [List.length_append, length_pack h1, length_pack h2] at hm3
  rw [length_pack h1] at hm2
  exact ⟨ofNat_of_toNat (holds_pack h1 hm1), ofNat_of_toNat (holds_pack h2 hm2),
    holds_pack h3 hm3, holds_pack h4 hm4⟩

/-- The string or the number that is behind the subtrees. -/
theorem source_reads {src : Source} (hvalue : (p.toNat : Int) = src.value a)
    (hm : Holds m (BitVec.ofNat 32 a) src.tail) :
    IsSource m p src ∧ SpansOk a (a + src.size) (src.spans p.toNat) := by
  cases src with
  | text s hs =>
    have hp : p.toNat = a := Int.ofNat_inj.1 hvalue
    rw [← hp, BitVec.ofNat_toNat, BitVec.setWidth_eq] at hm
    refine ⟨⟨(holds_append.1 hm).1, hs⟩, ?_⟩
    rw [hp]
    exact .single (by simp only [Source.size]; omega)
  | number v => exact ⟨hvalue, .nil⟩

/-- What `encode` returns for the address it is at is the tree, within its own bytes. -/
theorem encode_reads (h : encode py a t = some data) (hm : Holds m (BitVec.ofNat 32 a) data)
    (ha : 0 < a) (hlink : link data a < 4294967296) :
    Represents m t (BitVec.ofNat 32 (link data a)) ∧
      SpansOk a (a + t.size) (spans m t (BitVec.ofNat 32 (link data a))) := by
  induction t generalizing a data with
  | none =>
    cases h
    exact ⟨rfl, .nil⟩
  | option type src success fail ihs ihf =>
    obtain ⟨-, data1, data2, head, h1, h2, hhead, rfl⟩ := encode_option.1 h
    obtain ⟨hm012, hm3⟩ := holds_append.1 hm
    obtain ⟨hm01, hm2⟩ := holds_append.1 hm012
    obtain ⟨hm0, hm1⟩ := holds_append.1 hm01
    have hlen := length_packOption hhead
    have hlen1 := length_encode h1
    have hlen2 := length_encode h2
    rw [hlen, ← BitVec.ofNat_add] at hm1
    rw [List.length_append, hlen, ← BitVec.ofNat_add, ← Nat.add_assoc] at hm2
    rw [List.length_append, List.length_append, hlen, ← BitVec.ofNat_add, ← Nat.add_assoc,
      ← Nat.add_assoc] at hm3
    have hself : link (head ++ data1 ++ data2 ++ src.tail) a = a := by
      refine if_neg ?_
      simp only [List.length_append]
      omega
    rw [hself] at hlink ⊢
    have hp : (BitVec.ofNat 32 a).toNat = a := by
      rw [BitVec.toNat_ofNat]
      exact Nat.mod_eq_of_lt hlink
    obtain ⟨hsuccess, hfail, htype, hsource⟩ := holds_packOption hhead hm0
    obtain ⟨w1, w2, w3, w4, hw1, hw2, -, -, -⟩ := packOption_some hhead
    have hr1 := ihs h1 hm1 (by omega) (by have := (pack_some hw1).1; omega)
    have hr2 := ihf h2 hm2 (by omega) (by have := (pack_some hw2).1; omega)
    have hr3 := source_reads hsource hm3
    rw [← hsuccess] at hr1
    rw [← hfail, hlen1] at hr2
    rw [hlen1, hlen2] at hr3
    have hd1 := success.dvd_size
    have hd2 := fail.dvd_size
    have hspans3 : SpansOk (a + 16 + success.size) (a + (Tree.option type src success fail).size)
        (spans m fail (fail_next m (BitVec.ofNat 32 a)) ++
          src.spans (source m (BitVec.ofNat 32 a)).toNat) := by
      refine SpansOk.append hr2.2 ?_ hd2 (by simp only [Tree.size]; omega)
      convert hr3.2 using 1
      simp only [Tree.size]
      omega
    have hspans2 := SpansOk.append hr1.2 hspans3 hd1 (by simp only [Tree.size]; omega)
    constructor
    · refine ⟨fun hzero => ?_, htype, hr3.1, hr1.1, hr2.1⟩
      rw [hzero] at hp
      exact absurd hp (by simp; omega)
    · simp only [spans, hp]
      exact SpansOk.append (.single le_rfl) hspans2 (by decide) (by simp only [Tree.size]; omega)

/-! ### The whole file -/

theorem link_lt (h : a + data.length ≤ 4294967296) : link data a < 4294967296 := by
  unfold link
  split <;> omega

theorem packOption_of_range {addr1 addr2 : Nat} {type addr : Int} (h1 : addr1 < 4294967296)
    (h2 : addr2 < 4294967296) (h3 : 0 ≤ type ∧ type < 4294967296)
    (h4 : 0 ≤ addr ∧ addr < 4294967296) : ∃ head, packOption addr1 addr2 type addr = some head := by
  rw [packOption, pack_of_range (by omega), pack_of_range (by omega), pack_of_range h3,
    pack_of_range h4]
  exact ⟨_, rfl⟩

/-- Where the numbers and the addresses fit in words, nothing goes wrong. -/
theorem encode_of_fits (hfit : t.Fits py) (hend : a + t.size ≤ 4294967296) :
    ∃ data, encode py a t = some data := by
  induction t generalizing a with
  | none => exact ⟨[], rfl⟩
  | option type src success fail ihs ihf =>
    obtain ⟨htype, hsrc, hfs, hff⟩ := hfit
    simp only [Tree.size] at hend
    obtain ⟨data1, h1⟩ := ihs hfs (show a + 16 + success.size ≤ 4294967296 by omega)
    have hlen1 := length_encode h1
    obtain ⟨data2, h2⟩ := ihf hff (show a + 16 + data1.length + fail.size ≤ 4294967296 by omega)
    have hlen2 := length_encode h2
    have hl1 := @link_lt data1 (a + 16) (by omega)
    have hl2 := @link_lt data2 (a + 16 + data1.length) (by omega)
    have hvalue : 0 ≤ src.value (a + 16 + data1.length + data2.length) ∧
        src.value (a + 16 + data1.length + data2.length) < 4294967296 := by
      cases src with
      | text s hs =>
        simp only [Source.size, Source.value] at hend ⊢
        omega
      | number v => exact hsrc.1
    have hadded : src.Added py := by
      cases src with
      | text s hs => exact trivial
      | number v => exact hsrc.2
    obtain ⟨head, hhead⟩ := packOption_of_range hl1 hl2 htype hvalue
    exact ⟨_, encode_option.2 ⟨hadded, data1, data2, head, h1, h2, hhead, rfl⟩⟩

theorem configure_iff {binary out : List UInt8} {options : Tree} :
    configure py binary options = some out ↔
      ∃ fileaddr base data w1 w2, Header binary fileaddr base ∧
        encode py (base + 24) options = some data ∧ pack (data.length + 24) = some w1 ∧
        pack (link data (base + 24)) = some w2 ∧
        binary.take (fileaddr + 16) ++ (w1 ++ w2) ++ data = out := by
  constructor
  · intro h
    obtain ⟨fileaddr, hfound, h⟩ := Option.bind_eq_some_iff.1 h
    obtain ⟨version, hversion, h⟩ := Option.bind_eq_some_iff.1 h
    by_cases hv : version = 1
    · rw [if_neg (not_not.2 hv)] at h
      subst hv
      obtain ⟨base, hbase, h⟩ := Option.bind_eq_some_iff.1 h
      obtain ⟨data, hdata, h⟩ := Option.bind_eq_some_iff.1 h
      obtain ⟨w1, hw1, h⟩ := Option.bind_eq_some_iff.1 h
      obtain ⟨w2, hw2, h⟩ := Option.bind_eq_some_iff.1 h
      exact ⟨fileaddr, base, data, w1, w2, ⟨hfound, hversion, hbase⟩, hdata, hw1, hw2,
        Option.some.inj h⟩
    · rw [if_pos hv] at h
      cases h
  · rintro ⟨fileaddr, base, data, w1, w2, ⟨hfound, hversion, hbase⟩, hdata, hw1, hw2, rfl⟩
    refine Option.bind_eq_some_iff.2 ⟨fileaddr, hfound, ?_⟩
    refine Option.bind_eq_some_iff.2 ⟨1, hversion, ?_⟩
    rw [if_neg (not_not.2 rfl)]
    refine Option.bind_eq_some_iff.2 ⟨base, hbase, ?_⟩
    refine Option.bind_eq_some_iff.2 ⟨data, hdata, ?_⟩
    refine Option.bind_eq_some_iff.2 ⟨w1, hw1, ?_⟩
    exact Option.bind_eq_some_iff.2 ⟨w2, hw2, rfl⟩

theorem index_prefix {s binary : List UInt8} {i : Nat} (h : index s binary = some i) :
    (binary.drop i).take s.length = s := by
  have hprefix : s.isPrefixOf (binary.drop i) = true :=
    List.find?_some (p := fun i => s.isPrefixOf (binary.drop i)) h
  exact (List.prefix_iff_eq_take.1 (List.isPrefixOf_iff_prefix.1 hprefix)).symm

theorem length_unpack {n : Nat} (h : unpack bs = some n) : bs.length = 4 := by
  unfold unpack at h
  split at h
  · assumption
  · cases h

theorem slice_eq (binary : List UInt8) (i n : Nat) :
    slice binary i (i + n) = (binary.drop i).take n := by
  rw [slice, List.drop_take, Nat.add_sub_cancel_left]

/-- The first sixteen bytes of the header. -/
theorem Header.take {binary : List UInt8} {fileaddr base : Nat} (h : Header binary fileaddr base) :
    fileaddr + 16 ≤ binary.length ∧
      (binary.drop fileaddr).take 16 = signature ++ slice binary (fileaddr + 8) (fileaddr + 12) ++
        slice binary (fileaddr + 12) (fileaddr + 16) := by
  have hlen := length_unpack h.base
  constructor
  · simp only [slice, List.length_drop, List.length_take] at hlen
    omega
  · have hsig : (binary.drop fileaddr).take 8 = signature := index_prefix h.found
    rw [slice_eq binary (fileaddr + 8) 4, slice_eq binary (fileaddr + 12) 4, ← hsig,
      ← List.drop_drop, ← List.take_add, ← List.drop_drop (i := 12), ← List.take_add]

/-- Whatever `configure` is given, it returns if the file has a header and all numbers and addresses
fit in a word (and, with Python 3, there are no numbers). And whatever it returns is read back from
the header on: the tree with its types, strings and numbers, everything inside the size that the
header gives, on words if the header is on one, and nothing overlapping. -/
theorem configure_reads_back (py : Python) (binary : List UInt8) (options : Tree) :
    (∀ fileaddr base, Header binary fileaddr base → options.Fits py →
      base + 24 + options.size < 4294967296 → ∃ out, configure py binary options = some out) ∧
    ∀ out, configure py binary options = some out → ∃ fileaddr base,
      Header binary fileaddr base ∧ out.take fileaddr = binary.take fileaddr ∧
        ∀ m : Mem 32, Holds m (BitVec.ofNat 32 base) (out.drop fileaddr) →
          Bootable m base (out.drop fileaddr).length options := by
  constructor
  · intro fileaddr base hheader hfit hend
    obtain ⟨data, hdata⟩ := encode_of_fits hfit hend.le
    have hlen := length_encode hdata
    have hlink := @link_lt data (base + 24) (by omega)
    exact ⟨_, configure_iff.2 ⟨fileaddr, base, data, _, _, hheader, hdata,
      pack_of_range (by omega), pack_of_range (by omega), rfl⟩⟩
  · intro out hout
    obtain ⟨fileaddr, base, data, w1, w2, hheader, hdata, hw1, hw2, rfl⟩ := configure_iff.1 hout
    obtain ⟨hlen, htake⟩ := hheader.take
    have hdrop : (binary.take (fileaddr + 16) ++ (w1 ++ w2) ++ data).drop fileaddr =
        signature ++ slice binary (fileaddr + 8) (fileaddr + 12) ++
          slice binary (fileaddr + 12) (fileaddr + 16) ++ w1 ++ w2 ++ data := by
      rw [← htake, List.append_assoc, List.drop_append_of_le_length (by simp; omega),
        List.drop_take, Nat.add_sub_cancel_left]
      simp only [List.append_assoc]
    refine ⟨fileaddr, base, hheader, ?_, fun m hm => ?_⟩
    · rw [List.append_assoc, List.take_append_of_le_length (by simp; omega), List.take_take,
        Nat.min_eq_left (by omega)]
    · rw [hdrop] at hm ⊢
      obtain ⟨hm12345, hm6⟩ := holds_append.1 hm
      obtain ⟨hm1234, hm5⟩ := holds_append.1 hm12345
      obtain ⟨hm123, hm4⟩ := holds_append.1 hm1234
      obtain ⟨hm12, hm3⟩ := holds_append.1 hm123
      obtain ⟨hm1, hm2⟩ := holds_append.1 hm12
      have hsig : signature.length = 8 := rfl
      simp only [List.length_append, hsig, length_unpack hheader.version,
        length_unpack hheader.base, length_pack hw1, length_pack hw2, Nat.reduceAdd]
        at hm2 hm3 hm4 hm5 hm6 ⊢
      rw [← BitVec.ofNat_add] at hm6
      have hlink : link data (base + 24) < 4294967296 := by
        have := (pack_some hw2).1
        omega
      have hoptions := ofNat_of_toNat (holds_pack hw2 hm5)
      have htree := encode_reads hdata hm6 (by omega) hlink
      rw [← length_encode hdata, ← hoptions] at htree
      have hsize : ((load32 m (BitVec.ofNat 32 base + 16)).toNat : Int) = data.length + 24 :=
        holds_pack hw1 hm4
      have hone := holds_unpack hheader.version hm2
      have hbase := holds_unpack hheader.base hm3
      refine ⟨hm1, BitVec.eq_of_toNat_eq hone, hbase, by omega, htree.1, fun x hx => ?_,
        fun h4 x hx => ?_, htree.2.apart⟩
      · have hplaced := htree.2.placed x hx
        exact ⟨hplaced.1, hplaced.2.1.trans (by omega)⟩
      · exact (htree.2.placed x hx).2.2 (Nat.dvd_add h4 (by decide))

/-- A tree of two options, with an address and with a name. -/
def sample : Tree :=
  .option 1 (.number 0x22000100) .none
    (.option 3 (.text [0x2f, 0x61, 0x62, 0x63] (by decide)) .none .none)

/-- A header at the start of a file, for the address 0x22000000 -/
def sampleBinary : List UInt8 :=
  signature ++ [1, 0, 0, 0] ++ [0, 0, 0, 0x22] ++ [0, 0, 0, 0, 0, 0, 0, 0]

theorem configure_sample : ∃ out, configure .two sampleBinary sample = some out ∧
    ∃ fileaddr base, Header sampleBinary fileaddr base ∧
      ∀ m : Mem 32, Holds m (BitVec.ofNat 32 base) (out.drop fileaddr) →
        Bootable m base (out.drop fileaddr).length sample := by
  have hsample := configure_reads_back .two sampleBinary sample
  have hheader : Header sampleBinary 0 0x22000000 := ⟨by decide, by decide, by decide⟩
  have hfit : sample.Fits .two :=
    ⟨by decide, ⟨by decide, rfl⟩, trivial, by decide, trivial, trivial, trivial⟩
  obtain ⟨out, hout⟩ := hsample.1 0 0x22000000 hheader hfit (by decide)
  obtain ⟨fileaddr, base, hfound, -, hread⟩ := hsample.2 out hout
  exact ⟨out, hout, fileaddr, base, hfound, hread⟩

end Boot
end Freemyipod
