import Mathlib.Data.BitVec
import Mathlib.Data.List.Basic

/-!
# Lib.Memory

Byte-addressed memory over `w`-bit addresses, which wrap around.

* `load m a n`, `store m a bs`: the bytes from the address `a` on.
* `load_store`, `load_store_disjoint`: what is stored is read back, and the rest is unchanged.
* `load32`, `store32`: a word of four bytes, the lowest one first.
* `Holds`: what is in memory from an address on; `holds_append` takes it apart.
-/

namespace Memory

variable {w : Nat}

abbrev Mem (w : Nat) := BitVec w → UInt8

variable (m : Mem w) (a : BitVec w)

@[grind =] def load (n : Nat) : List UInt8 := (List.range n).map fun i => m (a + BitVec.ofNat w i)

def store (bs : List UInt8) : Mem w := fun x => bs[(x - a).toNat]?.getD (m x)

variable {m a}

@[simp] theorem length_load (n : Nat) : (load m a n).length = n := by
  simp [load]

@[simp] theorem store_nil : store m a [] = m := rfl

theorem load_congr {m' : Mem w} {n : Nat}
    (h : ∀ i < n, m (a + BitVec.ofNat w i) = m' (a + BitVec.ofNat w i)) :
    load m a n = load m' a n :=
  List.map_congr_left fun i hi => h i (List.mem_range.1 hi)

theorem load_append (n k : Nat) :
    load m a (n + k) = load m a n ++ load m (a + BitVec.ofNat w n) k := by
  simp only [load, List.range_add, List.map_append, List.map_map]
  congr 1
  refine List.map_congr_left fun i _ => congrArg m ?_
  rw [BitVec.add_assoc, BitVec.ofNat_add]

/-- A byte outside the stored ones. -/
theorem store_of_le {bs : List UInt8} {x : BitVec w} (h : bs.length ≤ (x - a).toNat) :
    store m a bs x = m x := by
  unfold store
  rw [List.getElem?_eq_none h]
  rfl

theorem offset_toNat {i : Nat} (hi : i < 2 ^ w) : (a + BitVec.ofNat w i - a).toNat = i := by
  rw [BitVec.add_comm, BitVec.add_sub_cancel, BitVec.toNat_ofNat, Nat.mod_eq_of_lt hi]

theorem load_store_take {bs : List UInt8} {n : Nat} (hn : n ≤ bs.length) (h : bs.length ≤ 2 ^ w) :
    load (store m a bs) a n = bs.take n := by
  refine List.ext_getElem (by simp [hn]) fun i hi _ => ?_
  rw [length_load] at hi
  simp only [load, store, List.getElem_map, List.getElem_range, List.getElem_take]
  rw [offset_toNat (by omega), List.getElem?_eq_getElem (by omega)]
  rfl

theorem load_store {bs : List UInt8} (h : bs.length ≤ 2 ^ w) :
    load (store m a bs) a bs.length = bs := by
  rw [load_store_take le_rfl h, List.take_length]

theorem load_eq_iff {m' : Mem w} {n : Nat} :
    load m a n = load m' a n ↔
      ∀ i < n, m (a + BitVec.ofNat w i) = m' (a + BitVec.ofNat w i) := by
  simp [load, List.map_inj_left]

/-- The second of two stores to the same place counts. -/
theorem store_store {bs bs' : List UInt8} (h : bs.length ≤ bs'.length) :
    store (store m a bs) a bs' = store m a bs' := by
  funext x
  by_cases hx : (x - a).toNat < bs'.length
  · unfold store
    rw [List.getElem?_eq_getElem hx]
    rfl
  · rw [store_of_le (by omega), store_of_le (by omega), store_of_le (by omega)]

/-- The ranges of `n` bytes from `b` and of the stored bytes from `a` have no byte in common. -/
theorem load_store_disjoint {b : BitVec w} {bs : List UInt8} {n : Nat}
    (h : b.toNat + n ≤ a.toNat ∨ a.toNat + bs.length ≤ b.toNat) (ha : a.toNat + bs.length ≤ 2 ^ w)
    (hb : b.toNat + n ≤ 2 ^ w) : load (store m a bs) b n = load m b n := by
  refine load_congr fun i hi => store_of_le ?_
  have hbw := b.isLt
  have haw := a.isLt
  have hbi : (b + BitVec.ofNat w i).toNat = b.toNat + i := by
    rw [BitVec.toNat_add, BitVec.toNat_ofNat, Nat.mod_eq_of_lt (show i < 2 ^ w by omega),
      Nat.mod_eq_of_lt (by omega)]
  rw [BitVec.toNat_sub, hbi]
  rcases h with h | h
  · rw [Nat.mod_eq_of_lt (by omega)]
    omega
  · rw [show 2 ^ w - a.toNat + (b.toNat + i) = 2 ^ w + (b.toNat + i - a.toNat) by omega,
      Nat.add_mod_left, Nat.mod_eq_of_lt (by omega)]
    omega

/-- An address is a multiple of `2 ^ b` if its lowest `b` bits are clear. -/
theorem and_twoPow_sub_one_eq_zero_iff {b : Nat} (hb : b < w) :
    a &&& (BitVec.twoPow w b - 1) = 0 ↔ 2 ^ b ∣ a.toNat := by
  have hpow : 2 ^ b < 2 ^ w := Nat.pow_lt_pow_right (by decide) hb
  have hmask : (BitVec.twoPow w b - 1).toNat = 2 ^ b - 1 := by
    have hone : (1 : BitVec w).toNat = 1 := by
      change (BitVec.ofNat w 1).toNat = 1
      rw [BitVec.toNat_ofNat]
      exact Nat.mod_eq_of_lt (Nat.one_lt_two_pow (by omega))
    have hpos : 0 < 2 ^ b := Nat.two_pow_pos b
    rw [BitVec.toNat_sub, BitVec.toNat_twoPow, Nat.mod_eq_of_lt hpow, hone,
      show 2 ^ w - 1 + 2 ^ b = 2 ^ w + (2 ^ b - 1) by omega, Nat.add_mod_left,
      Nat.mod_eq_of_lt (by omega)]
  rw [Nat.dvd_iff_mod_eq_zero, ← Nat.and_two_pow_sub_one_eq_mod, ← hmask, ← BitVec.toNat_and]
  exact ⟨fun h => congrArg BitVec.toNat h, fun h => BitVec.eq_of_toNat_eq h⟩

/-- A word in memory, the lowest byte first. -/
def word (v : BitVec 32) : List UInt8 :=
  (List.range 4).map fun i => UInt8.ofBitVec (v.extractLsb' (8 * i) 8)

def ofBytes (bs : List UInt8) : BitVec 32 :=
  (bs.getD 3 0).toBitVec ++ (bs.getD 2 0).toBitVec ++ (bs.getD 1 0).toBitVec ++
    (bs.getD 0 0).toBitVec

variable (m a)

def load32 : BitVec 32 := ofBytes (load m a 4)

def store32 (v : BitVec 32) : Mem w := store m a (word v)

@[simp] theorem length_word (v : BitVec 32) : (word v).length = 4 := rfl

theorem ofBytes_word (v : BitVec 32) : ofBytes (word v) = v := by
  change v.extractLsb' 24 8 ++ v.extractLsb' 16 8 ++ v.extractLsb' 8 8 ++ v.extractLsb' 0 8 = v
  rw [BitVec.extractLsb'_append_extractLsb'_eq_extractLsb' (show 24 = 16 + 8 from rfl),
    BitVec.extractLsb'_append_extractLsb'_eq_extractLsb' (show 16 = 8 + 8 from rfl),
    BitVec.extractLsb'_append_extractLsb'_eq_extractLsb' (show 8 = 0 + 8 from rfl)]
  exact BitVec.extractLsb'_eq_self

theorem load32_store32 (h : 4 ≤ 2 ^ w) (v : BitVec 32) : load32 (store32 m a v) a = v := by
  have hload : load (store m a (word v)) a (word v).length = word v := load_store h
  rw [load32, store32]
  exact (congrArg ofBytes hload).trans (ofBytes_word v)

/-- The bytes from `a` on are `bs`. -/
def Holds (bs : List UInt8) : Prop := load m a bs.length = bs

variable {m a}

theorem holds_append {xs ys : List UInt8} :
    Holds m a (xs ++ ys) ↔ Holds m a xs ∧ Holds m (a + BitVec.ofNat w xs.length) ys := by
  unfold Holds
  rw [List.length_append, load_append]
  constructor
  · intro h
    exact List.append_inj h (length_load _)
  · rintro ⟨hx, hy⟩
    rw [hx, hy]

theorem holds_store {bs : List UInt8} (h : bs.length ≤ 2 ^ w) : Holds (store m a bs) a bs :=
  load_store h

theorem holds_store_disjoint {b : BitVec w} {bs cs : List UInt8}
    (h : b.toNat + cs.length ≤ a.toNat ∨ a.toNat + bs.length ≤ b.toNat)
    (ha : a.toNat + bs.length ≤ 2 ^ w) (hb : b.toNat + cs.length ≤ 2 ^ w) :
    Holds (store m a bs) b cs ↔ Holds m b cs := by
  rw [Holds, Holds, load_store_disjoint h ha hb]

theorem toNat_add_ofNat {n : Nat} (h : a.toNat + n < 2 ^ w) :
    (a + BitVec.ofNat w n).toNat = a.toNat + n := by
  rw [BitVec.toNat_add, BitVec.toNat_ofNat, Nat.mod_eq_of_lt (show n < 2 ^ w by omega),
    Nat.mod_eq_of_lt h]

/-- At `a` there is a string, with the NUL that ends it. -/
@[grind =] def IsString (m : Mem w) (a : BitVec w) (s : List UInt8) : Prop := Holds m a (s ++ [0]) ∧ 0 ∉ s

theorem Holds.load32 {v : BitVec 32} (h : Holds m a (word v)) : load32 m a = v :=
  (congrArg ofBytes h).trans (ofBytes_word v)

theorem load32_store_disjoint {b : BitVec w} {bs : List UInt8}
    (h : b.toNat + 4 ≤ a.toNat ∨ a.toNat + bs.length ≤ b.toNat) (ha : a.toNat + bs.length ≤ 2 ^ w)
    (hb : b.toNat + 4 ≤ 2 ^ w) : Memory.load32 (store m a bs) b = Memory.load32 m b := by
  rw [Memory.load32, Memory.load32, load_store_disjoint h ha hb]

end Memory
