import Mathlib.Tactic.Ring
import Freemyipod.Lib.Bits

/-!
# Framebuffer.Pixels

The pixels of a framebuffer of umsboot (`interface/framebuffer/framebuffer.c`).

* `Format`, `convertColor`: the formats and the colours in them.
* `getPixel`, `setPixel`: one pixel. An `int` that overflows and a shift by a negative number are undefined.
* `place`: where the bits of a colour are in the memory of a pixel.
* `getPixel_bits`, `setPixel_painted`: what is read and written.
-/

namespace Freemyipod
namespace Framebuffer

open Bits Bytes

/-- `enum framebuffer_format` -/
inductive Format
  | i1
  | x1r1g1b1
  | i1r1g1b1
  | x7i1
  | x5r1g1b1
  | x2r2g2b2
  | r2g3b3
  | x1r5g5b5LE
  | x1r5g5b5BE
  | r5g6b5LE
  | r5g6b5BE
  | r8g8b8LE
  | r8g8b8BE
  | x31i1LE
  | x31i1BE
  | x8r8g8b8LE
  | x8r8g8b8BE
  deriving DecidableEq, Repr

/-- `framebuffer_format_wordsize` -/
@[grind =] def Format.wordsize : Format → Nat
  | i1 => 1
  | x1r1g1b1 | i1r1g1b1 => 4
  | x7i1 | x5r1g1b1 | x2r2g2b2 | r2g3b3 => 8
  | x1r5g5b5LE | x1r5g5b5BE | r5g6b5LE | r5g6b5BE => 16
  | r8g8b8LE | r8g8b8BE => 24
  | x31i1LE | x31i1BE | x8r8g8b8LE | x8r8g8b8BE => 32

/-- `struct framebuffer_instance`; `data` is accessed as `uint32_t*`. -/
structure Instance where
  width : Nat
  height : Nat
  format : Format
  data : Nat
  width16 : width < 2 ^ 16
  height16 : height < 2 ^ 16
  aligned : data % 4 = 0

def swap16 (x : BitVec 32) : BitVec 32 := ((x &&& 0xffff) >>> 8 ||| (x &&& 0xffff) <<< 8) &&& 0xffff

/-! ## Colours -/

/-- One bit for each of red, green and blue. -/
def rgb111 (color result : BitVec 32) : BitVec 32 :=
  (if color &&& 4 ≠ 0 then result <<< 16 else 0) ||| (if color &&& 2 ≠ 0 then result <<< 8 else 0) |||
    (if color &&& 1 ≠ 0 then result else 0)

def rgb555 (color : BitVec 32) : BitVec 32 :=
  let result := (color &&& 0x7c00) <<< 9 ||| (color &&& 0x3e0) <<< 6 ||| (color &&& 0x1f) <<< 3
  result ||| (result &&& 0xe0e0e0) >>> 5

def rgb565 (color : BitVec 32) : BitVec 32 :=
  let result := (color &&& 0xf800) <<< 8 ||| (color &&& 0x7e0) <<< 5 ||| (color &&& 0x1f) <<< 3
  let result := result ||| (result &&& 0xe000e0) >>> 5
  result ||| (result &&& 0xc000) >>> 6

/-- `framebuffer_color_to_rgb888_be` -/
def colorToRgb888Be (format : Format) (color : BitVec 32) : BitVec 32 :=
  match format with
  | .x31i1LE => if swap32 color &&& 1 ≠ 0 then 0xffffff else 0
  | .i1 | .x7i1 | .x31i1BE => if color &&& 1 ≠ 0 then 0xffffff else 0
  | .i1r1g1b1 => rgb111 color (if color &&& 8 ≠ 0 then 0xff else 0x7f)
  | .x1r1g1b1 | .x5r1g1b1 => rgb111 color 0xff
  | .x2r2g2b2 =>
    let result := (color &&& 0x30) <<< 18 ||| (color &&& 0xc) <<< 14 ||| (color &&& 3) <<< 6
    let result := result ||| result >>> 2
    result ||| result >>> 4
  | .r2g3b3 =>
    let result := (color &&& 0xc0) <<< 16 ||| (color &&& 0x38) <<< 10 ||| (color &&& 7) <<< 5
    let result := result ||| (result &&& 0xc00000) >>> 2
    let result := result ||| (result &&& 0xf00000) >>> 4
    let result := result ||| (result &&& 0xe0e0) >>> 3
    result ||| (result &&& 0xc0c0) >>> 6
  | .x1r5g5b5LE => rgb555 (swap16 color)
  | .x1r5g5b5BE => rgb555 color
  | .r5g6b5LE => rgb565 (swap16 color)
  | .r5g6b5BE => rgb565 color
  | .r8g8b8LE => swap32 (color <<< 8)
  | .x8r8g8b8LE => swap32 color
  | .r8g8b8BE | .x8r8g8b8BE => color

/-- `framebuffer_color_from_rgb888_be` -/
def colorFromRgb888Be (format : Format) (color : BitVec 32) : BitVec 32 :=
  let r := (color &&& 0xff0000) >>> 16
  let g := (color &&& 0xff00) >>> 8
  let b := color &&& 0xff
  let bright := decide (0x180 ≤ (r + g + b).toNat)
  let rgb555 := (r - r >>> 5) >>> 3 <<< 10 ||| (g - g >>> 5) >>> 3 <<< 5 ||| (b - b >>> 5) >>> 3
  let rgb565 := (r - r >>> 5) >>> 3 <<< 11 ||| (g - g >>> 6) >>> 2 <<< 5 ||| (b - b >>> 5) >>> 3
  let bits (least : Nat) : BitVec 32 :=
    (if least ≤ r.toNat then 4 else 0) ||| (if least ≤ g.toNat then 2 else 0) |||
      (if least ≤ b.toNat then 1 else 0)
  match format with
  | .i1 | .x7i1 | .x31i1BE => if bright then 1 else 0
  | .x31i1LE => if bright then 0x01000000 else 0
  | .x1r1g1b1 | .x5r1g1b1 => (r &&& 0x80) >>> 5 ||| (g &&& 0x80) >>> 6 ||| (b &&& 0x80) >>> 7
  | .i1r1g1b1 => if bright then 8 ||| bits 0x80 else bits 0x40
  | .x2r2g2b2 => (r - r >>> 2) >>> 6 <<< 4 ||| (g - g >>> 2) >>> 6 <<< 2 ||| (b - b >>> 2) >>> 6
  | .r2g3b3 => (r - r >>> 2) >>> 6 <<< 6 ||| (g - g >>> 3) >>> 5 <<< 3 ||| (b - b >>> 3) >>> 5
  | .x1r5g5b5BE => rgb555
  | .x1r5g5b5LE => swap16 rgb555
  | .r5g6b5BE => rgb565
  | .r5g6b5LE => swap16 rgb565
  | .r8g8b8LE => swap32 (color <<< 8)
  | .x8r8g8b8LE => swap32 color
  | .r8g8b8BE | .x8r8g8b8BE => color

/-- `framebuffer_convert_color` -/
def convertColor (source target : Format) (color : BitVec 32) : BitVec 32 :=
  colorFromRgb888Be target (colorToRgb888Be source color)

/-! ## One pixel -/

/-- The value of an `int`, if it has one. -/
def int (n : Nat) : Option Nat := if n < 2 ^ 31 then some n else none

/-- A distance to shift a word by. -/
def shift (n : Int) : Option Nat := if 0 ≤ n ∧ n < 32 then some n.toNat else none

/-- `0xffffffff >> (32 - wsize)` -/
def mask (wsize : Nat) : BitVec 32 := 0xffffffff#32 >>> (32 - wsize)

/-- `(data & ~(mask << sh)) | (color << sh)` -/
def insert (data mask color : BitVec 32) (sh : Nat) : BitVec 32 :=
  data &&& ~~~(mask <<< sh) ||| color <<< sh

/-- The order of the bytes of a colour, to the format's pixels and back. -/
def swapColor (wsize : Nat) (color : BitVec 32) : BitVec 32 :=
  if wsize = 16 then swap16 color else if wsize = 32 then swap32 color else color

namespace Instance

variable (fb : Instance) (x y : Nat)

/-- `framebuffer_get_pixel` -/
def getPixel (mem : Memory) : Option (BitVec 32) := do
  let wsize := fb.format.wordsize
  let bit ← int ((fb.width * y + x) * wsize)
  let sh ← shift (32 - (bit % 32 : Nat) - wsize)
  let color := swap32 (load32 mem (fb.data + 4 * (bit / 32))) >>> sh &&& mask wsize
  some (swapColor wsize color)

/-- `framebuffer_set_pixel` -/
def setPixel (color : BitVec 32) (mem : Memory) : Option Memory := do
  let wsize := fb.format.wordsize
  let color := swapColor wsize color
  let bit ← int ((fb.width * y + x) * wsize)
  let byte := bit / 32
  let sh ← shift (32 - (bit % 32 : Nat) - wsize)
  let data := swap32 (load32 mem (fb.data + 4 * byte))
  some (store32 mem (fb.data + 4 * byte)
    (swap32 (insert data (mask wsize) (color &&& mask wsize) sh)))

/-- The first bit of a pixel. -/
def bitOf : Nat := 8 * fb.data + (fb.width * y + x) * fb.format.wordsize

end Instance

/-! ## Words -/

theorem getLsbD_mask {k i : Nat} (hk : k ≤ 32) : (mask k).getLsbD i = decide (i < k) := by
  have hones : 0xffffffff#32 = BitVec.allOnes 32 := by decide
  rw [mask, hones, BitVec.getLsbD_ushiftRight, BitVec.getLsbD_allOnes, decide_eq_decide]
  omega

theorem getMsbD_insert {d c : BitVec 32} {k b j : Nat} (hb : b + k ≤ 32) (hj : j < 32)
    (hc : ∀ i, k ≤ i → c.getLsbD i = false) :
    (insert d (mask k) c (32 - b - k)).getMsbD j =
      if b ≤ j ∧ j < b + k then c.getLsbD (b + k - 1 - j) else d.getMsbD j := by
  have hlt : 32 - 1 - j < 32 := by omega
  simp only [insert, BitVec.getMsbD_eq_getLsbD, BitVec.getLsbD_or, BitVec.getLsbD_and,
    BitVec.getLsbD_not, BitVec.getLsbD_shiftLeft, getLsbD_mask (show k ≤ 32 by omega),
    decide_eq_true hj, decide_eq_true hlt, Bool.true_and]
  by_cases hlo : j < b + k
  · have hsh : ¬ 32 - 1 - j < 32 - b - k := by omega
    have hi : 32 - 1 - j - (32 - b - k) = b + k - 1 - j := by omega
    by_cases hhi : b ≤ j
    · have hin : b + k - 1 - j < k := by omega
      simp [hsh, hi, hhi, hlo, hin]
    · have hout : ¬ b + k - 1 - j < k := by omega
      simp [hsh, hi, hhi, hout, hc _ (Nat.le_of_not_lt hout)]
  · have hsh : 32 - 1 - j < 32 - b - k := by omega
    simp [hsh, hlo]

/-- A part of a word in memory. -/
theorem insert_painted (mem : Memory) (a : Nat) (d : BitVec 32) {k b : Nat} {c : BitVec 32}
    {f : Nat → Bool}
    (hb : b + k ≤ 32) (hc : ∀ i, k ≤ i → c.getLsbD i = false)
    (hf : ∀ j < k, c.getLsbD (k - 1 - j) = f (8 * a + b + j)) :
    Painted (Span (8 * a + b) (8 * a + b + k)) f (store32 mem a (swap32 d))
      (store32 mem a (swap32 (insert d (mask k) c (32 - b - k)))) := by
  constructor
  · rintro i ⟨hlo, hhi⟩
    obtain ⟨j, hj, rfl⟩ : ∃ j, j < k ∧ i = 8 * a + (b + j) :=
      ⟨i - (8 * a + b), by omega, by omega⟩
    have hidx : b + k - 1 - (b + j) = k - 1 - j := by omega
    rw [bit_store32_swap32 (by omega), getMsbD_insert hb (by omega) hc, if_pos (by omega), hidx,
      hf j hj, Nat.add_assoc]
  · intro i hi
    by_cases hword : 8 * a ≤ i ∧ i < 8 * a + 32
    · obtain ⟨j, hj, rfl⟩ : ∃ j, j < 32 ∧ i = 8 * a + j := ⟨i - 8 * a, by omega, by omega⟩
      have hout : ¬ (b ≤ j ∧ j < b + k) := fun h => hi ⟨by omega, by omega⟩
      rw [bit_store32_swap32 hj, bit_store32_swap32 hj, getMsbD_insert hb hj hc, if_neg hout]
    · rw [bit_store32_outside (by omega), bit_store32_outside (by omega)]

theorem getLsbD_swap16 {x : BitVec 32} {i : Nat} (hi : i < 16) :
    (swap16 x).getLsbD i = x.getLsbD (8 * (1 - i / 8) + i % 8) := by
  unfold swap16
  interval_cases i <;> simp

/-! ## Where the bits of a colour are -/

/-- In the memory of a pixel, the bit `i` of a colour, and the bit of a colour at `i`. -/
def place (k i : Nat) : Nat := if k = 16 ∨ k = 32 then 8 * (i / 8) + (7 - i % 8) else k - 1 - i

theorem place_lt {k i : Nat} (h : i < k) : place k i < k := by
  unfold place
  split_ifs <;> omega

theorem place_place {k i : Nat} (h : i < k) : place k (place k i) = i := by
  unfold place
  split_ifs <;> omega

/-- What a pixel of the colour has at the bit `i` of the memory. -/
def paint (k : Nat) (color : BitVec 32) (i : Nat) : Bool := color.getLsbD (place k (i % k))

theorem getLsbD_swapColor {k : Nat} {color : BitVec 32} {i : Nat} (hi : i < k) :
    (swapColor k color).getLsbD i = color.getLsbD (place k (k - 1 - i)) := by
  unfold swapColor
  by_cases h16 : k = 16
  · subst h16
    have hp : place 16 (16 - 1 - i) = 8 * (1 - i / 8) + i % 8 := by
      simp only [place, true_or, if_true]
      omega
    rw [if_pos rfl, getLsbD_swap16 hi, hp]
  by_cases h32 : k = 32
  · subst h32
    have hp : place 32 (32 - 1 - i) = 8 * (3 - i / 8) + i % 8 := by
      simp only [place, or_true, if_true]
      omega
    rw [if_neg (by decide), if_pos rfl, getLsbD_swap32 hi, hp]
  · have hp : place k (k - 1 - i) = i := by
      rw [place, if_neg (by omega)]
      omega
    rw [if_neg h16, if_neg h32, hp]

/-! ## Reading and writing -/

theorem Format.wordsize_pos (f : Format) : 0 < f.wordsize := by
  cases f <;> decide

theorem Instance.wordsize_pos (fb : Instance) : 0 < fb.format.wordsize := fb.format.wordsize_pos

theorem Format.wordsize_le (f : Format) : f.wordsize ≤ 32 := by
  cases f <;> decide

theorem Format.wordsize_dvd_iff (f : Format) : f.wordsize ∣ 32 ↔ f.wordsize ≠ 24 := by
  cases f <;> decide

theorem int_eq_some {n m : Nat} : int n = some m ↔ n < 2 ^ 31 ∧ m = n := by
  unfold int
  split_ifs with h
  · rw [Option.some.injEq]
    omega
  · simp only [false_iff]
    omega

theorem shift_eq_some {b k sh : Nat} (hk : 0 < k) :
    shift (32 - (b : Nat) - k) = some sh ↔ b + k ≤ 32 ∧ sh = 32 - b - k := by
  unfold shift
  split_ifs with h
  · rw [Option.some.injEq]
    omega
  · simp only [false_iff]
    omega

/-- A pixel lies in one word. -/
theorem mod_add_le {k n : Nat} (hk : k ∣ 32) : n * k % 32 + k ≤ 32 := by
  obtain ⟨q, hq⟩ := hk
  have hmod : n * k % 32 = k * (n % q) := by
    rw [hq, Nat.mul_comm, Nat.mul_mod_mul_left]
  have hpos : 0 < q := by
    rcases Nat.eq_zero_or_pos q with rfl | h
    · omega
    · exact h
  have hlt : n % q + 1 ≤ q := Nat.mod_lt n hpos
  have hle : k * (n % q + 1) ≤ k * q := Nat.mul_le_mul_left k hlt
  rw [Nat.mul_add, Nat.mul_one] at hle
  omega

namespace Instance

variable {fb : Instance} {x y : Nat} {mem mem' : Memory} {color v : BitVec 32}

theorem bitOf_mod (hk : fb.format.wordsize ∣ 32) : fb.bitOf x y % fb.format.wordsize = 0 := by
  obtain ⟨d, hd⟩ : ∃ d, 8 * fb.data = 32 * d := ⟨fb.data / 4, by have := fb.aligned; omega⟩
  apply Nat.mod_eq_zero_of_dvd
  rw [bitOf, hd]
  exact Nat.dvd_add (hk.mul_right d) (Nat.dvd_mul_left _ _)

/-- The pixel in its word. -/
theorem bitOf_eq (fb : Instance) (x y : Nat) {bit : Nat} (h : bit = (fb.width * y + x) * fb.format.wordsize) :
    8 * (fb.data + 4 * (bit / 32)) + bit % 32 = fb.bitOf x y := by
  rw [bitOf, ← h]
  omega

theorem getPixel_eq_some : fb.getPixel x y mem = some v ↔
    (fb.width * y + x) * fb.format.wordsize < 2 ^ 31 ∧
      (fb.width * y + x) * fb.format.wordsize % 32 + fb.format.wordsize ≤ 32 ∧
      v = swapColor fb.format.wordsize
        (swap32 (load32 mem (fb.data + 4 * ((fb.width * y + x) * fb.format.wordsize / 32))) >>>
          (32 - (fb.width * y + x) * fb.format.wordsize % 32 - fb.format.wordsize) &&&
            mask fb.format.wordsize) := by
  have hpos := fb.wordsize_pos
  simp only [getPixel, bind, Option.bind_eq_some_iff, int_eq_some, Option.some.injEq]
  constructor
  · rintro ⟨bit, ⟨hlt, rfl⟩, sh, hsh, rfl⟩
    obtain ⟨hle, rfl⟩ := (shift_eq_some hpos).1 hsh
    exact ⟨hlt, hle, rfl⟩
  · rintro ⟨hlt, hle, rfl⟩
    exact ⟨_, ⟨hlt, rfl⟩, _, (shift_eq_some hpos).2 ⟨hle, rfl⟩, rfl⟩

/-- What is read is what is in the memory of the pixel. -/
theorem getPixel_bits (h : fb.getPixel x y mem = some v) {i : Nat} (hi : i < fb.format.wordsize) :
    v.getLsbD i = bit mem (fb.bitOf x y + place fb.format.wordsize i) := by
  obtain ⟨-, hle, rfl⟩ := getPixel_eq_some.1 h
  have hpos := fb.wordsize_pos
  have hbit := bitOf_eq fb x y rfl
  have hp : place fb.format.wordsize (fb.format.wordsize - 1 - i) =
      fb.format.wordsize - 1 - place fb.format.wordsize i := by
    unfold place
    split_ifs <;> omega
  have hplace := place_lt hi
  generalize fb.format.wordsize = k at *
  generalize (fb.width * y + x) * k = n at *
  have hidx : 32 - n % 32 - k + (k - 1 - place k i) = 32 - 1 - (n % 32 + place k i) := by omega
  have hlt : n % 32 + place k i < 32 := by omega
  have hmask : k - 1 - place k i < k := by omega
  have hw : (swap32 (load32 mem (fb.data + 4 * (n / 32)))).getMsbD (n % 32 + place k i) = _ :=
    getMsbD_load32 hlt
  rw [BitVec.getMsbD_eq_getLsbD, decide_eq_true hlt, Bool.true_and] at hw
  rw [getLsbD_swapColor hi, hp, BitVec.getLsbD_and, BitVec.getLsbD_ushiftRight,
    getLsbD_mask (by omega), decide_eq_true hmask, Bool.and_true, hidx, hw, ← Nat.add_assoc, hbit]

theorem getPixel_high (h : fb.getPixel x y mem = some v) {i : Nat} (hi : fb.format.wordsize ≤ i) :
    v.getLsbD i = false := by
  obtain ⟨-, -, rfl⟩ := getPixel_eq_some.1 h
  have hle := fb.format.wordsize_le
  generalize fb.format.wordsize = k at *
  unfold swapColor
  split_ifs with h16 h32
  · subst h16
    have hmask : (0xffff : BitVec 32) = mask 16 := by decide
    rw [swap16, BitVec.getLsbD_and, hmask, getLsbD_mask (by decide), decide_eq_false (by omega),
      Bool.and_false]
  · exact BitVec.getLsbD_of_ge _ _ (by omega)
  · rw [BitVec.getLsbD_and, getLsbD_mask hle, decide_eq_false (by omega), Bool.and_false]

theorem getPixel_isSome (mem : Memory) (hk : fb.format.wordsize ∣ 32)
    (h : (fb.width * y + x) * fb.format.wordsize < 2 ^ 31) : ∃ v, fb.getPixel x y mem = some v :=
  ⟨_, getPixel_eq_some.2 ⟨h, mod_add_le hk, rfl⟩⟩

/-- A pixel whose memory is that of the other pixel reads the same. -/
theorem getPixel_congr {fb' : Instance} {x' y' : Nat} {v' : BitVec 32} (hf : fb.format = fb'.format)
    (h : fb.getPixel x y mem = some v) (h' : fb'.getPixel x' y' mem' = some v')
    (hbit : ∀ t < fb.format.wordsize, bit mem (fb.bitOf x y + t) = bit mem' (fb'.bitOf x' y' + t)) :
    v = v' := by
  apply BitVec.eq_of_getLsbD_eq
  intro i _
  by_cases hi : i < fb.format.wordsize
  · have hi' : i < fb'.format.wordsize := by rwa [← hf]
    rw [getPixel_bits h hi, getPixel_bits h' hi', hbit _ (place_lt hi), hf]
  · have hi' : fb'.format.wordsize ≤ i := by
      rw [← hf]
      omega
    rw [getPixel_high h (Nat.le_of_not_lt hi), getPixel_high h' hi']

theorem getPixel_same
    (hbit : ∀ t < fb.format.wordsize, bit mem (fb.bitOf x y + t) = bit mem' (fb.bitOf x y + t)) :
    fb.getPixel x y mem = fb.getPixel x y mem' := by
  by_cases h : (fb.width * y + x) * fb.format.wordsize < 2 ^ 31 ∧
      (fb.width * y + x) * fb.format.wordsize % 32 + fb.format.wordsize ≤ 32
  · have hsome : ∀ m : Memory, ∃ v, fb.getPixel x y m = some v :=
      fun m => ⟨_, getPixel_eq_some.2 ⟨h.1, h.2, rfl⟩⟩
    obtain ⟨v, hv⟩ := hsome mem
    obtain ⟨v', hv'⟩ := hsome mem'
    rw [hv, hv', getPixel_congr rfl hv hv' hbit]
  · have hnone : ∀ m : Memory, fb.getPixel x y m = none := by
      intro m
      rw [Option.eq_none_iff_forall_ne_some]
      intro v hv
      obtain ⟨hlt, hle, -⟩ := getPixel_eq_some.1 hv
      exact h ⟨hlt, hle⟩
    rw [hnone, hnone]

/-- A pixel of a colour reads this colour. -/
theorem getPixel_painted (hk : fb.format.wordsize ∣ 32) (h : fb.getPixel x y mem = some v)
    (hbit : ∀ t < fb.format.wordsize,
      bit mem (fb.bitOf x y + t) = paint fb.format.wordsize color (fb.bitOf x y + t)) :
    v = color &&& mask fb.format.wordsize := by
  have hle := fb.format.wordsize_le
  apply BitVec.eq_of_getLsbD_eq
  intro i _
  rw [BitVec.getLsbD_and, getLsbD_mask hle]
  by_cases hi : i < fb.format.wordsize
  · have hmod : (fb.bitOf x y + place fb.format.wordsize i) % fb.format.wordsize =
        place fb.format.wordsize i := by
      rw [Nat.add_mod, bitOf_mod hk, Nat.zero_add, Nat.mod_mod, Nat.mod_eq_of_lt (place_lt hi)]
    rw [getPixel_bits h hi, hbit _ (place_lt hi), paint, hmod, place_place hi, decide_eq_true hi,
      Bool.and_true]
  · rw [getPixel_high h (Nat.le_of_not_lt hi), decide_eq_false hi, Bool.and_false]

/-- The memory of the pixel is that of one of the colour, and all else is unchanged. -/
theorem setPixel_painted (mem : Memory) (color : BitVec 32) (hk : fb.format.wordsize ∣ 32)
    (h : (fb.width * y + x) * fb.format.wordsize < 2 ^ 31) :
    ∃ mem', fb.setPixel x y color mem = some mem' ∧
      Painted (Span (fb.bitOf x y) (fb.bitOf x y + fb.format.wordsize))
        (paint fb.format.wordsize color) mem mem' := by
  have hpos := fb.wordsize_pos
  have hmod := bitOf_mod (x := x) (y := y) hk
  have hbit := bitOf_eq fb x y rfl
  have hle : (fb.width * y + x) * fb.format.wordsize % 32 + fb.format.wordsize ≤ 32 := mod_add_le hk
  have hset : fb.setPixel x y color mem = some (store32 mem
      (fb.data + 4 * ((fb.width * y + x) * fb.format.wordsize / 32)) (swap32 (insert
        (swap32 (load32 mem (fb.data + 4 * ((fb.width * y + x) * fb.format.wordsize / 32))))
        (mask fb.format.wordsize) (swapColor fb.format.wordsize color &&& mask fb.format.wordsize)
        (32 - (fb.width * y + x) * fb.format.wordsize % 32 - fb.format.wordsize)))) := by
    simp only [setPixel, bind, int_eq_some.2 ⟨h, rfl⟩, Option.bind_some,
      (shift_eq_some hpos).2 ⟨hle, rfl⟩]
  refine ⟨_, hset, ?_⟩
  generalize fb.format.wordsize = k at *
  generalize (fb.width * y + x) * k = n at *
  generalize fb.data + 4 * (n / 32) = a at *
  rw [← hbit] at hmod ⊢
  have hpaint := insert_painted mem a (swap32 (load32 mem a))
    (c := swapColor k color &&& mask k) (f := paint k color) hle ?_ ?_
  · rwa [store32_load32] at hpaint
  · intro i hi
    rw [BitVec.getLsbD_and, getLsbD_mask (by omega), decide_eq_false (by omega), Bool.and_false]
  · intro j hj
    have hlt : k - 1 - j < k := by omega
    have hback : k - 1 - (k - 1 - j) = j := by omega
    have hm : (8 * a + n % 32 + j) % k = j := by
      rw [Nat.add_mod, hmod, Nat.zero_add, Nat.mod_mod, Nat.mod_eq_of_lt hj]
    rw [BitVec.getLsbD_and, getLsbD_mask (by omega), decide_eq_true hlt, Bool.and_true,
      getLsbD_swapColor hlt, hback, paint, hm]

/-! ## Rectangles -/

def InRect (x y w h px py : Nat) : Prop := x ≤ px ∧ px < x + w ∧ y ≤ py ∧ py < y + h

/-- The memory of the pixels of a rectangle. -/
def Region (fb : Instance) (x y w h i : Nat) : Prop :=
  ∃ px py, InRect x y w h px py ∧
    Span (fb.bitOf px py) (fb.bitOf px py + fb.format.wordsize) i

variable {w h px py i t : Nat}

theorem bitOf_add {c r : Nat} : fb.bitOf (x + c) (y + r) =
    fb.bitOf x y + r * (fb.width * fb.format.wordsize) + c * fb.format.wordsize := by
  unfold bitOf
  ring

theorem region_iff_rows : fb.Region x y w h i ↔
    Rows (fb.bitOf x y) (fb.width * fb.format.wordsize) (w * fb.format.wordsize) h i := by
  have hpos := fb.wordsize_pos
  constructor
  · rintro ⟨px, py, ⟨hx, hxw, hy, hyh⟩, hi⟩
    obtain ⟨c, rfl⟩ := Nat.exists_eq_add_of_le hx
    obtain ⟨r, rfl⟩ := Nat.exists_eq_add_of_le hy
    rw [bitOf_add] at hi
    have hc : (c + 1) * fb.format.wordsize ≤ w * fb.format.wordsize :=
      Nat.mul_le_mul_right _ (by omega)
    rw [Nat.succ_mul] at hc
    obtain ⟨hlo, hhi⟩ := hi
    exact ⟨r, by omega, by omega, by omega⟩
  · rintro ⟨r, hr, hlo, hhi⟩
    obtain ⟨t, rfl⟩ := Nat.exists_eq_add_of_le hlo
    have ht : t / fb.format.wordsize < w := (Nat.div_lt_iff_lt_mul hpos).2 (by omega)
    have hdiv := Nat.div_add_mod' t fb.format.wordsize
    have hmod := Nat.mod_lt t hpos
    generalize t / fb.format.wordsize = c at *
    refine ⟨x + c, y + r, ⟨by omega, by omega, by omega, by omega⟩, ?_⟩
    rw [bitOf_add]
    constructor <;> omega

/-- A bit belongs to one pixel. -/
theorem bitOf_inj {qx qy : Nat} (hp : px < fb.width) (hq : qx < fb.width)
    (ht : t < fb.format.wordsize)
    (h : Span (fb.bitOf qx qy) (fb.bitOf qx qy + fb.format.wordsize) (fb.bitOf px py + t)) :
    qx = px ∧ qy = py := by
  have hpos := fb.wordsize_pos
  obtain ⟨hlo, hhi⟩ := h
  unfold bitOf at hlo hhi
  have hle : fb.width * qy + qx < fb.width * py + px + 1 := by
    apply Nat.lt_of_mul_lt_mul_right (a := fb.format.wordsize)
    rw [Nat.succ_mul]
    omega
  have hge : fb.width * py + px < fb.width * qy + qx + 1 := by
    apply Nat.lt_of_mul_lt_mul_right (a := fb.format.wordsize)
    rw [Nat.succ_mul]
    omega
  have heq : fb.width * qy + qx = fb.width * py + px := by omega
  have hdiv := congrArg (· / fb.width) heq
  have hmod := congrArg (· % fb.width) heq
  have hwpos : 0 < fb.width := by omega
  simp only [Nat.mul_add_div hwpos, Nat.div_eq_of_lt hp, Nat.div_eq_of_lt hq] at hdiv
  simp only [Nat.mul_add_mod, Nat.mod_eq_of_lt hp, Nat.mod_eq_of_lt hq] at hmod
  exact ⟨hmod, by omega⟩

theorem region_bitOf (hw : x + w ≤ fb.width) (hp : px < fb.width) (ht : t < fb.format.wordsize) :
    fb.Region x y w h (fb.bitOf px py + t) ↔ InRect x y w h px py := by
  constructor
  · rintro ⟨qx, qy, hq, hspan⟩
    have hqx := hq.2.1
    obtain ⟨rfl, rfl⟩ := bitOf_inj hp (by omega) ht hspan
    exact hq
  · intro hin
    exact ⟨px, py, hin, by omega, by omega⟩

/-- The pixels of a rectangle, row by row. -/
def pixels (x y w h : Nat) : List (Nat × Nat) :=
  (List.range h).flatMap fun r => (List.range w).map fun c => (x + c, y + r)

theorem mem_pixels : (px, py) ∈ pixels x y w h ↔ InRect x y w h px py := by
  simp only [pixels, List.mem_flatMap, List.mem_map, List.mem_range, Prod.mk.injEq, InRect]
  constructor
  · rintro ⟨r, hr, c, hc, rfl, rfl⟩
    omega
  · rintro ⟨hx, hxw, hy, hyh⟩
    exact ⟨py - y, by omega, px - x, by omega, by omega, by omega⟩

/-- `framebuffer_set_pixel` on each of the pixels. -/
def setPixels (fb : Instance) (color : BitVec 32) : List (Nat × Nat) → Memory → Option Memory
  | [], mem => some mem
  | p :: ps, mem => (fb.setPixel p.1 p.2 color mem).bind (fb.setPixels color ps)

theorem setPixels_painted (mem : Memory) (color : BitVec 32) (hk : fb.format.wordsize ∣ 32)
    {ps : List (Nat × Nat)}
    (h : ∀ p ∈ ps, (fb.width * p.2 + p.1) * fb.format.wordsize < 2 ^ 31) :
    ∃ mem', fb.setPixels color ps mem = some mem' ∧
      Painted (fun i => ∃ p ∈ ps, Span (fb.bitOf p.1 p.2) (fb.bitOf p.1 p.2 + fb.format.wordsize) i)
        (paint fb.format.wordsize color) mem mem' := by
  induction ps generalizing mem with
  | nil => exact ⟨mem, rfl, .refl (by simp)⟩
  | cons p ps ih =>
    obtain ⟨mem1, hset, hpaint⟩ :=
      setPixel_painted mem color hk (h p List.mem_cons_self)
    obtain ⟨mem2, hsets, hpaints⟩ := ih mem1 fun q hq => h q (List.mem_cons_of_mem _ hq)
    refine ⟨mem2, by rw [setPixels, hset, Option.bind_some, hsets], hpaint.trans hpaints ?_⟩
    simp

/-- The bit of the last pixel of a rectangle, and so of each of its pixels, is counted by an `int`. -/
def Counted (fb : Instance) (x y w h : Nat) : Prop :=
  (fb.width * (y + h - 1) + (x + w - 1)) * fb.format.wordsize < 2 ^ 31

theorem Counted.lt (hc : fb.Counted x y w h) (hin : InRect x y w h px py) :
    (fb.width * py + px) * fb.format.wordsize < 2 ^ 31 := by
  obtain ⟨hx, hxw, hy, hyh⟩ := hin
  refine lt_of_le_of_lt (Nat.mul_le_mul_right _ ?_) hc
  have hrow : fb.width * py ≤ fb.width * (y + h - 1) := Nat.mul_le_mul_left _ (by omega)
  omega

end Instance

end Framebuffer
end Freemyipod
