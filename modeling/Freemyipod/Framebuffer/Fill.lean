import Mathlib.Data.Nat.Prime.Basic
import Freemyipod.Framebuffer.Packing

/-!
# Framebuffer.Fill

Rectangles of one colour (`framebuffer_fill`).

* `widen`: pixels are taken two at a time while everything is even.
* `fillWords`, `fillRow`: a row of whole bytes or words, and one of narrower pixels.
* `fill`: the function. `fillWide_painted`: what it paints.
* `fill_iff`: for every framebuffer and rectangle, when filling is setting each pixel.
-/

namespace Freemyipod
namespace Framebuffer

open Bits Bytes

/-- What `framebuffer_fill` widens. -/
structure Wide where
  wsize : Nat
  w : Nat
  x : Nat
  stride : Nat
  color : BitVec 32
  pos : 0 < wsize

def Wide.double (g : Wide) : Wide where
  wsize := 2 * g.wsize
  w := g.w / 2
  x := g.x / 2
  stride := g.stride / 2
  color := g.color ||| g.color <<< g.wsize
  pos := by have := g.pos; omega

/-- `while (wsize < 32 && !(w & 1) && !(x & 1) && !(stride & 1))` -/
@[grind =] def widen (g : Wide) : Wide :=
  if g.wsize < 32 ∧ g.w % 2 = 0 ∧ g.x % 2 = 0 ∧ g.stride % 2 = 0 then widen g.double else g
termination_by 32 - g.wsize
decreasing_by
  have := g.pos
  change 32 - 2 * g.wsize < 32 - g.wsize
  omega

/-- `bs`, `n` times, one behind the other. -/
@[grind =] def putAll (bs : List UInt8) : Nat → Nat → Memory → Memory
  | 0, _, mem => mem
  | n + 1, ptr, mem => putAll bs n (ptr + bs.length) (put mem ptr bs)

/-- The bytes of a `uint32_t`, a `uint16_t` or what `memset` writes. -/
def element (wsize : Nat) : Nat := if wsize = 32 then 4 else if wsize = 16 then 2 else 1

/-- A row of at least whole bytes, and the pointer to the next one. -/
def fillWords (g : Wide) (s : Memory × Nat) : Option (Memory × Nat) :=
  some (putAll (le (element g.wsize) g.color) g.w s.2 s.1, s.2 + g.stride * (g.wsize / 8))

@[grind =] def fillRow (g : Wide) (s : Cursor) : Option Cursor := do
  let s ← times (writePixel g.wsize g.color) g.w { s with data := swap32 (load32 s.mem s.out) }
  let bit : Int := s.bit + ((g.stride : Int) - g.w) * g.wsize
  some ⟨s.flush, s.data, (s.out + 4 * (bit / 32)).toNat, (bit % 32).toNat⟩

/-- What is left of `framebuffer_fill` once it has widened. -/
def fillWide (data y h : Nat) (g : Wide) (mem : Memory) : Option Memory :=
  if 8 ≤ g.wsize then do
    let out ← int ((y * g.stride + g.x) * (g.wsize / 8))
    let s ← times (fillWords g) h (mem, data + out)
    some s.1
  else do
    let bit ← int ((y * g.stride + g.x) * g.wsize)
    let s ← times (fillRow g) h ⟨mem, 0, data + 4 * (bit / 32), bit % 32⟩
    some s.mem

namespace Instance

variable (fb : Instance)

/-- A rectangle that is `w` pixels wide, widened. -/
def wide (x w : Nat) (color : BitVec 32) : Wide :=
  widen ⟨fb.format.wordsize, w, x, fb.width, color &&& mask fb.format.wordsize,
    fb.format.wordsize_pos⟩

/-- `framebuffer_fill` -/
def fill (x y w h : Nat) (format : Format) (color : BitVec 32) (mem : Memory) : Option Memory :=
  let fmt := fb.format
  let color :=
    if format ≠ fmt then
      swapColor fmt.wordsize (convertColor format fmt (swapColor format.wordsize color))
    else color
  if w = fb.width then (int (w * h)).bind fun w => fillWide fb.data y 1 (fb.wide x w color) mem
  else fillWide fb.data y h (fb.wide x w color) mem

end Instance

/-! ## Widening -/

/-- Pixels of the colour `c` in the format's `k` bits. -/
structure Colored (k : Nat) (c : BitVec 32) (g : Wide) : Prop where
  dvd : g.wsize ∣ 32
  color : ∀ j < g.wsize, g.color.getLsbD (place g.wsize j) = paint k c j
  high : ∀ i, g.wsize ≤ i → g.color.getLsbD i = false
  base : k ∣ g.wsize

theorem place_double {k j : Nat} (hk : k ∣ 32) (hlt : k < 32) (hj : j < 2 * k) :
    place (2 * k) j % k = place k (j % k) := by
  unfold place
  rcases dvd_32 hk with rfl | rfl | rfl | rfl | rfl | rfl
  all_goals
    simp
    omega

theorem Colored.double {k : Nat} {c : BitVec 32} {g : Wide} (h : Colored k c g)
    (hlt : g.wsize < 32) : Colored k c g.double := by
  have hpos := g.pos
  have hbits : ∀ i, (g.color ||| g.color <<< g.wsize).getLsbD i =
      (decide (i < 2 * g.wsize) && g.color.getLsbD (i % g.wsize)) := by
    intro i
    have hle : 2 * g.wsize ≤ 32 := by
      rcases dvd_32 h.dvd with he | he | he | he | he | he <;> omega
    rw [BitVec.getLsbD_or, BitVec.getLsbD_shiftLeft]
    by_cases hlo : i < g.wsize
    · simp [hlo, Nat.mod_eq_of_lt hlo, show i < 2 * g.wsize by omega]
    · rw [h.high i (by omega), Bool.false_or, decide_eq_false hlo]
      by_cases hhi : i < 2 * g.wsize
      · have hmod : i % g.wsize = i - g.wsize := by
          rw [Nat.mod_eq_sub_mod (by omega), Nat.mod_eq_of_lt (by omega)]
        simp [hhi, hmod, show i < 32 by omega]
      · simp [hhi, h.high (i - g.wsize) (by omega)]
  constructor
  · change 2 * g.wsize ∣ 32
    rcases dvd_32 h.dvd with he | he | he | he | he | he <;> rw [he] <;> omega
  · intro j hj
    change j < 2 * g.wsize at hj
    change (g.color ||| g.color <<< g.wsize).getLsbD (place (2 * g.wsize) j) = paint k c j
    rw [hbits, decide_eq_true (place_lt hj), Bool.true_and, place_double h.dvd hlt hj,
      h.color _ (Nat.mod_lt j hpos), paint, paint, Nat.mod_mod_of_dvd _ h.base]
  · intro i hi
    change 2 * g.wsize ≤ i at hi
    change (g.color ||| g.color <<< g.wsize).getLsbD i = false
    rw [hbits, decide_eq_false (by omega), Bool.false_and]
  · exact h.base.mul_left 2

/-- The widened pixels are in the same place. -/
structure SamePlace (g g' : Wide) : Prop where
  w : g'.w * g'.wsize = g.w * g.wsize
  x : g'.x * g'.wsize = g.x * g.wsize
  stride : g'.stride * g'.wsize = g.stride * g.wsize

theorem mul_double {a k : Nat} (h : a % 2 = 0) : a / 2 * (2 * k) = a * k := by
  rw [← Nat.mul_assoc, Nat.div_mul_cancel (Nat.dvd_of_mod_eq_zero h)]

theorem widen_same (g : Wide) : SamePlace g (widen g) := by
  induction g using widen.induct with
  | case1 g h ih =>
    rw [widen, if_pos h]
    obtain ⟨-, hw, hx, hs⟩ := h
    exact ⟨ih.w.trans (mul_double hw), ih.x.trans (mul_double hx), ih.stride.trans (mul_double hs)⟩
  | case2 g h =>
    rw [widen, if_neg h]
    exact ⟨rfl, rfl, rfl⟩

theorem widen_colored {k : Nat} {c : BitVec 32} (g : Wide) (hg : Colored k c g) :
    Colored k c (widen g) := by
  induction g using widen.induct with
  | case1 g h ih =>
    rw [widen, if_pos h]
    exact ih (hg.double h.1)
  | case2 g h =>
    rw [widen, if_neg h]
    exact hg

/-- Wide pixels of 24 bits stay so or become 48. -/
theorem widen_bytes (g : Wide) (h : g.wsize = 24 ∨ g.wsize = 48) :
    (widen g).wsize = 24 ∨ (widen g).wsize = 48 := by
  induction g using widen.induct with
  | case1 g hc ih =>
    rw [widen, if_pos hc]
    apply ih
    change 2 * g.wsize = 24 ∨ 2 * g.wsize = 48
    omega
  | case2 g hc =>
    rw [widen, if_neg hc]
    exact h

/-! ## Rows of bytes -/

variable {mem mem' : Memory} {f : Nat → Bool}

theorem putAll_painted {bs : List UInt8} {n ptr : Nat}
    (hf : ∀ q < n, ∀ j < bs.length, ∀ r < 8,
      (bs.getD j 0).toBitVec.getMsbD r = f (8 * (ptr + q * bs.length + j) + r)) :
    Painted (Span (8 * ptr) (8 * (ptr + n * bs.length))) f mem (putAll bs n ptr mem) := by
  induction n generalizing ptr mem with
  | zero =>
    apply Painted.refl
    rintro i ⟨hlo, hhi⟩
    omega
  | succ n ih =>
    have hput : Painted (Span (8 * ptr) (8 * (ptr + bs.length))) f mem (put mem ptr bs) := by
      constructor
      · rintro i ⟨hlo, hhi⟩
        obtain ⟨j, r, hr, rfl⟩ : ∃ j r, r < 8 ∧ i = 8 * (ptr + j) + r :=
          ⟨i / 8 - ptr, i % 8, by omega, by omega⟩
        have hj : j < bs.length := by omega
        have hbyte := hf 0 (Nat.succ_pos n) j hj r hr
        rw [Nat.zero_mul, Nat.add_zero] at hbyte
        rw [bit_put_inside hj hr, hbyte]
      · intro i hi
        apply bit_put_outside
        simp only [Span] at hi
        omega
    rw [putAll]
    refine hput.trans (ih ?_) ?_
    · intro q hq j hj r hr
      have hidx : ptr + bs.length + q * bs.length = ptr + (q + 1) * bs.length := by ring
      rw [hidx]
      exact hf (q + 1) (Nat.succ_lt_succ hq) j hj r hr
    · intro i
      simp only [Span]
      have hidx : ptr + (n + 1) * bs.length = ptr + bs.length + n * bs.length := by ring
      rw [hidx]
      omega

theorem putAll_outside {bs : List UInt8} {n ptr i : Nat}
    (h : i < 8 * ptr ∨ 8 * (ptr + n * bs.length) ≤ i) :
    bit (putAll bs n ptr mem) i = bit mem i := by
  induction n generalizing ptr mem with
  | zero => rfl
  | succ n ih =>
    have hidx : ptr + (n + 1) * bs.length = ptr + bs.length + n * bs.length := by ring
    rw [hidx] at h
    rw [putAll, ih (by omega), bit_put_outside (by omega)]

theorem Colored.paint_eq {k : Nat} {c : BitVec 32} {g : Wide} (hg : Colored k c g) (i : Nat) :
    paint k c i = g.color.getLsbD (place g.wsize (i % g.wsize)) := by
  rw [hg.color _ (Nat.mod_lt i g.pos), paint, paint, Nat.mod_mod_of_dvd _ hg.base]

theorem Colored.paint_add {k : Nat} {c : BitVec 32} {g : Wide} (hg : Colored k c g) {p j : Nat}
    (hp : p % g.wsize = 0) (hj : j < g.wsize) :
    paint k c (p + j) = g.color.getLsbD (place g.wsize j) := by
  rw [hg.paint_eq, Nat.add_mod, hp, Nat.zero_add, Nat.mod_mod, Nat.mod_eq_of_lt hj]

section Row

variable {k : Nat} {c : BitVec 32} {g : Wide}

theorem element_eq (hg : Colored k c g) (h8 : 8 ≤ g.wsize) : 8 * element g.wsize = g.wsize := by
  have hcases := dvd_32 hg.dvd
  unfold element
  split_ifs <;> omega

theorem wordsRow_painted (mem : Memory) (hg : Colored k c g) (h8 : 8 ≤ g.wsize) {ptr : Nat}
    (halign : 8 * ptr % g.wsize = 0) :
    Painted (Span (8 * ptr) (8 * ptr + g.w * g.wsize)) (paint k c) mem
      (putAll (le (element g.wsize) g.color) g.w ptr mem) := by
  have he := element_eq hg h8
  have hend : 8 * ptr + g.w * g.wsize = 8 * (ptr + g.w * (le (element g.wsize) g.color).length) := by
    have hmul : g.w * g.wsize = 8 * (g.w * element g.wsize) := by rw [Nat.mul_left_comm, he]
    rw [length_le, hmul, Nat.mul_add]
  rw [hend]
  apply putAll_painted
  intro q _ j hj r hr
  rw [length_le] at hj ⊢
  have hidx : 8 * (ptr + q * element g.wsize + j) + r =
      8 * ptr + g.wsize * q + (8 * j + r) := by
    have hmul : g.wsize * q = 8 * (q * element g.wsize) := by
      rw [Nat.mul_left_comm, he, Nat.mul_comm]
    omega
  have hmul : (8 * ptr + g.wsize * q) % g.wsize = 0 := by
    rw [Nat.add_mul_mod_self_left, halign]
  have hplace : place g.wsize (8 * j + r) = 8 * j + (7 - r) := by
    have hcases := dvd_32 hg.dvd
    unfold place
    split_ifs <;> omega
  rw [getMsbD_le hj hr, hidx, hg.paint_add hmul (by omega), hplace]

theorem fillWords_painted (mem : Memory) (hg : Colored k c g) (h8 : 8 ≤ g.wsize) {ptr : Nat} (h : Nat)
    (halign : 8 * ptr % g.wsize = 0) :
    ∃ s, times (fillWords g) h (mem, ptr) = some s ∧
      Painted (Rows (8 * ptr) (g.stride * g.wsize) (g.w * g.wsize) h) (paint k c) mem s.1 := by
  have he := element_eq hg h8
  have hrow : ∀ r, 8 * (ptr + r * (g.stride * (g.wsize / 8))) =
      8 * ptr + r * (g.stride * g.wsize) := by
    intro r
    have hdiv : 8 * (g.wsize / 8) = g.wsize := by omega
    calc 8 * (ptr + r * (g.stride * (g.wsize / 8)))
        = 8 * ptr + r * (g.stride * (8 * (g.wsize / 8))) := by ring
      _ = 8 * ptr + r * (g.stride * g.wsize) := by rw [hdiv]
  have hinv := times_invariant (f := fillWords g) (n := h) (x := (mem, ptr))
    (I := fun r s => s.2 = ptr + r * (g.stride * (g.wsize / 8)) ∧
      Painted (Rows (8 * ptr) (g.stride * g.wsize) (g.w * g.wsize) r) (paint k c) mem s.1)
    ⟨by simp, .refl fun _ => not_rows_zero⟩ ?_
  · obtain ⟨s, hs, -, hpaint⟩ := hinv
    exact ⟨s, hs, hpaint⟩
  · rintro r ⟨m, p⟩ - ⟨hp, hpaint⟩
    dsimp only at hp hpaint
    subst hp
    refine ⟨_, rfl, by dsimp only; ring, ?_⟩
    have halign' : 8 * (ptr + r * (g.stride * (g.wsize / 8))) % g.wsize = 0 := by
      rw [hrow, ← Nat.mul_assoc, Nat.add_mul_mod_self_right, halign]
    have hstep := wordsRow_painted m hg h8 halign'
    rw [hrow] at hstep
    exact hpaint.trans hstep fun i => rows_succ

/-! ## Rows of narrow pixels -/

theorem fillRow_painted (hg : Colored k c g) (h8 : g.wsize < 8) {s : Cursor} (hbit : s.bit < 32)
    (hout : s.out % 4 = 0) (halign : (8 * s.out + s.bit) % g.wsize = 0) :
    ∃ s', fillRow g s = some s' ∧
      8 * s'.out + s'.bit = 8 * s.out + s.bit + g.stride * g.wsize ∧ s'.bit < 32 ∧
      s'.out % 4 = 0 ∧ Painted (Span (8 * s.out + s.bit) (8 * s.out + s.bit + g.w * g.wsize))
        (paint k c) s.mem s'.mem := by
  generalize hp : 8 * s.out + s.bit = pos at *
  have hloop := times_invariant (f := writePixel g.wsize g.color) (n := g.w)
    (x := { s with data := swap32 (load32 s.mem s.out) })
    (I := fun j s' => 8 * s'.out + s'.bit = pos + j * g.wsize ∧ s'.bit < 32 ∧ s'.out % 4 = 0 ∧
      Painted (Span pos (pos + j * g.wsize)) (paint k c) s.mem s'.flush)
    ⟨by simpa using hp, hbit, hout, ?_⟩ ?_
  · obtain ⟨s1, hs1, hpos1, hbit1, hout1, hpaint⟩ := hloop
    have hmul : ((g.stride : Int) - g.w) * g.wsize =
        ((g.stride * g.wsize : Nat) : Int) - (g.w * g.wsize : Nat) := by
      push_cast
      ring
    have hrow : fillRow g s = some ⟨s1.flush, s1.data,
        (s1.out + 4 * ((s1.bit + ((g.stride : Int) - g.w) * g.wsize) / 32)).toNat,
        ((s1.bit + ((g.stride : Int) - g.w) * g.wsize) % 32).toNat⟩ := by
      simp only [fillRow, bind, hs1, Option.bind_some]
    obtain ⟨hpos', hbit', hout'⟩ := advance (S := g.stride * g.wsize) hout1 hpos1 rfl
    rw [hmul] at hrow
    exact ⟨_, hrow, hpos', hbit', hout', hpaint⟩
  · rw [Cursor.flush_load]
    apply Painted.refl
    rintro i ⟨hlo, hhi⟩
    omega
  · rintro j s1 - ⟨hpos1, hbit1, hout1, hpaint⟩
    have halign1 : (8 * s1.out + s1.bit) % g.wsize = 0 := by
      rw [hpos1, Nat.add_mul_mod_self_right, halign]
    obtain ⟨s2, hs2, hpos2, hbit2, hout2, -, hpaint2⟩ := writePixel_painted (f := paint k c) g.pos
      (bit_add_le hg.dvd hbit1 hout1 halign1) hg.high fun j hj => by
        have hcases := dvd_32 hg.dvd
        rw [hg.paint_add halign1 hj, place, if_neg (by omega)]
    refine ⟨s2, hs2, ?_, hbit2, by omega, hpaint.trans hpaint2 ?_⟩
    · rw [hpos2, hpos1, Nat.succ_mul, Nat.add_assoc]
    · intro i
      rw [hpos1, Nat.succ_mul]
      simp only [Span]
      omega

theorem fillRows_painted (hg : Colored k c g) (h8 : g.wsize < 8) {s : Cursor} {h : Nat}
    (hbit : s.bit < 32) (hout : s.out % 4 = 0) (halign : (8 * s.out + s.bit) % g.wsize = 0) :
    ∃ s', times (fillRow g) h s = some s' ∧
      Painted (Rows (8 * s.out + s.bit) (g.stride * g.wsize) (g.w * g.wsize) h) (paint k c)
        s.mem s'.mem := by
  have hinv := times_invariant (f := fillRow g) (n := h) (x := s)
    (I := fun r s' => 8 * s'.out + s'.bit = 8 * s.out + s.bit + r * (g.stride * g.wsize) ∧
      s'.bit < 32 ∧ s'.out % 4 = 0 ∧
      Painted (Rows (8 * s.out + s.bit) (g.stride * g.wsize) (g.w * g.wsize) r) (paint k c)
        s.mem s'.mem)
    ⟨by simp, hbit, hout, .refl fun _ => not_rows_zero⟩ ?_
  · obtain ⟨s', hs, -, -, -, hpaint⟩ := hinv
    exact ⟨s', hs, hpaint⟩
  · rintro r s1 - ⟨hpos1, hbit1, hout1, hpaint⟩
    have halign1 : (8 * s1.out + s1.bit) % g.wsize = 0 := by
      rw [hpos1, ← Nat.mul_assoc, Nat.add_mul_mod_self_right, halign]
    obtain ⟨s2, hs2, hpos2, hbit2, hout2, hpaint2⟩ :=
      fillRow_painted hg h8 hbit1 hout1 halign1
    have hnext : 8 * s2.out + s2.bit = 8 * s.out + s.bit + (r + 1) * (g.stride * g.wsize) := by
      rw [hpos2, hpos1]
      ring
    refine ⟨s2, hs2, hnext, hbit2, hout2, ?_⟩
    rw [hpos1] at hpaint2
    exact hpaint.trans hpaint2 fun i => rows_succ

end Row

/-! ## The whole rectangle -/

/-- Where the code looks for the first pixel, in bytes or in bits. -/
def Wide.offset (g : Wide) (y : Nat) : Nat :=
  (y * g.stride + g.x) * if 8 ≤ g.wsize then g.wsize / 8 else g.wsize

theorem Wide.offset_le {g : Wide} {y : Nat} : g.offset y ≤ (y * g.stride + g.x) * g.wsize := by
  refine Nat.mul_le_mul_left _ ?_
  split_ifs
  · exact Nat.div_le_self _ _
  · exact le_refl _

theorem offset_lt {data y h : Nat} {g : Wide} (hfill : fillWide data y h g mem = some mem') :
    g.offset y < 2 ^ 31 := by
  unfold fillWide Wide.offset at *
  split_ifs at hfill ⊢ <;>
    simp only [bind, Option.bind_eq_some_iff, int_eq_some] at hfill
  · obtain ⟨out, ⟨hlt, -⟩, -⟩ := hfill
    exact hlt
  · obtain ⟨bit, ⟨hlt, -⟩, -⟩ := hfill
    exact hlt

theorem fillWide_painted (mem : Memory) (h : Nat) {k data y : Nat} {c : BitVec 32} {g : Wide}
    (hg : Colored k c g)
    (hdata : data % 4 = 0) (hoff : g.offset y < 2 ^ 31) :
    ∃ mem', fillWide data y h g mem = some mem' ∧
      Painted (Rows (8 * data + (y * g.stride + g.x) * g.wsize) (g.stride * g.wsize)
        (g.w * g.wsize) h) (paint k c) mem mem' := by
  obtain ⟨d, rfl⟩ : ∃ d, data = 4 * d := ⟨data / 4, by omega⟩
  have halign : (8 * (4 * d) + (y * g.stride + g.x) * g.wsize) % g.wsize = 0 := by
    apply Nat.mod_eq_zero_of_dvd
    rw [← Nat.mul_assoc]
    exact Nat.dvd_add (hg.dvd.mul_right d) (Nat.dvd_mul_left _ _)
  unfold fillWide Wide.offset at *
  split_ifs at hoff ⊢ with h8
  · have hptr : 8 * (4 * d + (y * g.stride + g.x) * (g.wsize / 8)) =
        8 * (4 * d) + (y * g.stride + g.x) * g.wsize := by
      have hdiv : 8 * (g.wsize / 8) = g.wsize := by
        have hcases := dvd_32 hg.dvd
        omega
      rw [Nat.mul_add, Nat.mul_left_comm 8 (_ + _), hdiv]
    rw [← hptr] at halign ⊢
    obtain ⟨s, hs, hpaint⟩ := fillWords_painted mem hg h8 h halign
    exact ⟨s.1, by simp only [bind, int_eq_some.2 ⟨hoff, rfl⟩, Option.bind_some, hs], hpaint⟩
  · generalize (y * g.stride + g.x) * g.wsize = bit at *
    have hpos : 8 * (4 * d + 4 * (bit / 32)) + bit % 32 = 8 * (4 * d) + bit := by omega
    rw [← hpos] at halign ⊢
    obtain ⟨s, hs, hpaint⟩ := fillRows_painted (h := h)
      (s := ⟨mem, 0, 4 * d + 4 * (bit / 32), bit % 32⟩) hg (by omega) (by dsimp only; omega)
      (by dsimp only; omega) halign
    exact ⟨s.mem, by simp only [bind, int_eq_some.2 ⟨hoff, rfl⟩, Option.bind_some, hs], hpaint⟩

/-- Nothing is painted of a rectangle without pixels. -/
theorem fillWide_empty {data y h : Nat} {g : Wide} (hg : g.w = 0 ∨ h = 0)
    (hoff : g.offset y < 2 ^ 31) : fillWide data y h g mem = some mem := by
  unfold fillWide Wide.offset at *
  split_ifs at hoff ⊢ with h8
  · obtain ⟨s, hs, hinv⟩ := times_invariant (f := fillWords g) (n := h)
      (x := (mem, data + (y * g.stride + g.x) * (g.wsize / 8))) (I := fun _ s => s.1 = mem) rfl
      fun r s hr hmem => ⟨_, rfl, by
        obtain hw | rfl := hg
        · rw [hw]
          exact hmem
        · exact absurd hr (Nat.not_lt_zero r)⟩
    simp only [bind, int_eq_some.2 ⟨hoff, rfl⟩, Option.bind_some, hs, hinv]
  · obtain ⟨s, hs, hinv⟩ := times_invariant (f := fillRow g) (n := h)
      (x := ⟨mem, 0, data + 4 * ((y * g.stride + g.x) * g.wsize / 32),
        (y * g.stride + g.x) * g.wsize % 32⟩) (I := fun _ s => s.mem = mem) rfl
      fun r s hr hmem => by
        obtain hw | rfl := hg
        · refine ⟨_, by simp only [fillRow, hw, times, bind, Option.bind_some]; rfl, ?_⟩
          exact (Cursor.flush_load s).trans hmem
        · exact absurd hr (Nat.not_lt_zero r)
    simp only [bind, int_eq_some.2 ⟨hoff, rfl⟩, Option.bind_some, hs, hinv]

/-- Of pixels of 24 bits, bytes are filled, and not behind the first third of the last row. -/
theorem fillWide_behind {data y h i : Nat} {g : Wide} (hg : g.wsize = 24 ∨ g.wsize = 48)
    (hi : 8 * data + (y * g.stride + g.x) * g.wsize + (h - 1) * (g.stride * g.wsize) + 8 * g.w ≤ i)
    (hfill : fillWide data y h g mem = some mem') : bit mem' i = bit mem i := by
  rw [fillWide, if_pos (by omega)] at hfill
  simp only [bind, Option.bind_eq_some_iff, int_eq_some, Option.some.injEq] at hfill
  obtain ⟨out, ⟨-, rfl⟩, s, hs, rfl⟩ := hfill
  have h8 : 8 * (g.wsize / 8) = g.wsize := by omega
  have he : element g.wsize = 1 := by
    unfold element
    split_ifs <;> omega
  have hinv := times_invariant (f := fillWords g) (n := h)
    (x := (mem, data + (y * g.stride + g.x) * (g.wsize / 8)))
    (I := fun r s => s.2 = data + (y * g.stride + g.x) * (g.wsize / 8) +
      r * (g.stride * (g.wsize / 8)) ∧ bit s.1 i = bit mem i) ⟨by simp, rfl⟩ ?_
  · obtain ⟨s', hs', -, hbit⟩ := hinv
    rw [hs] at hs'
    cases hs'
    exact hbit
  · rintro r s hr ⟨hp, hbit⟩
    refine ⟨_, rfl, by dsimp only; rw [hp]; ring, ?_⟩
    dsimp only
    rw [putAll_outside, hbit]
    right
    rw [length_le, he, Nat.mul_one, hp]
    have hstart : 8 * ((y * g.stride + g.x) * (g.wsize / 8)) = (y * g.stride + g.x) * g.wsize := by
      rw [Nat.mul_left_comm, h8]
    have hrow : 8 * (r * (g.stride * (g.wsize / 8))) = r * (g.stride * g.wsize) := by
      rw [Nat.mul_left_comm, Nat.mul_left_comm 8 g.stride, h8]
    have hle : r * (g.stride * g.wsize) ≤ (h - 1) * (g.stride * g.wsize) :=
      Nat.mul_le_mul_right _ (by omega)
    omega

namespace Instance

variable {fb : Instance} {x y w h : Nat} {color : BitVec 32}

/-- Filling is setting each pixel: it leaves the memory as that would, changes no other pixel, and the pixels
read the colour. -/
def Fills (fb : Instance) (x y w h : Nat) (color : BitVec 32) (mem : Memory) : Prop :=
  ∃ mem', fb.fill x y w h fb.format color mem = some mem' ∧
    fb.setPixels color (pixels x y w h) mem = some mem' ∧
    (∀ px py, px < fb.width → py < fb.height → ¬ InRect x y w h px py →
      fb.getPixel px py mem' = fb.getPixel px py mem) ∧
    ∀ px py, InRect x y w h px py →
      fb.getPixel px py mem' = some (color &&& mask fb.format.wordsize)

/-- Where the code looks for the first pixel fits an `int`. -/
def Starts (fb : Instance) (x y w h : Nat) (color : BitVec 32) : Prop :=
  (fb.wide x (if w = fb.width then w * h else w) color).offset y < 2 ^ 31

theorem wide_same (x w : Nat) (color : BitVec 32) :
    (fb.wide x w color).w * (fb.wide x w color).wsize = w * fb.format.wordsize ∧
      (fb.wide x w color).stride * (fb.wide x w color).wsize = fb.width * fb.format.wordsize ∧
      ∀ y, (y * (fb.wide x w color).stride + (fb.wide x w color).x) * (fb.wide x w color).wsize =
        (fb.width * y + x) * fb.format.wordsize := by
  obtain ⟨hw, hx, hs⟩ := widen_same ⟨fb.format.wordsize, w, x, fb.width,
    color &&& mask fb.format.wordsize, fb.format.wordsize_pos⟩
  refine ⟨hw, hs, fun y => ?_⟩
  rw [Nat.add_mul, Nat.mul_assoc, wide, hs, hx]
  ring

theorem wide_colored (hk : fb.format.wordsize ∣ 32) (x w : Nat) (color : BitVec 32) :
    Colored fb.format.wordsize color (fb.wide x w color) := by
  have hle := fb.format.wordsize_le
  apply widen_colored
  refine ⟨hk, ?_, ?_, dvd_refl _⟩
  · intro j hj
    dsimp only at hj ⊢
    rw [BitVec.getLsbD_and, getLsbD_mask hle, decide_eq_true (place_lt hj), Bool.and_true, paint,
      Nat.mod_eq_of_lt hj]
  · intro i hi
    dsimp only at hi ⊢
    rw [BitVec.getLsbD_and, getLsbD_mask hle, decide_eq_false (by omega), Bool.and_false]

variable {mem mem' : Memory}

theorem fill_own : fb.fill x y w h fb.format color mem =
    if w = fb.width then (int (w * h)).bind fun w => fillWide fb.data y 1 (fb.wide x w color) mem
    else fillWide fb.data y h (fb.wide x w color) mem := by
  simp only [fill, ne_eq, not_true_eq_false, if_false]

/-- Rows without a gap between them are one. -/
theorem rows_merge {lo s n i : Nat} : Rows lo s s n i ↔ Rows lo s (n * s) 1 i := by
  rw [rows_iff_span, rows_succ]
  simp only [Nat.zero_mul, Nat.add_zero, or_iff_right not_rows_zero]

theorem fill_painted (mem : Memory) (hk : fb.format.wordsize ∣ 32) (hint : w = fb.width → w * h < 2 ^ 31)
    (hstart : fb.Starts x y w h color) :
    ∃ mem', fb.fill x y w h fb.format color mem = some mem' ∧
      Painted (fb.Region x y w h) (paint fb.format.wordsize color) mem mem' := by
  have hwide : ∀ (w h : Nat), (fb.wide x w color).offset y < 2 ^ 31 →
      ∃ mem', fillWide fb.data y h (fb.wide x w color) mem = some mem' ∧
        Painted (Rows (fb.bitOf x y) (fb.width * fb.format.wordsize) (w * fb.format.wordsize) h)
          (paint fb.format.wordsize color) mem mem' := by
    intro w h hoff
    obtain ⟨hw, hs, hb⟩ := fb.wide_same x w color
    obtain ⟨m, hm, hpaint⟩ :=
      fillWide_painted mem h (fb.wide_colored hk x w color) fb.aligned hoff
    rw [hw, hs, hb] at hpaint
    exact ⟨m, hm, hpaint⟩
  rw [fill_own]
  unfold Starts at hstart
  split_ifs at hstart ⊢ with hfull
  · obtain ⟨m, hm, hpaint⟩ := hwide _ 1 hstart
    rw [int_eq_some.2 ⟨hint hfull, rfl⟩, Option.bind_some]
    refine ⟨m, hm, hpaint.congr fun i => ?_⟩
    rw [region_iff_rows, hfull, rows_merge, ← Nat.mul_assoc, Nat.mul_comm h]
  · obtain ⟨m, hm, hpaint⟩ := hwide _ h hstart
    exact ⟨m, hm, hpaint.congr fun i => region_iff_rows⟩

/-- A width and a height of 16 bits have no such power of two as their product. -/
theorem mul_ne_two_pow {a b : Nat} (ha : a < 2 ^ 16) (hb : b < 2 ^ 16) : a * b ≠ 2 ^ 31 := by
  intro h
  obtain ⟨i, hi, rfl⟩ := (Nat.dvd_prime_pow Nat.prime_two).1 ⟨b, h.symm⟩
  have hlt : i < 16 := (Nat.pow_lt_pow_iff_right (by decide)).1 ha
  have hle : 2 ^ i * b ≤ 2 ^ 15 * b :=
    Nat.mul_le_mul_right b (Nat.pow_le_pow_right (by decide) (by omega))
  omega

theorem Counted.mul_lt (hc : fb.Counted x y w h) (hx : x + w ≤ fb.width) (hy : y + h ≤ fb.height)
    (hpos : 0 < h) (hw : w = fb.width) : w * h < 2 ^ 31 := by
  have hk := fb.wordsize_pos
  have hne := mul_ne_two_pow fb.width16 (lt_of_le_of_lt (Nat.le_add_left h y |>.trans hy) fb.height16)
  have hlast : fb.width * (y + h - 1) + (x + w - 1) < 2 ^ 31 :=
    lt_of_le_of_lt (Nat.le_mul_of_pos_right _ hk) hc
  obtain ⟨n, hn⟩ : ∃ n, h = n + 1 := ⟨h - 1, by omega⟩
  have hrow : fb.width * n ≤ fb.width * (y + h - 1) := Nat.mul_le_mul_left _ (by omega)
  have hmul : fb.width * h = fb.width * n + fb.width := by rw [hn, Nat.mul_succ]
  rw [hw]
  omega

theorem Counted.starts (hc : fb.Counted x y w h) (color : BitVec 32) (hw : 0 < w) (hh : 0 < h) :
    fb.Starts x y w h color := by
  have hlt : (fb.width * y + x) * fb.format.wordsize < 2 ^ 31 :=
    hc.lt ⟨le_refl x, by omega, le_refl y, by omega⟩
  rw [← (fb.wide_same x (if w = fb.width then w * h else w) color).2.2 y] at hlt
  exact lt_of_le_of_lt Wide.offset_le hlt

theorem fills_of_counted (hk : fb.format.wordsize ∣ 32) (hc : fb.Counted x y w h)
    (hx : x + w ≤ fb.width) (hy : y + h ≤ fb.height) (hw : 0 < w) (hh : 0 < h) :
    fb.Fills x y w h color mem := by
  obtain ⟨m, hm, hpaint⟩ := fill_painted mem hk (hc.mul_lt hx hy hh)
    (hc.starts color hw hh)
  obtain ⟨m', hm', hpaint'⟩ := setPixels_painted mem color hk
    fun p (hp : p ∈ pixels x y w h) => hc.lt (mem_pixels.1 hp)
  have heq : m = m' := by
    refine hpaint.unique (hpaint'.congr fun i => ?_)
    constructor
    · rintro ⟨px, py, hin, hi⟩
      exact ⟨(px, py), mem_pixels.2 hin, hi⟩
    · rintro ⟨p, hp, hi⟩
      exact ⟨p.1, p.2, mem_pixels.1 hp, hi⟩
  subst heq
  refine ⟨m, hm, hm', ?_, ?_⟩
  · intro px py hpx _ hout
    refine getPixel_same fun t ht => hpaint.outside _ ?_
    rwa [region_bitOf hx hpx ht]
  · intro px py hin
    obtain ⟨v, hv⟩ := getPixel_isSome m hk (hc.lt hin)
    rw [hv, getPixel_painted hk hv fun t ht => hpaint.inside _ ?_]
    exact (region_bitOf hx (by have := hin.2.1; omega) ht).2 hin

theorem fills_of_empty (hempty : w = 0 ∨ h = 0) (hstart : fb.Starts x y w h color) :
    fb.Fills x y w h color mem := by
  have hfill : fb.fill x y w h fb.format color mem = some mem := by
    have hzero : (fb.wide x 0 color).w = 0 := by
      have hw := (fb.wide_same x 0 color).1
      rw [Nat.zero_mul] at hw
      exact (Nat.mul_eq_zero.1 hw).resolve_right (fb.wide x 0 color).pos.ne'
    have hmul : w * h = 0 := by
      obtain rfl | rfl := hempty
      · exact Nat.zero_mul h
      · exact Nat.mul_zero w
    rw [fill_own]
    unfold Starts at hstart
    split_ifs at hstart ⊢ with hfull
    · rw [hmul] at hstart ⊢
      exact fillWide_empty (.inl hzero) hstart
    · refine fillWide_empty (hempty.imp ?_ id) hstart
      rintro rfl
      exact hzero
  have hpixels : pixels x y w h = [] := by
    obtain rfl | rfl := hempty <;> simp [pixels]
  refine ⟨mem, hfill, by rw [hpixels]; rfl, fun _ _ _ _ _ => rfl, ?_⟩
  rintro px py ⟨hx, hxw, hy, hyh⟩
  omega

/-- Three bytes of a pixel take more than the byte that is filled. -/
theorem not_fills_bytes (h24 : fb.format.wordsize = 24) (hx : x + w ≤ fb.width) (hw : 0 < w)
    (hh : 0 < h) : ¬ ∀ mem, fb.Fills x y w h color mem := by
  intro hall
  obtain ⟨mem', hfill, -, -, hread⟩ := hall (ofBits fun _ => !color.getLsbD 0)
  have hlast := hread (x + w - 1) (y + h - 1) ⟨by omega, by omega, by omega, by omega⟩
  have hbit := getPixel_bits hlast (i := 0) (by omega)
  have hplace : place fb.format.wordsize 0 = 23 := by rw [h24]; rfl
  have hle := fb.format.wordsize_le
  rw [BitVec.getLsbD_and, getLsbD_mask hle, decide_eq_true (by omega), Bool.and_true, hplace] at hbit
  have hkeep : bit mem' (fb.bitOf (x + w - 1) (y + h - 1) + 23) = !color.getLsbD 0 := by
    have hwide : ∀ w' h', fillWide fb.data y h' (fb.wide x w' color)
        (ofBits fun _ => !color.getLsbD 0) = some mem' →
        8 * fb.data + (fb.width * y + x) * 24 + (h' - 1) * (fb.width * 24) + 8 * w' ≤
          fb.bitOf (x + w - 1) (y + h - 1) + 23 →
        bit mem' (fb.bitOf (x + w - 1) (y + h - 1) + 23) = !color.getLsbD 0 := by
      intro w' h' hfill hle
      obtain ⟨hw', hs', hb'⟩ := fb.wide_same x w' color
      have hsize : (fb.wide x w' color).wsize = 24 ∨ (fb.wide x w' color).wsize = 48 :=
        widen_bytes _ (.inl h24)
      rw [h24] at hw' hs' hb'
      rw [fillWide_behind hsize ?_ hfill, bit_ofBits]
      rw [hb', hs']
      have hw8 : 8 * (fb.wide x w' color).w ≤ 8 * w' := by
        rcases hsize with he | he <;> rw [he] at hw' <;> omega
      omega
    have hlastbit : fb.bitOf (x + w - 1) (y + h - 1) =
        8 * fb.data + (fb.width * y + x) * 24 + (h - 1) * (fb.width * 24) + (w - 1) * 24 := by
      rw [Nat.add_sub_assoc hw, Nat.add_sub_assoc hh, bitOf_add, bitOf, h24]
    rw [fill_own] at hfill
    split_ifs at hfill with hfull
    · obtain ⟨n, hn, hfill⟩ := Option.bind_eq_some_iff.1 hfill
      obtain ⟨-, rfl⟩ := int_eq_some.1 hn
      refine hwide _ 1 hfill ?_
      obtain ⟨n, rfl⟩ : ∃ n, h = n + 1 := ⟨h - 1, by omega⟩
      have hrow : (n + 1 - 1) * (fb.width * 24) = 24 * (fb.width * n) := by
        rw [Nat.add_sub_cancel]
        ring
      have hmul : fb.width * (n + 1) = fb.width * n + fb.width := Nat.mul_succ _ _
      rw [hlastbit, hrow, hfull, hmul]
      omega
    · refine hwide _ h hfill ?_
      rw [hlastbit]
      omega
  rw [hkeep] at hbit
  simp at hbit

/-- For every framebuffer, rectangle in it and colour: the property holds for every content of the memory
exactly if the pixels do not have 24 bits and their bits are counted by an `int`, or there are none. -/
theorem fill_iff (fb : Instance) (x y w h : Nat) (color : BitVec 32) (hx : x + w ≤ fb.width)
    (hy : y + h ≤ fb.height) :
    (∀ mem, fb.Fills x y w h color mem) ↔
      if w = 0 ∨ h = 0 then fb.Starts x y w h color
      else fb.format.wordsize ≠ 24 ∧ fb.Counted x y w h := by
  split_ifs with hempty
  · constructor
    · intro hall
      obtain ⟨mem', hfill, -⟩ := hall fun _ => 0
      rw [fill_own] at hfill
      unfold Starts
      split_ifs at hfill ⊢ with hfull
      · obtain ⟨n, hn, hfill⟩ := Option.bind_eq_some_iff.1 hfill
        obtain ⟨-, rfl⟩ := int_eq_some.1 hn
        exact offset_lt hfill
      · exact offset_lt hfill
    · intro hstart mem
      exact fills_of_empty hempty hstart
  · obtain ⟨hw, hh⟩ := not_or.1 hempty
    constructor
    · intro hall
      refine ⟨fun h24 => not_fills_bytes h24 hx (by omega) (by omega) hall, ?_⟩
      obtain ⟨mem', -, -, -, hread⟩ := hall fun _ => 0
      have hlast := hread (x + w - 1) (y + h - 1) ⟨by omega, by omega, by omega, by omega⟩
      exact (getPixel_eq_some.1 hlast).1
    · rintro ⟨h24, hc⟩ mem
      exact fills_of_counted (fb.format.wordsize_dvd_iff.2 h24) hc hx hy (by omega) (by omega)

/-- Four of the eight pixels in each of two rows. -/
theorem fills_half :
    Instance.Fills ⟨8, 2, .i1, 0, by decide, by decide, rfl⟩ 2 0 4 2 1 fun _ => 0 := by
  refine (fill_iff ⟨8, 2, .i1, 0, by decide, by decide, rfl⟩ 2 0 4 2 1 (by decide) (by decide)).2 ?_ _
  rw [if_neg (by decide)]
  exact ⟨by decide, by unfold Counted; decide⟩

/-- One pixel of three bytes. -/
theorem fills_third : ¬ ∀ (fb : Instance) (x y w h : Nat) (color : BitVec 32), x + w ≤ fb.width →
    y + h ≤ fb.height → ∀ mem, fb.Fills x y w h color mem := by
  intro hall
  have hnot : ¬ ∀ mem, Instance.Fills ⟨1, 1, .r8g8b8BE, 0, by decide, by decide, rfl⟩ 0 0 1 1
      0x010101 mem := not_fills_bytes rfl (by decide) (by decide) (by decide)
  exact hnot (hall _ 0 0 1 1 0x010101 (by decide) (by decide))

end Instance

end Framebuffer
end Freemyipod
