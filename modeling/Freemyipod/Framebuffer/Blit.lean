import Freemyipod.Framebuffer.Fill

/-!
# Framebuffer.Blit

Copying a rectangle from one framebuffer to another (`framebuffer_blit`).

* `widenCopy`: pixels are taken two at a time while everything is even.
* `copyBytes`, `copyRow`: a row of whole bytes, and one of narrower pixels.
* `blit`: the function. `copyRows_copied`: what the narrow pixels leave.
* `blit_iff`: for every two framebuffers of a format, when copying copies each pixel.
-/

namespace Freemyipod
namespace Framebuffer

open Bits Bytes

/-- What `framebuffer_blit` widens. -/
structure Copy where
  inwsize : Nat
  outwsize : Nat
  w : Nat
  inx : Nat
  outx : Nat
  instride : Nat
  outstride : Nat
  pos : 0 < inwsize

def Copy.double (g : Copy) : Copy where
  inwsize := 2 * g.inwsize
  outwsize := 2 * g.outwsize
  w := g.w / 2
  inx := g.inx / 2
  outx := g.outx / 2
  instride := g.instride / 2
  outstride := g.outstride / 2
  pos := by have := g.pos; omega

/-- `while (inwsize < 32 && !(w & 1) && !(inx & 1) && !(outx & 1) && ..)` -/
@[grind =] def widenCopy (g : Copy) : Copy :=
  if g.inwsize < 32 ∧ g.w % 2 = 0 ∧ g.inx % 2 = 0 ∧ g.outx % 2 = 0 ∧ g.instride % 2 = 0 ∧
      g.outstride % 2 = 0 then widenCopy g.double else g
termination_by 32 - g.inwsize
decreasing_by
  have := g.pos
  change 32 - 2 * g.inwsize < 32 - g.inwsize
  omega

/-- The pointers of the loop over rows of whole bytes. -/
structure Pointers where
  mem : Memory
  input : Nat
  out : Nat

/-- `memcpy` is `memmove`. -/
def copyBytes (g : Copy) (s : Pointers) : Option Pointers :=
  some ⟨put s.mem s.out (bytes s.mem s.input (g.w * (g.outwsize / 8))),
    (s.input + ((g.instride : Int) - g.w) * (g.inwsize / 8 : Nat)).toNat,
    (s.out + ((g.outstride : Int) - g.w) * (g.outwsize / 8 : Nat)).toNat⟩

/-- The loop over narrower pixels: `idata` has been read from the word at `input`, and its highest bit is the
bit `inbit` there. -/
structure CopyCursor extends Cursor where
  idata : BitVec 32
  input : Nat
  inbit : Nat

/-- `if (inbit == 32)` -/
def CopyCursor.fetch (s : CopyCursor) : CopyCursor :=
  if s.inbit = 32 then
    { s with idata := swap32 (load32 s.mem (s.input + 4)), input := s.input + 4, inbit := 0 }
  else s

def copyPixel (infmt outfmt : Format) (g : Copy) (s : CopyCursor) : Option CopyCursor := do
  let s := s.fetch
  let idata := s.idata <<< g.inwsize ||| s.idata >>> (32 - g.inwsize)
  let data := idata &&& mask g.inwsize
  let data := if infmt ≠ outfmt then convertColor infmt outfmt data else data
  let o ← writePixel g.outwsize data s.toCursor
  some { toCursor := o, idata, input := s.input, inbit := s.inbit + g.inwsize }

@[grind =] def copyRow (infmt outfmt : Format) (g : Copy) (s : CopyCursor) : Option CopyCursor := do
  let s ← times (copyPixel infmt outfmt g) g.w
    { s with
      idata := swap32 (load32 s.mem s.input) <<< s.inbit
      data := swap32 (load32 s.mem s.out) }
  let inbit : Int := s.inbit + ((g.instride : Int) - g.w) * g.inwsize
  let bit : Int := s.bit + ((g.outstride : Int) - g.w) * g.outwsize
  some
    { mem := s.flush
      data := s.data
      out := (s.out + 4 * (bit / 32)).toNat
      bit := (bit % 32).toNat
      idata := s.idata
      input := (s.input + 4 * (inbit / 32)).toNat
      inbit := (inbit % 32).toNat }

/-- What is left of `framebuffer_blit` once it has widened. -/
def copyWide (infb outfb : Instance) (iny outy h : Nat) (g : Copy) (mem : Memory) :
    Option Memory :=
  if infb.format = outfb.format ∧ 8 ≤ g.inwsize then do
    let input ← int ((iny * g.instride + g.inx) * (g.inwsize / 8))
    let out ← int ((outy * g.outstride + g.outx) * (g.outwsize / 8))
    let s ← times (copyBytes g) h ⟨mem, infb.data + input, outfb.data + out⟩
    some s.mem
  else do
    let inbit ← int ((iny * g.instride + g.inx) * g.inwsize)
    let outbit ← int ((outy * g.outstride + g.outx) * g.outwsize)
    let s ← times (copyRow infb.format outfb.format g) h
      { mem
        data := 0
        out := outfb.data + 4 * (outbit / 32)
        bit := outbit % 32
        idata := 0
        input := infb.data + 4 * (inbit / 32)
        inbit := inbit % 32 }
    some s.mem

/-- The rectangles, widened if the formats are the same. -/
@[grind =] def copyOf (infb outfb : Instance) (inx outx w : Nat) : Copy :=
  let g : Copy := ⟨infb.format.wordsize, outfb.format.wordsize, w, inx, outx, infb.width, outfb.width,
    infb.wordsize_pos⟩
  if infb.format = outfb.format then widenCopy g else g

/-- `framebuffer_blit` -/
def blit (infb : Instance) (inx iny : Nat) (outfb : Instance) (outx outy w h : Nat) (mem : Memory) :
    Option Memory :=
  if w = infb.width ∧ w = outfb.width then
    (int (w * h)).bind fun w => copyWide infb outfb iny outy 1 (copyOf infb outfb inx outx w) mem
  else copyWide infb outfb iny outy h (copyOf infb outfb inx outx w) mem

/-! ## Widening -/

/-- The widened pixels are in the same place, and both of the same size. -/
structure SameCopy (g g' : Copy) : Prop where
  size : g'.outwsize = g'.inwsize
  dvd : g'.inwsize ∣ 32
  w : g'.w * g'.inwsize = g.w * g.inwsize
  inx : g'.inx * g'.inwsize = g.inx * g.inwsize
  outx : g'.outx * g'.inwsize = g.outx * g.inwsize
  instride : g'.instride * g'.inwsize = g.instride * g.inwsize
  outstride : g'.outstride * g'.inwsize = g.outstride * g.inwsize

theorem widenCopy_same (g : Copy) (hsize : g.outwsize = g.inwsize) (hdvd : g.inwsize ∣ 32) :
    SameCopy g (widenCopy g) := by
  induction g using widenCopy.induct with
  | case1 g h ih =>
    rw [widenCopy, if_pos h]
    obtain ⟨hlt, hw, hix, hox, his, hos⟩ := h
    have hdouble : 2 * g.inwsize ∣ 32 := by
      rcases dvd_32 hdvd with he | he | he | he | he | he <;> rw [he] at hlt ⊢ <;> omega
    have hih := ih (congrArg (2 * ·) hsize) hdouble
    exact ⟨hih.size, hih.dvd, hih.w.trans (mul_double hw), hih.inx.trans (mul_double hix),
      hih.outx.trans (mul_double hox), hih.instride.trans (mul_double his),
      hih.outstride.trans (mul_double hos)⟩
  | case2 g h =>
    rw [widenCopy, if_neg h]
    exact ⟨hsize, hdvd, rfl, rfl, rfl, rfl, rfl⟩

/-! ## Rows of narrow pixels -/

theorem getMsbD_rotate {x : BitVec 32} {k t : Nat} (h : t + k < 32) :
    (x <<< k ||| x >>> (32 - k)).getMsbD t = x.getMsbD (t + k) := by
  have hlt : t < 32 := by omega
  have hsh : t < 32 - k := by omega
  simp [hlt, hsh]

theorem getLsbD_rotate {x : BitVec 32} {k b : Nat} (hk : k ≤ 32) (hb : b < k) :
    (x <<< k ||| x >>> (32 - k)).getLsbD b = x.getMsbD (k - 1 - b) := by
  have hlt : k - 1 - b < 32 := by omega
  have hi : 32 - 1 - (k - 1 - b) = 32 - k + b := by omega
  simp [BitVec.getMsbD_eq_getLsbD, hb, hlt, hi]

/-- After `j` of the pixels of a row, which is read from the bit `p` of the memory on and written to `q`. -/
structure CopyInv (k p q W : Nat) (m : Memory) (j : Nat) (s : CopyCursor) : Prop where
  input : 8 * s.input + s.inbit = p + j * k
  inbit : s.inbit ≤ 32
  inalign : s.input % 4 = 0
  out : 8 * s.out + s.bit = q + j * k
  bit : s.bit < 32
  outalign : s.out % 4 = 0
  idata : ∀ t, s.inbit + t < 32 → j * k + t < W →
    s.idata.getMsbD t = Bits.bit m (p + j * k + t)
  kept : ∀ i, ¬ Span q (q + W) i → Bits.bit s.mem i = Bits.bit m i
  painted : Painted (Span q (q + j * k)) (fun i => Bits.bit m (p + (i - q))) m s.flush

section CopyRow

variable {k p q W : Nat} {m : Memory} {j : Nat} {s : CopyCursor} {g : Copy}

theorem CopyInv.fetch (hinv : CopyInv k p q W m j s)
    (hdisj : ∀ i, Span p (p + W) i → ¬ Span q (q + W) i) :
    CopyInv k p q W m j s.fetch ∧ s.fetch.inbit < 32 := by
  unfold CopyCursor.fetch
  split_ifs with hend
  · refine ⟨⟨?_, Nat.zero_le _, ?_, hinv.out, hinv.bit, hinv.outalign, ?_, hinv.kept, hinv.painted⟩,
      Nat.succ_pos 31⟩
    · have hin := hinv.input
      dsimp only
      omega
    · have hin := hinv.inalign
      dsimp only
      omega
    · intro t ht hW
      have hin := hinv.input
      have hpos : 8 * (s.input + 4) + t = p + j * k + t := by omega
      dsimp only at ht ⊢
      rw [getMsbD_load32 (by omega), hpos]
      exact hinv.kept _ (hdisj _ ⟨by omega, by omega⟩)
  · exact ⟨hinv, lt_of_le_of_ne hinv.inbit hend⟩

theorem copyPixel_inv {f : Format} (hk : k ∣ 32) (h8 : k < 8) (hin : g.inwsize = k)
    (hout : g.outwsize = k) (hp : p % k = 0) (hq : q % k = 0) (hj : (j + 1) * k ≤ W)
    (hdisj : ∀ i, Span p (p + W) i → ¬ Span q (q + W) i) (hinv : CopyInv k p q W m j s) :
    ∃ s', copyPixel f f g s = some s' ∧ CopyInv k p q W m (j + 1) s' := by
  obtain ⟨hinv, hbit⟩ := hinv.fetch hdisj
  have hpos : 0 < k := Nat.pos_of_dvd_of_pos hk (by decide)
  have hmul : (j + 1) * k = j * k + k := Nat.succ_mul j k
  rw [hmul] at hj
  unfold copyPixel
  rw [hin, hout]
  generalize s.fetch = s at *
  have hinle : s.inbit + k ≤ 32 := by
    refine bit_add_le hk hbit hinv.inalign ?_
    rw [hinv.input, Nat.add_mul_mod_self_right, hp]
  have houtle : s.bit + k ≤ 32 := by
    refine bit_add_le hk hinv.bit hinv.outalign ?_
    rw [hinv.out, Nat.add_mul_mod_self_right, hq]
  have hwrite := writePixel_painted (f := fun i => Bits.bit m (p + (i - q))) (s := s.toCursor)
    (c := (s.idata <<< k ||| s.idata >>> (32 - k)) &&& mask k) hpos houtle ?_ ?_
  · obtain ⟨o, ho, hpos', hbit', halign', hmem', hpaint'⟩ := hwrite
    refine ⟨⟨o, s.idata <<< k ||| s.idata >>> (32 - k), s.input, s.inbit + k⟩, ?_, ?_⟩
    · simp only [ne_eq, not_true_eq_false, if_false, bind, ho, Option.bind_some]
    · have hflush : ∀ i, ¬ Span q (q + W) i → Bits.bit o.flush i = Bits.bit m i := by
        intro i hi
        rw [hpaint'.outside, hinv.painted.outside]
        · exact fun h => hi ⟨h.1, by have := h.2; omega⟩
        · rw [hinv.out]
          exact fun h => hi ⟨by have := h.1; omega, by have := h.2; omega⟩
      constructor
      · have hin := hinv.input
        dsimp only
        omega
      · exact hinle
      · exact hinv.inalign
      · dsimp only
        rw [hpos', hinv.out, hmul, Nat.add_assoc]
      · exact hbit'
      · exact halign'.trans hinv.outalign
      · intro t ht hW
        dsimp only at ht ⊢
        rw [hmul] at hW ⊢
        rw [getMsbD_rotate (by omega), hinv.idata (t + k) (by omega) (by omega)]
        congr 1
        omega
      · intro i hi
        rcases hmem' with he | he
        · rw [he]
          exact hinv.kept i hi
        · rw [he]
          exact hflush i hi
      · refine hinv.painted.trans hpaint' fun i => ?_
        rw [hinv.out, hmul]
        simp only [Span]
        omega
  · intro i hi
    rw [BitVec.getLsbD_and, getLsbD_mask (by omega), decide_eq_false (by omega), Bool.and_false]
  · intro t ht
    have hlt : k - 1 - t < k := by omega
    have hback : k - 1 - (k - 1 - t) = t := by omega
    have hsrc : p + (8 * s.out + s.bit + t - q) = p + j * k + t := by
      have hpos := hinv.out
      omega
    rw [BitVec.getLsbD_and, getLsbD_mask (by omega), decide_eq_true hlt, Bool.and_true,
      getLsbD_rotate (by omega) hlt, hback, hsrc]
    exact hinv.idata t (by omega) (by omega)

/-- A row is copied to a place that does not overlap it. -/
theorem copyRow_painted {f : Format} (hk : k ∣ 32) (h8 : k < 8) (hin : g.inwsize = k)
    (hout : g.outwsize = k) (hp : 8 * s.input + s.inbit = p) (hq : 8 * s.out + s.bit = q)
    (hpk : p % k = 0) (hqk : q % k = 0) (hinbit : s.inbit < 32) (hbit : s.bit < 32)
    (hinalign : s.input % 4 = 0) (houtalign : s.out % 4 = 0)
    (hdisj : ∀ i, Span p (p + g.w * k) i → ¬ Span q (q + g.w * k) i) :
    ∃ s', copyRow f f g s = some s' ∧ 8 * s'.input + s'.inbit = p + g.instride * k ∧
      s'.inbit < 32 ∧ s'.input % 4 = 0 ∧ 8 * s'.out + s'.bit = q + g.outstride * k ∧
      s'.bit < 32 ∧ s'.out % 4 = 0 ∧
      Painted (Span q (q + g.w * k)) (fun i => Bits.bit s.mem (p + (i - q))) s.mem s'.mem := by
  have hloop := times_invariant (f := copyPixel f f g) (n := g.w)
    (x := { s with
      idata := swap32 (load32 s.mem s.input) <<< s.inbit
      data := swap32 (load32 s.mem s.out) })
    (I := CopyInv k p q (g.w * k) s.mem) ?_ ?_
  · obtain ⟨s1, hs1, hinv⟩ := hloop
    have hmul : ∀ S : Nat, ((S : Int) - g.w) * k = ((S * k : Nat) : Int) - (g.w * k : Nat) := by
      intro S
      push_cast
      ring
    obtain ⟨h1, h2, h3⟩ := advance (S := g.instride * k) hinv.inalign hinv.input rfl
    obtain ⟨h4, h5, h6⟩ := advance (S := g.outstride * k) hinv.outalign hinv.out rfl
    rw [← hmul] at h1 h2 h3 h4 h5 h6
    have hrow : copyRow f f g s = some ⟨⟨s1.flush, s1.data,
        (s1.out + 4 * ((s1.bit + ((g.outstride : Int) - g.w) * k) / 32)).toNat,
        ((s1.bit + ((g.outstride : Int) - g.w) * k) % 32).toNat⟩, s1.idata,
        (s1.input + 4 * ((s1.inbit + ((g.instride : Int) - g.w) * k) / 32)).toNat,
        ((s1.inbit + ((g.instride : Int) - g.w) * k) % 32).toNat⟩ := by
      simp only [copyRow, bind, hs1, Option.bind_some, hin, hout]
    exact ⟨_, hrow, h1, h2, h3, h4, h5, h6, hinv.painted⟩
  · refine ⟨by dsimp only; omega, by dsimp only; omega, hinalign, by dsimp only; omega, hbit,
      houtalign, ?_, fun _ _ => rfl, ?_⟩
    · intro t ht _
      dsimp only at ht ⊢
      have hidx : 8 * s.input + (t + s.inbit) = p + 0 * k + t := by omega
      have hword : (swap32 (load32 s.mem s.input)).getMsbD (t + s.inbit) = _ :=
        getMsbD_load32 (by omega)
      rw [BitVec.getMsbD_shiftLeft, hword, hidx]
    · have hload := Cursor.flush_load s.toCursor
      refine hload.symm ▸ .refl ?_
      rintro i ⟨hlo, hhi⟩
      omega
  · intro r x hr hinv
    exact copyPixel_inv hk h8 hin hout hpk hqk (Nat.mul_le_mul_right k hr) hdisj hinv

end CopyRow

/-! ## The rows of a rectangle -/

/-- `h` rows of `W` bits have been copied: from `I` on, `IS` apart, to `O`, `OS` apart. -/
structure Copied (I IS O OS W h : Nat) (m m' : Memory) : Prop where
  rows : ∀ r < h, ∀ t < W, bit m' (O + r * OS + t) = bit m (I + r * IS + t)
  rest : ∀ i, ¬ Rows O OS W h i → bit m' i = bit m i

section Rows

variable {I IS O OS W h R : Nat} {m m' m'' : Memory}

theorem Copied.refl : Copied I IS O OS W 0 m m :=
  ⟨fun _ hr => absurd hr (Nat.not_lt_zero _), fun _ _ => rfl⟩

theorem Copied.step (hcopied : Copied I IS O OS W R m m') (hW : 0 < R → W ≤ OS)
    (hsrc : ∀ t < W, ¬ Rows O OS W R (I + R * IS + t))
    (hrow : Painted (Span (O + R * OS) (O + R * OS + W))
      (fun i => bit m' (I + R * IS + (i - (O + R * OS)))) m' m'') :
    Copied I IS O OS W (R + 1) m m'' := by
  constructor
  · intro r hr t ht
    obtain hlt | rfl := Nat.lt_succ_iff_lt_or_eq.1 hr
    · have hle : (r + 1) * OS ≤ R * OS := Nat.mul_le_mul_right OS hlt
      rw [Nat.succ_mul] at hle
      have hW' := hW (by omega)
      rw [hrow.outside, hcopied.rows r hlt t ht]
      rintro ⟨hlo, -⟩
      omega
    · have hback : O + r * OS + t - (O + r * OS) = t := by omega
      rw [hrow.inside _ ⟨by omega, by omega⟩, hback, hcopied.rest _ (hsrc t ht)]
  · intro i hi
    rw [rows_succ, not_or] at hi
    rw [hrow.outside i hi.2, hcopied.rest i hi.1]

/-- Rows without a gap between them are copied as one. -/
theorem Copied.split (h1 : Copied I W O W (h * W) 1 m m') : Copied I W O W W h m m' := by
  constructor
  · intro r hr t ht
    have hle : (r + 1) * W ≤ h * W := Nat.mul_le_mul_right W hr
    rw [Nat.succ_mul] at hle
    have hbit := h1.rows 0 Nat.one_pos (r * W + t) (by omega)
    rwa [Nat.zero_mul, Nat.add_zero, Nat.add_zero, ← Nat.add_assoc, ← Nat.add_assoc] at hbit
  · intro i hi
    exact h1.rest i (mt Instance.rows_merge.2 hi)

theorem copyRows_copied {f : Format} {g : Copy} {s : CopyCursor} {k : Nat} (hk : k ∣ 32) (h8 : k < 8)
    (hin : g.inwsize = k) (hout : g.outwsize = k) (hI : 8 * s.input + s.inbit = I)
    (hO : 8 * s.out + s.bit = O) (hIk : I % k = 0) (hOk : O % k = 0) (hinbit : s.inbit < 32)
    (hbit : s.bit < 32) (hinalign : s.input % 4 = 0) (houtalign : s.out % 4 = 0)
    (hW : 1 < h → g.w * k ≤ g.outstride * k)
    (hdisj : ∀ i, Rows I (g.instride * k) (g.w * k) h i → ¬ Rows O (g.outstride * k) (g.w * k) h i) :
    ∃ s', times (copyRow f f g) h s = some s' ∧
      Copied I (g.instride * k) O (g.outstride * k) (g.w * k) h s.mem s'.mem := by
  have hloop := times_invariant (f := copyRow f f g) (n := h) (x := s)
    (I := fun r s' => 8 * s'.input + s'.inbit = I + r * (g.instride * k) ∧ s'.inbit < 32 ∧
      s'.input % 4 = 0 ∧ 8 * s'.out + s'.bit = O + r * (g.outstride * k) ∧ s'.bit < 32 ∧
      s'.out % 4 = 0 ∧ Copied I (g.instride * k) O (g.outstride * k) (g.w * k) r s.mem s'.mem)
    ⟨by simpa using hI, hinbit, hinalign, by simpa using hO, hbit, houtalign, .refl⟩ ?_
  · obtain ⟨s', hs, -, -, -, -, -, -, hcopied⟩ := hloop
    exact ⟨s', hs, hcopied⟩
  · rintro r s1 hr ⟨h1, h2, h3, h4, h5, h6, hcopied⟩
    have hsrc : ∀ t < g.w * k, ¬ Rows O (g.outstride * k) (g.w * k) h
        (I + r * (g.instride * k) + t) := fun t ht => hdisj _ ⟨r, hr, by omega, by omega⟩
    have hspan : ∀ i, Span (I + r * (g.instride * k)) (I + r * (g.instride * k) + g.w * k) i →
        ¬ Span (O + r * (g.outstride * k)) (O + r * (g.outstride * k) + g.w * k) i :=
      fun i hi hi' => hdisj i ⟨r, hr, hi⟩ ⟨r, hr, hi'⟩
    obtain ⟨s2, hs2, h1', h2', h3', h4', h5', h6', hpaint⟩ := copyRow_painted hk h8 hin hout h1 h4
      (by rw [← Nat.mul_assoc, Nat.add_mul_mod_self_right, hIk])
      (by rw [← Nat.mul_assoc, Nat.add_mul_mod_self_right, hOk]) h2 h5 h3 h6 hspan
    refine ⟨s2, hs2, ?_, h2', h3', ?_, h5', h6', hcopied.step (fun h0 => hW (by omega)) ?_ hpaint⟩
    · rw [h1', Nat.succ_mul, Nat.add_assoc]
    · rw [h4', Nat.succ_mul, Nat.add_assoc]
    · rintro t ht ⟨r', hr', hi⟩
      exact hsrc t ht ⟨r', by omega, hi⟩

theorem getD_bytes {a n j : Nat} (hj : j < n) : (bytes m a n).getD j 0 = m (a + j) := by
  simp [bytes, hj]

/-- A row of whole bytes. -/
theorem memcpy_painted {a b n : Nat} : Painted (Span (8 * b) (8 * b + 8 * n))
    (fun i => bit m (8 * a + (i - 8 * b))) m (put m b (bytes m a n)) := by
  constructor
  · rintro i ⟨hlo, hhi⟩
    obtain ⟨j, r, hr, rfl⟩ : ∃ j r, r < 8 ∧ i = 8 * (b + j) + r :=
      ⟨i / 8 - b, i % 8, by omega, by omega⟩
    have hj : j < n := by omega
    have hidx : 8 * a + (8 * (b + j) + r - 8 * b) = 8 * (a + j) + r := by omega
    rw [bit_put_inside (by rwa [length_bytes]) hr, getD_bytes hj, hidx, bit_add hr]
  · intro i hi
    apply bit_put_outside
    rw [length_bytes]
    simp only [Span] at hi
    omega

end Rows

/-! ## The whole rectangle -/

namespace Copy

/-- Where the code looks for the first pixels, in bytes or in bits. -/
def inOffset (g : Copy) (iny : Nat) : Nat :=
  (iny * g.instride + g.inx) * if 8 ≤ g.inwsize then g.inwsize / 8 else g.inwsize

def outOffset (g : Copy) (outy : Nat) : Nat :=
  (outy * g.outstride + g.outx) * if 8 ≤ g.inwsize then g.outwsize / 8 else g.outwsize

end Copy

section Wide

variable {infb outfb : Instance} {iny outy h : Nat} {g : Copy} {mem mem' : Memory}

theorem mod_start {data k n : Nat} (hdata : data % 4 = 0) (hk : k ∣ 32) :
    (8 * data + n * k) % k = 0 := by
  obtain ⟨d, rfl⟩ : ∃ d, data = 4 * d := ⟨data / 4, by omega⟩
  apply Nat.mod_eq_zero_of_dvd
  rw [← Nat.mul_assoc]
  exact Nat.dvd_add (hk.mul_right d) (Nat.dvd_mul_left _ _)

theorem offsets_lt (hf : infb.format = outfb.format)
    (hcopy : copyWide infb outfb iny outy h g mem = some mem') :
    g.inOffset iny < 2 ^ 31 ∧ g.outOffset outy < 2 ^ 31 := by
  unfold copyWide Copy.inOffset Copy.outOffset at *
  simp only [hf, true_and] at hcopy
  split_ifs at hcopy ⊢ <;>
    simp only [bind, Option.bind_eq_some_iff, int_eq_some] at hcopy
  · obtain ⟨_, ⟨hin, -⟩, _, ⟨hout, -⟩, -⟩ := hcopy
    exact ⟨hin, hout⟩
  · obtain ⟨_, ⟨hin, -⟩, _, ⟨hout, -⟩, -⟩ := hcopy
    exact ⟨hin, hout⟩

/-- What is copied, unless several rows of whole bytes are. -/
theorem copyWide_copied (mem : Memory) (h : Nat) (hf : infb.format = outfb.format) (hsize : g.outwsize = g.inwsize)
    (hdvd : g.inwsize ∣ 32) (hin : g.inOffset iny < 2 ^ 31) (hout : g.outOffset outy < 2 ^ 31)
    (hone : 8 ≤ g.inwsize → h ≤ 1) (hW : 1 < h → g.w ≤ g.outstride)
    (hdisj : ∀ i, Rows (8 * infb.data + (iny * g.instride + g.inx) * g.inwsize)
      (g.instride * g.inwsize) (g.w * g.inwsize) h i →
      ¬ Rows (8 * outfb.data + (outy * g.outstride + g.outx) * g.inwsize)
        (g.outstride * g.inwsize) (g.w * g.inwsize) h i) :
    ∃ mem', copyWide infb outfb iny outy h g mem = some mem' ∧
      Copied (8 * infb.data + (iny * g.instride + g.inx) * g.inwsize) (g.instride * g.inwsize)
        (8 * outfb.data + (outy * g.outstride + g.outx) * g.inwsize) (g.outstride * g.inwsize)
        (g.w * g.inwsize) h mem mem' := by
  have hinalign := infb.aligned
  have houtalign := outfb.aligned
  unfold copyWide Copy.inOffset Copy.outOffset at *
  rw [hsize] at hout ⊢
  simp only [hf, true_and]
  split_ifs at hin hout ⊢ with h8
  · have hptr : ∀ data n, 8 * (data + n * (g.inwsize / 8)) = 8 * data + n * g.inwsize := by
      intro data n
      have hdiv : 8 * (g.inwsize / 8) = g.inwsize := by
        have hcases := dvd_32 hdvd
        omega
      rw [Nat.mul_add, Nat.mul_left_comm 8 n, hdiv]
    simp only [bind, int_eq_some.2 ⟨hin, rfl⟩, int_eq_some.2 ⟨hout, rfl⟩, Option.bind_some]
    rcases Nat.le_one_iff_eq_zero_or_eq_one.1 (hone h8) with rfl | rfl
    · exact ⟨mem, rfl, .refl⟩
    · refine ⟨_, rfl, Copied.refl.step (fun h0 => absurd h0 (Nat.lt_irrefl 0)) ?_ ?_⟩
      · exact fun t _ => not_rows_zero
      · have hlen : 8 * (g.w * (g.inwsize / 8)) = g.w * g.inwsize := by
          have hlen := hptr 0 g.w
          omega
        have hpaint := memcpy_painted (m := mem)
          (a := infb.data + (iny * g.instride + g.inx) * (g.inwsize / 8))
          (b := outfb.data + (outy * g.outstride + g.outx) * (g.inwsize / 8))
          (n := g.w * (g.inwsize / 8))
        rw [hptr, hptr, hlen] at hpaint
        simp only [Nat.zero_mul, Nat.add_zero]
        rwa [hsize]
  · simp only [bind, int_eq_some.2 ⟨hin, rfl⟩, int_eq_some.2 ⟨hout, rfl⟩, Option.bind_some]
    have hword : ∀ data n : Nat, 8 * (data + 4 * (n / 32)) + n % 32 = 8 * data + n := by omega
    have hlt : ∀ n : Nat, n % 32 < 32 := fun n => Nat.mod_lt n (by decide)
    have halign : ∀ data n : Nat, data % 4 = 0 → (data + 4 * (n / 32)) % 4 = 0 := by omega
    have hrows := copyRows_copied (f := outfb.format) (g := g) (h := h)
      (s := ⟨⟨mem, 0, outfb.data + 4 * ((outy * g.outstride + g.outx) * g.inwsize / 32),
        (outy * g.outstride + g.outx) * g.inwsize % 32⟩, 0,
        infb.data + 4 * ((iny * g.instride + g.inx) * g.inwsize / 32),
        (iny * g.instride + g.inx) * g.inwsize % 32⟩) hdvd (Nat.lt_of_not_le h8) rfl hsize
      (hword _ _) (hword _ _) (mod_start hinalign hdvd) (mod_start houtalign hdvd) (hlt _) (hlt _)
      (halign _ _ hinalign) (halign _ _ houtalign) (fun h1 => Nat.mul_le_mul_right _ (hW h1)) hdisj
    obtain ⟨s', hs, hcopied⟩ := hrows
    exact ⟨s'.mem, by rw [hs]; rfl, hcopied⟩

/-- Nothing is copied of a rectangle without pixels. -/
theorem copyWide_empty (hf : infb.format = outfb.format) (hg : g.w = 0 ∨ h = 0)
    (hin : g.inOffset iny < 2 ^ 31) (hout : g.outOffset outy < 2 ^ 31) :
    copyWide infb outfb iny outy h g mem = some mem := by
  unfold copyWide Copy.inOffset Copy.outOffset at *
  simp only [hf, true_and]
  split_ifs at hin hout ⊢ with h8 <;>
    simp only [bind, int_eq_some.2 ⟨hin, rfl⟩, int_eq_some.2 ⟨hout, rfl⟩, Option.bind_some]
  · obtain ⟨s, hs, hmem⟩ := times_invariant (f := copyBytes g) (n := h)
      (x := ⟨mem, infb.data + (iny * g.instride + g.inx) * (g.inwsize / 8),
        outfb.data + (outy * g.outstride + g.outx) * (g.outwsize / 8)⟩) (I := fun _ s => s.mem = mem)
      rfl fun r s hr hmem => ⟨_, rfl, by
        obtain hw | rfl := hg
        · rw [hw, Nat.zero_mul]
          exact hmem ▸ memory_ext fun i => bit_put_outside (by simp [bytes]; omega)
        · exact absurd hr (Nat.not_lt_zero r)⟩
    rw [hs, Option.bind_some, hmem]
  · obtain ⟨s, hs, hmem⟩ := times_invariant (f := copyRow outfb.format outfb.format g) (n := h)
      (x := ⟨⟨mem, 0, outfb.data + 4 * ((outy * g.outstride + g.outx) * g.outwsize / 32),
        (outy * g.outstride + g.outx) * g.outwsize % 32⟩, 0,
        infb.data + 4 * ((iny * g.instride + g.inx) * g.inwsize / 32),
        (iny * g.instride + g.inx) * g.inwsize % 32⟩) (I := fun _ s => s.mem = mem) rfl
      fun r s hr hmem => by
        obtain hw | rfl := hg
        · refine ⟨_, by simp only [copyRow, hw, times, bind, Option.bind_some]; rfl, ?_⟩
          exact (Cursor.flush_load s.toCursor).trans hmem
        · exact absurd hr (Nat.not_lt_zero r)
    rw [hs, Option.bind_some, hmem]

/-- Several rows of whole bytes: what is behind their last place stays, since each one moves the pointers by
less than a row. -/
theorem copyWide_behind {i : Nat} (hf : infb.format = outfb.format) (hsize : g.outwsize = g.inwsize)
    (hdvd : g.inwsize ∣ 32) (h8 : 8 ≤ g.inwsize) (hw : g.w ≤ g.outstride)
    (hi : 8 * outfb.data + (outy * g.outstride + g.outx) * g.inwsize +
      (h - 1) * ((g.outstride - g.w) * g.inwsize) + g.w * g.inwsize ≤ i)
    (hcopy : copyWide infb outfb iny outy h g mem = some mem') : bit mem' i = bit mem i := by
  rw [copyWide, if_pos ⟨hf, h8⟩, hsize] at hcopy
  simp only [bind, Option.bind_eq_some_iff, int_eq_some, Option.some.injEq] at hcopy
  obtain ⟨input, ⟨-, rfl⟩, out, ⟨-, rfl⟩, s, hs, rfl⟩ := hcopy
  have h8' : 8 * (g.inwsize / 8) = g.inwsize := by
    have hcases := dvd_32 hdvd
    omega
  have hinv := times_invariant (f := copyBytes g) (n := h)
    (x := ⟨mem, infb.data + (iny * g.instride + g.inx) * (g.inwsize / 8),
      outfb.data + (outy * g.outstride + g.outx) * (g.inwsize / 8)⟩)
    (I := fun r s => s.out = outfb.data + (outy * g.outstride + g.outx) * (g.inwsize / 8) +
      r * ((g.outstride - g.w) * (g.inwsize / 8)) ∧ bit s.mem i = bit mem i) ⟨by simp, rfl⟩ ?_
  · obtain ⟨s', hs', -, hbit⟩ := hinv
    rw [hs] at hs'
    cases hs'
    exact hbit
  · rintro r s hr ⟨hp, hbit⟩
    refine ⟨_, rfl, ?_, ?_⟩
    · have hsub : ((g.outstride : Int) - g.w) * (g.inwsize / 8 : Nat) =
          (((g.outstride - g.w) * (g.inwsize / 8) : Nat) : Int) := by
        rw [Nat.cast_mul, Nat.cast_sub hw]
      dsimp only
      rw [hsize, hsub, ← Nat.cast_add, Int.toNat_natCast, hp]
      ring
    · dsimp only
      rw [bit_put_outside, hbit]
      right
      rw [length_bytes, hsize, hp]
      have hstart : 8 * ((outy * g.outstride + g.outx) * (g.inwsize / 8)) =
          (outy * g.outstride + g.outx) * g.inwsize := by rw [Nat.mul_left_comm, h8']
      have hrow : 8 * (r * ((g.outstride - g.w) * (g.inwsize / 8))) =
          r * ((g.outstride - g.w) * g.inwsize) := by
        rw [Nat.mul_left_comm, Nat.mul_left_comm 8 (_ - _), h8']
      have hlen : 8 * (g.w * (g.inwsize / 8)) = g.w * g.inwsize := by rw [Nat.mul_left_comm, h8']
      have hle : r * ((g.outstride - g.w) * g.inwsize) ≤ (h - 1) * ((g.outstride - g.w) * g.inwsize) :=
        Nat.mul_le_mul_right _ (by omega)
      omega

end Wide

section Blit

variable {infb outfb : Instance} {inx iny outx outy w h : Nat} {mem mem' : Memory}

/-- Copying is copying each pixel: the output reads what the input has read, and no other pixel and no pixel
of the input has changed. -/
def Blits (infb : Instance) (inx iny : Nat) (outfb : Instance) (outx outy w h : Nat) (mem : Memory) :
    Prop :=
  ∃ mem', blit infb inx iny outfb outx outy w h mem = some mem' ∧
    (∀ c r, c < w → r < h → ∃ v, outfb.getPixel (outx + c) (outy + r) mem' = some v ∧
      infb.getPixel (inx + c) (iny + r) mem = some v) ∧
    (∀ px py, px < outfb.width → py < outfb.height → ¬ Instance.InRect outx outy w h px py →
      outfb.getPixel px py mem' = outfb.getPixel px py mem) ∧
    ∀ px py, Instance.InRect inx iny w h px py →
      infb.getPixel px py mem' = infb.getPixel px py mem

/-- Where the code looks for the first pixels fits an `int`. -/
def BlitStarts (infb : Instance) (inx iny : Nat) (outfb : Instance) (outx outy w h : Nat) : Prop :=
  let g := copyOf infb outfb inx outx (if w = infb.width ∧ w = outfb.width then w * h else w)
  g.inOffset iny < 2 ^ 31 ∧ g.outOffset outy < 2 ^ 31

/-- The widened pixels are those of the framebuffers. -/
structure Placed (infb : Instance) (inx : Nat) (outfb : Instance) (outx w : Nat) (g : Copy) : Prop where
  size : g.outwsize = g.inwsize
  dvd : g.inwsize ∣ 32
  w : g.w * g.inwsize = w * infb.format.wordsize
  instride : g.instride * g.inwsize = infb.width * infb.format.wordsize
  outstride : g.outstride * g.inwsize = outfb.width * infb.format.wordsize
  input : ∀ y, 8 * infb.data + (y * g.instride + g.inx) * g.inwsize = infb.bitOf inx y
  out : ∀ y, 8 * outfb.data + (y * g.outstride + g.outx) * g.inwsize = outfb.bitOf outx y

theorem copyOf_placed (inx outx w : Nat) (hf : infb.format = outfb.format) (hk : infb.format.wordsize ∣ 32) :
    Placed infb inx outfb outx w (copyOf infb outfb inx outx w) := by
  obtain ⟨hsize, hdvd, hw, hix, hox, his, hos⟩ := widenCopy_same ⟨infb.format.wordsize,
    outfb.format.wordsize, w, inx, outx, infb.width, outfb.width, infb.format.wordsize_pos⟩
    (congrArg Format.wordsize hf.symm) hk
  rw [copyOf, if_pos hf]
  refine ⟨hsize, hdvd, hw, his, hos, ?_, ?_⟩
  · intro y
    rw [Nat.add_mul, Nat.mul_assoc, his, hix, Instance.bitOf]
    ring
  · intro y
    rw [Nat.add_mul, Nat.mul_assoc, hos, hox, Instance.bitOf, ← hf]
    ring

theorem offset_le {a k n : Nat} (h : a * k < n) : a * (if 8 ≤ k then k / 8 else k) < n := by
  refine lt_of_le_of_lt (Nat.mul_le_mul_left a ?_) h
  split_ifs
  · exact Nat.div_le_self _ _
  · exact le_refl _

theorem blitStarts_of_counted (hf : infb.format = outfb.format) (hk : infb.format.wordsize ∣ 32)
    (hin : infb.Counted inx iny w h) (hout : outfb.Counted outx outy w h) (hw : 0 < w) (hh : 0 < h) :
    BlitStarts infb inx iny outfb outx outy w h := by
  have hin' : (infb.width * iny + inx) * infb.format.wordsize < 2 ^ 31 :=
    hin.lt ⟨le_refl _, by omega, le_refl _, by omega⟩
  have hout' : (outfb.width * outy + outx) * outfb.format.wordsize < 2 ^ 31 :=
    hout.lt ⟨le_refl _, by omega, le_refl _, by omega⟩
  have hg := copyOf_placed inx outx
    (if w = infb.width ∧ w = outfb.width then w * h else w) hf hk
  have hI := hg.input iny
  have hO := hg.out outy
  rw [Instance.bitOf] at hI hO
  unfold BlitStarts Copy.inOffset Copy.outOffset
  dsimp only
  rw [hg.size]
  exact ⟨offset_le (by omega), offset_le (by omega)⟩

theorem blit_copied (mem : Memory) (hf : infb.format = outfb.format) (hk : infb.format.wordsize ∣ 32)
    (hint : w = infb.width ∧ w = outfb.width → w * h < 2 ^ 31)
    (hstart : BlitStarts infb inx iny outfb outx outy w h) (houtx : outx + w ≤ outfb.width)
    (hone : 8 ≤ (copyOf infb outfb inx outx w).inwsize → h ≤ 1 ∨ w = infb.width ∧ w = outfb.width)
    (hdisj : ∀ i, infb.Region inx iny w h i → ¬ outfb.Region outx outy w h i) :
    ∃ mem', blit infb inx iny outfb outx outy w h mem = some mem' ∧
      Copied (infb.bitOf inx iny) (infb.width * infb.format.wordsize) (outfb.bitOf outx outy)
        (outfb.width * infb.format.wordsize) (w * infb.format.wordsize) h mem mem' := by
  simp only [Instance.region_iff_rows, ← hf] at hdisj
  have hcopy : ∀ w h, (copyOf infb outfb inx outx w).inOffset iny < 2 ^ 31 →
      (copyOf infb outfb inx outx w).outOffset outy < 2 ^ 31 →
      (8 ≤ (copyOf infb outfb inx outx w).inwsize → h ≤ 1) → (1 < h → w ≤ outfb.width) →
      (∀ i, Rows (infb.bitOf inx iny) (infb.width * infb.format.wordsize)
        (w * infb.format.wordsize) h i → ¬ Rows (outfb.bitOf outx outy)
          (outfb.width * infb.format.wordsize) (w * infb.format.wordsize) h i) →
      ∃ mem', copyWide infb outfb iny outy h (copyOf infb outfb inx outx w) mem = some mem' ∧
        Copied (infb.bitOf inx iny) (infb.width * infb.format.wordsize) (outfb.bitOf outx outy)
          (outfb.width * infb.format.wordsize) (w * infb.format.wordsize) h mem mem' := by
    intro w h hin hout hone hW hdisj
    have hg := copyOf_placed inx outx w hf hk
    have hpos := (copyOf infb outfb inx outx w).pos
    have hres := copyWide_copied mem h hf hg.size hg.dvd hin hout hone ?_ ?_
    · rwa [hg.input, hg.out, hg.w, hg.instride, hg.outstride] at hres
    · intro h1
      apply Nat.le_of_mul_le_mul_right _ hpos
      rw [hg.w, hg.outstride]
      exact Nat.mul_le_mul_right _ (hW h1)
    · rwa [hg.input, hg.out, hg.w, hg.instride, hg.outstride]
  unfold blit
  obtain ⟨hin, hout⟩ := hstart
  split_ifs at hin hout ⊢ with hfull
  · rw [int_eq_some.2 ⟨hint hfull, rfl⟩, Option.bind_some]
    have hmul : w * h * infb.format.wordsize = h * (w * infb.format.wordsize) := by ring
    have hres := hcopy (w * h) 1 hin hout (fun _ => le_refl 1) (fun h1 => absurd h1 (Nat.lt_irrefl 1)) ?_
    · obtain ⟨m, hm, hcopied⟩ := hres
      rw [← hfull.1, ← hfull.2, hmul] at hcopied
      rw [← hfull.1, ← hfull.2]
      exact ⟨m, hm, hcopied.split⟩
    · rw [← hfull.1, ← hfull.2, hmul]
      rw [← hfull.1, ← hfull.2] at hdisj
      intro i
      rw [← Instance.rows_merge, ← Instance.rows_merge]
      exact hdisj i
  · exact hcopy w h hin hout (fun h8 => (hone h8).resolve_right hfull) (fun _ => by omega) hdisj

theorem blits_of_copied (hf : infb.format = outfb.format) (hk : infb.format.wordsize ∣ 32)
    (hin : infb.Counted inx iny w h) (hout : outfb.Counted outx outy w h)
    (hinx : inx + w ≤ infb.width) (houtx : outx + w ≤ outfb.width)
    (hdisj : ∀ i, infb.Region inx iny w h i → ¬ outfb.Region outx outy w h i)
    (hblit : blit infb inx iny outfb outx outy w h mem = some mem')
    (hcopied : Copied (infb.bitOf inx iny) (infb.width * infb.format.wordsize)
      (outfb.bitOf outx outy) (outfb.width * infb.format.wordsize) (w * infb.format.wordsize) h
        mem mem') : Blits infb inx iny outfb outx outy w h mem := by
  have hrest : ∀ i, ¬ outfb.Region outx outy w h i → bit mem' i = bit mem i := by
    intro i hi
    rw [Instance.region_iff_rows, ← hf] at hi
    exact hcopied.rest i hi
  refine ⟨mem', hblit, ?_, ?_, ?_⟩
  · intro c r hc hr
    have hk' : outfb.format.wordsize ∣ 32 := by rwa [← hf]
    obtain ⟨v, hv⟩ : ∃ v, infb.getPixel (inx + c) (iny + r) mem = some v :=
      Instance.getPixel_isSome mem hk (hin.lt ⟨by omega, by omega, by omega, by omega⟩)
    obtain ⟨v', hv'⟩ : ∃ v', outfb.getPixel (outx + c) (outy + r) mem' = some v' :=
      Instance.getPixel_isSome mem' hk' (hout.lt ⟨by omega, by omega, by omega, by omega⟩)
    have heq : v' = v := by
      refine Instance.getPixel_congr hf.symm hv' hv fun t ht => ?_
      rw [← hf] at ht
      have hct : c * infb.format.wordsize + t < w * infb.format.wordsize := by
        have hle : (c + 1) * infb.format.wordsize ≤ w * infb.format.wordsize :=
          Nat.mul_le_mul_right _ hc
        rw [Nat.succ_mul] at hle
        omega
      have hbit := hcopied.rows r hr _ hct
      rw [Instance.bitOf_add, Instance.bitOf_add, ← hf]
      rwa [← Nat.add_assoc, ← Nat.add_assoc] at hbit
    exact ⟨v, heq ▸ hv', hv⟩
  · intro px py hpx _ hno
    refine Instance.getPixel_same fun t ht => hrest _ ?_
    rwa [Instance.region_bitOf houtx hpx ht]
  · intro px py hpix
    refine Instance.getPixel_same fun t ht => hrest _ (hdisj _ ?_)
    rw [Instance.region_bitOf hinx (by have := hpix.2.1; omega) ht]
    exact hpix

theorem blits_of_empty (hf : infb.format = outfb.format) (hk : infb.format.wordsize ∣ 32)
    (hempty : w = 0 ∨ h = 0) (hstart : BlitStarts infb inx iny outfb outx outy w h) :
    Blits infb inx iny outfb outx outy w h mem := by
  have hzero : (copyOf infb outfb inx outx 0).w = 0 := by
    have hw := (copyOf_placed inx outx 0 hf hk).w
    rw [Nat.zero_mul] at hw
    exact (Nat.mul_eq_zero.1 hw).resolve_right (copyOf infb outfb inx outx 0).pos.ne'
  have hmul : w * h = 0 := by
    obtain rfl | rfl := hempty
    · exact Nat.zero_mul h
    · exact Nat.mul_zero w
  have hblit : blit infb inx iny outfb outx outy w h mem = some mem := by
    unfold blit
    obtain ⟨hin, hout⟩ := hstart
    split_ifs at hin hout ⊢ with hfull
    · rw [hmul] at hin hout ⊢
      exact copyWide_empty hf (.inl hzero) hin hout
    · refine copyWide_empty hf (hempty.imp ?_ id) hin hout
      rintro rfl
      exact hzero
  refine ⟨mem, hblit, ?_, fun _ _ _ _ _ => rfl, fun _ _ _ => rfl⟩
  intro c r hc hr
  omega

/-- Of several rows of whole bytes, the last bit is not copied. -/
theorem not_blits_rows (hf : infb.format = outfb.format) (hk : infb.format.wordsize ∣ 32)
    (houtx : outx + w ≤ outfb.width)
    (hdisj : ∀ i, infb.Region inx iny w h i → ¬ outfb.Region outx outy w h i)
    (h8 : 8 ≤ (copyOf infb outfb inx outx w).inwsize) (hw : 0 < w) (hh : 1 < h)
    (hfull : ¬ (w = infb.width ∧ w = outfb.width)) :
    ¬ ∀ mem, Blits infb inx iny outfb outx outy w h mem := by
  intro hall
  have hpos := infb.wordsize_pos
  obtain ⟨last, hlast⟩ : ∃ i, i = infb.bitOf (inx + (w - 1)) (iny + (h - 1)) +
    (infb.format.wordsize - 1) := ⟨_, rfl⟩
  obtain ⟨mem', hblit, hread, -, -⟩ := hall (ofBits fun i => decide (i = last))
  obtain ⟨v, hvout, hvin⟩ := hread (w - 1) (h - 1) (by omega) (by omega)
  have hb : infb.format.wordsize - 1 < infb.format.wordsize := by omega
  have hout := Instance.getPixel_bits hvout (i := place infb.format.wordsize (infb.format.wordsize - 1))
    (by rw [← hf]; exact place_lt hb)
  have hin := Instance.getPixel_bits hvin (place_lt hb)
  rw [← hf, place_place hb] at hout
  rw [place_place hb, ← hlast, bit_ofBits, decide_eq_true rfl] at hin
  have hg := copyOf_placed inx outx w hf hk
  rw [blit, if_neg hfull] at hblit
  have hle : (copyOf infb outfb inx outx w).w ≤ (copyOf infb outfb inx outx w).outstride := by
    apply Nat.le_of_mul_le_mul_right _ (copyOf infb outfb inx outx w).pos
    rw [hg.w, hg.outstride]
    exact Nat.mul_le_mul_right _ (by omega)
  have hkeep := copyWide_behind (i := outfb.bitOf (outx + (w - 1)) (outy + (h - 1)) +
    (infb.format.wordsize - 1)) hf hg.size hg.dvd h8 hle ?_ hblit
  · rw [hkeep, bit_ofBits, hin, eq_comm, decide_eq_true_eq] at hout
    refine hdisj last ⟨inx + (w - 1), iny + (h - 1), ⟨by omega, by omega, by omega, by omega⟩, ?_⟩ ?_
    · constructor <;> omega
    · rw [← hout]
      refine ⟨outx + (w - 1), outy + (h - 1), ⟨by omega, by omega, by omega, by omega⟩, ?_⟩
      rw [← hf]
      constructor <;> omega
  · obtain ⟨n, rfl⟩ : ∃ n, h = n + 1 := ⟨h - 1, by omega⟩
    have hrow : n * (w * infb.format.wordsize) ≤ n * (outfb.width * infb.format.wordsize) :=
      Nat.mul_le_mul_left n (Nat.mul_le_mul_right _ (by omega))
    have hone : 1 * (w * infb.format.wordsize) ≤ n * (w * infb.format.wordsize) :=
      Nat.mul_le_mul_right _ (by omega)
    have hend : (w - 1) * infb.format.wordsize + infb.format.wordsize = w * infb.format.wordsize := by
      rw [← Nat.succ_mul, Nat.succ_eq_add_one, Nat.sub_add_cancel hw]
    rw [Nat.add_sub_cancel, hg.out, Nat.sub_mul, hg.w, hg.outstride, Instance.bitOf_add, ← hf,
      Nat.mul_sub]
    omega

/-- For every two framebuffers of a format whose pixels divide a word, and rectangles in them that do not
overlap: the property holds for every content of the memory exactly if the pixels are counted by an `int` and
there are not several rows of whole bytes, or there are no pixels. -/
theorem blit_iff (infb : Instance) (inx iny : Nat) (outfb : Instance) (outx outy w h : Nat)
    (hf : infb.format = outfb.format) (hk : infb.format.wordsize ∣ 32)
    (hinx : inx + w ≤ infb.width) (_hiny : iny + h ≤ infb.height) (houtx : outx + w ≤ outfb.width)
    (houty : outy + h ≤ outfb.height)
    (hdisj : ∀ i, infb.Region inx iny w h i → ¬ outfb.Region outx outy w h i) :
    (∀ mem, Blits infb inx iny outfb outx outy w h mem) ↔
      if w = 0 ∨ h = 0 then BlitStarts infb inx iny outfb outx outy w h
      else infb.Counted inx iny w h ∧ outfb.Counted outx outy w h ∧
        (8 ≤ (copyOf infb outfb inx outx w).inwsize →
          h = 1 ∨ w = infb.width ∧ w = outfb.width) := by
  split_ifs with hempty
  · constructor
    · intro hall
      obtain ⟨mem', hblit, -⟩ := hall fun _ => 0
      unfold blit at hblit
      unfold BlitStarts
      split_ifs at hblit ⊢ with hfull
      · obtain ⟨n, hn, hblit⟩ := Option.bind_eq_some_iff.1 hblit
        obtain ⟨-, rfl⟩ := int_eq_some.1 hn
        exact offsets_lt hf hblit
      · exact offsets_lt hf hblit
    · intro hstart mem
      exact blits_of_empty hf hk hempty hstart
  · obtain ⟨hw, hh⟩ := not_or.1 hempty
    constructor
    · intro hall
      obtain ⟨mem', -, hread, -⟩ := hall fun _ => 0
      obtain ⟨v, hvout, hvin⟩ := hread (w - 1) (h - 1) (by omega) (by omega)
      rw [← Nat.add_sub_assoc (by omega), ← Nat.add_sub_assoc (by omega)] at hvout hvin
      refine ⟨(Instance.getPixel_eq_some.1 hvin).1, (Instance.getPixel_eq_some.1 hvout).1, ?_⟩
      intro h8
      by_contra hnot
      obtain ⟨hone, hfull⟩ := not_or.1 hnot
      exact not_blits_rows hf hk houtx hdisj h8 (by omega) (by omega) hfull hall
    · rintro ⟨hin, hout, hone⟩ mem
      obtain ⟨mem', hblit, hcopied⟩ := blit_copied mem hf hk
        (fun hfull => hout.mul_lt houtx houty (by omega) hfull.2)
        (blitStarts_of_counted hf hk hin hout (by omega) (by omega)) houtx
        (fun h8 => (hone h8).imp (fun h1 => h1.le) id) hdisj
      exact blits_of_copied hf hk hin hout hinx houtx hdisj hblit hcopied

/-- Three pixels of one bit each. -/
theorem blits_bits : Blits ⟨8, 1, .i1, 0, by decide, by decide, rfl⟩ 1 0
    ⟨8, 1, .i1, 4, by decide, by decide, rfl⟩ 2 0 3 1 fun _ => 0 := by
  refine (blit_iff ⟨8, 1, .i1, 0, by decide, by decide, rfl⟩ 1 0
    ⟨8, 1, .i1, 4, by decide, by decide, rfl⟩ 2 0 3 1 rfl (by decide) (by decide) (by decide)
    (by decide) (by decide) ?_).2 ?_ _
  · rintro i ⟨px, py, ⟨_, hpx, _, hpy⟩, _, hi⟩ ⟨qx, qy, _, hi', _⟩
    simp only [Instance.bitOf, Format.wordsize] at hi hi'
    omega
  · rw [if_neg (by decide)]
    exact ⟨by unfold Instance.Counted; decide, by unfold Instance.Counted; decide, fun _ => .inl rfl⟩

/-- Two rows of two pixels of a byte each. -/
def square (data : Nat) (aligned : data % 4 = 0) : Instance :=
  ⟨2, 2, .x7i1, data, by decide, by decide, aligned⟩

/-- Of two columns, one is copied. -/
theorem blits_one_of_two : ¬ ∀ (infb : Instance) (inx iny : Nat) (outfb : Instance)
    (outx outy w h : Nat), infb.format = outfb.format → infb.format.wordsize ∣ 32 →
    inx + w ≤ infb.width → iny + h ≤ infb.height → outx + w ≤ outfb.width →
    outy + h ≤ outfb.height → (∀ i, infb.Region inx iny w h i → ¬ outfb.Region outx outy w h i) →
    ∀ mem, Blits infb inx iny outfb outx outy w h mem := by
  intro hall
  have hf : (square 0 rfl).format = (square 4 rfl).format := rfl
  have hdisj : ∀ i, (square 0 rfl).Region 0 0 1 2 i → ¬ (square 4 rfl).Region 0 0 1 2 i := by
    rintro i ⟨px, py, ⟨_, hpx, _, hpy⟩, _, hi⟩ ⟨qx, qy, _, hi', _⟩
    simp only [Instance.bitOf, Format.wordsize, square] at hi hi'
    omega
  have hwide : 8 ≤ (copyOf (square 0 rfl) (square 4 rfl) 0 0 1).inwsize := by
    rw [copyOf, if_pos hf, widenCopy, if_neg (by decide)]
    exact le_refl 8
  have hblits := hall (square 0 rfl) 0 0 (square 4 rfl) 0 0 1 2 hf (by decide) (by decide) (by decide)
    (by decide) (by decide) hdisj
  exact not_blits_rows hf (by decide) (by decide) hdisj hwide (by decide) (by decide) (by decide)
    hblits

end Blit

end Framebuffer
end Freemyipod
