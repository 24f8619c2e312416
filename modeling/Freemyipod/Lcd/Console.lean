import Mathlib.Algebra.Ring.Nat
import Mathlib.Algebra.Ring.Int.Defs
import Mathlib.Tactic.Ring
import Mathlib.Data.Fintype.Basic
import Mathlib.Logic.Function.Basic
import Freemyipod.Lib.Runs

/-!
# Lcd.Console

The text console on the display (`emcore/lcdconsole.c`) and the characters that `emcore/drawing.S`
renders for it. The frame buffer is a map from the indices of pixels, counted from `framebuf`, so
that an access behind its end can be told.

* `putcNoblit`: the console, with the accesses it makes.
* `Layout`: the text that has been written, in lines without end.
* `look`: what the display shows of a layout.
* `Inv`: the display shows the lines from `top` on. Those that wait below the last row are empty.
* `console_shows`: a run in which less than a whole screen waits to be scrolled in.
-/

namespace Freemyipod
namespace Lcd

/-- `u32` of a sum or a difference. -/
def u32 (z : Int) : Nat := (z % 4294967296).toNat

/-- The value as an `int`. -/
def s32 (n : Nat) : Int := if n < 2147483648 then n else n - 4294967296

/-- The display of a target; a pixel has two bytes or four. `font` is `renderchar_font`, by glyph
and column. -/
structure Display where
  width : Nat
  height : Nat
  wide : Bool
  font : Nat → Nat → UInt8
  width_ge : 6 ≤ width
  height_ge : 8 ≤ height
  size_lt : width * height * 4 < 2147483648

namespace Display

variable (lcd : Display)

/-- `LCDCONSOLE_COLS` -/
def cols : Nat := lcd.width / 6

/-- `LCDCONSOLE_ROWS` -/
def rows : Nat := lcd.height / 8

/-- `LCDCONSOLE_OFFSETX` -/
def offsetx : Nat := (lcd.width - lcd.cols * 6) / 2

/-- `LCDCONSOLE_OFFSETY` -/
def offsety : Nat := (lcd.height - lcd.rows * 8) / 2

/-- `LCD_BYTESPERPIXEL` -/
def pixelBytes : Nat := if lcd.wide then 4 else 2

/-- The index of the pixel in line `y` and column `x`. -/
def pixel (y x : Nat) : Int := lcd.width * y + x

/-- A pixel of `LCDCONSOLE_BGCOLOR`. -/
def blank : UInt32 := if lcd.wide then 0xffffffff else 0xffff

end Display

/-- A character and its colours. -/
structure Input where
  char : UInt8
  fgcolor : UInt32
  bgcolor : UInt32
  deriving DecidableEq

/-! ### Rendering -/

variable (lcd : Display)

/-- What the loops for the background make of a pixel, unless the background is transparent. -/
def background (bgcolor : UInt32) : Option (UInt32 → UInt32) :=
  if bgcolor = 0xffffffff then none
  else if lcd.wide then some fun _ => bgcolor
  else if bgcolor >>> 16 = 0xffff then
    some fun old => (((old >>> 1) &&& 0xfffffbef) + (bgcolor &&& 0xffff)) &&& 0xffff
  else some fun _ => bgcolor &&& 0xffff

/-- A pixel of the character itself. A character without a glyph looks like a blank. -/
def dot (c : UInt8) (dx dy : Nat) : Bool :=
  let glyph := if 0x20 ≤ c.toNat ∧ c.toNat < 0x7f then c.toNat - 0x20 else 0
  decide (dx < 5) && (lcd.font glyph dx).toNat.testBit dy

/-- A pixel of `fgcolor`. -/
def foreground (fgcolor : UInt32) : UInt32 := if lcd.wide then fgcolor else fgcolor &&& 0xffff

/-- From one row of the background to the next: `add r6, r6, r7,lsl#1` and `sub r6, r6, #12` behind
six pixels, which is right for pixels of two bytes. -/
def backgroundStride : Nat := if lcd.wide then lcd.width / 2 + 3 else lcd.width

/-- `renderchar_native` at the pixel `p` -/
def rendercharNative (fb : Int → UInt32) (p : Int) (a : Input) : Int → UInt32 :=
  let fb := match background lcd a.bgcolor with
    | none => fb
    | some f => fun q =>
      if ∃ k : Fin 8, ∃ i : Fin 6, q = p + k.val * backgroundStride lcd + i.val then f (fb q) else fb q
  fun q =>
    if ∃ k : Fin 8, ∃ i : Fin 6,
        dot lcd a.char i k = true ∧ q = p + k.val * lcd.width + i.val then
      foreground lcd a.fgcolor
    else fb q

/-! ### The console -/

/-- `framebuf`, `current_row` and `current_col` -/
structure State where
  fb : Int → UInt32
  row : Nat
  col : Nat

/-- An access to the frame buffer, in pixels: `memcpy`, `memset`, or the runs of six pixels of a
character. -/
inductive Access
  | copy (dst src len : Int)
  | fill (dst len : Int)
  | render (runs : List Int)
  deriving DecidableEq

/-- The number of pixels, of a size in bytes that is passed as `size_t`. -/
def pixels (len : Int) : Nat := u32 (len * lcd.pixelBytes) / lcd.pixelBytes

/-- `memcpy`, which goes up. -/
def copyPixels (fb : Int → UInt32) (dst src len : Int) : Int → UInt32 :=
  fun q => if dst ≤ q ∧ q < dst + pixels lcd len then fb (q - dst + src) else fb q

/-- `memset` with `LCDCONSOLE_BGCOLOR` -/
def fillPixels (fb : Int → UInt32) (dst len : Int) : Int → UInt32 :=
  fun q => if dst ≤ q ∧ q < dst + pixels lcd len then lcd.blank else fb q

/-- The branch `current_row >= LCDCONSOLE_ROWS`. -/
def scroll (s : State) : State × List Access :=
  let offset := s32 (u32 ((s.row : Int) - lcd.rows + 1))
  let first : Int := lcd.width * lcd.offsety
  let rowPixels : Int := 8 * lcd.width
  let fb := copyPixels lcd s.fb first (first + rowPixels * offset) (rowPixels * (lcd.rows - offset))
  let fb := fillPixels lcd fb (first + rowPixels * (lcd.rows - offset)) (rowPixels * offset)
  ({ s with fb := fb, row := lcd.rows - 1 },
    [.copy first (first + rowPixels * offset) (rowPixels * (lcd.rows - offset)),
      .fill (first + rowPixels * (lcd.rows - offset)) (rowPixels * offset)])

/-- The place of the cursor in the frame buffer. -/
def cursor (s : State) : Int :=
  lcd.width * lcd.offsety + lcd.offsetx + 8 * lcd.width * s.row + 6 * s.col

/-- The runs of pixels that a character is rendered to. -/
def runs (p : Int) (a : Input) : List Int :=
  (if background lcd a.bgcolor = none then []
    else (List.range 8).map fun k : Nat => p + k * backgroundStride lcd) ++
  (List.range 8).map fun k : Nat => p + k * lcd.width

/-- What is left of `lcdconsole_putc_noblit` behind the control characters. -/
def printChar (s : State) (a : Input) : State × List Access :=
  let s := if lcd.cols ≤ s.col then { s with col := 0, row := u32 (s.row + 1) } else s
  let r := if lcd.rows ≤ s.row then scroll lcd s else (s, [])
  let p := cursor lcd r.1
  ({ r.1 with fb := rendercharNative lcd r.1.fb p a }, r.2 ++ [.render (runs lcd p a)])

/-- `lcdconsole_putc_noblit` -/
def putcNoblit (s : State) (a : Input) : State × List Access :=
  if a.char = 0x0d then (s, [])
  else
    let s := { s with col := u32 (s.col + 1) }
    if a.char = 0x0a then ({ s with col := u32 (-1), row := u32 (s.row + 1) }, [])
    else if a.char = 0x09 then ({ s with col := s.col ||| 3 }, [])
    else printChar lcd s a

/-- `lcdconsole_write_noblit` -/
def writeNoblit (s : State) (string : List UInt8) (fgcolor bgcolor : UInt32) : State :=
  string.foldl (fun s c => (putcNoblit lcd s ⟨c, fgcolor, bgcolor⟩).1) s

/-- `lcdconsole_puts_noblit` -/
def putsNoblit (s : State) (string : List UInt8) (fgcolor bgcolor : UInt32) : State :=
  writeNoblit lcd s (string.takeWhile (· ≠ 0)) fgcolor bgcolor

/-- `lcdconsole_init`; behind the frame buffer is whatever was there. -/
def init (fb : Int → UInt32) : State :=
  ⟨fun q => if 0 ≤ q ∧ q < lcd.width * lcd.height then lcd.blank else fb q, 0, u32 (-1)⟩

/-! ### The text -/

/-- The lines written so far, and where the next character goes. -/
structure Layout where
  line : Nat
  col : Nat
  cells : Nat → Nat → Option Input

def Layout.empty : Layout := ⟨0, 0, fun _ _ => none⟩

/-- A character is put into the cell at `line` and `col`. -/
def Layout.set (t : Layout) (line col : Nat) (a : Input) : Layout :=
  ⟨line, col + 1, fun l c => if l = line ∧ c = col then some a else t.cells l c⟩

def Printable (c : UInt8) : Prop := c ≠ 0x0d ∧ c ≠ 0x0a ∧ c ≠ 0x09

instance (c : UInt8) : Decidable (Printable c) := by unfold Printable; infer_instance

/-- A tab goes to the next column that is a multiple of four, a line that is full ends before the
next character, and carriage returns are ignored. -/
def Layout.put (t : Layout) (a : Input) : Layout :=
  if a.char = 0x0d then t
  else if a.char = 0x0a then { t with line := t.line + 1, col := 0 }
  else if a.char = 0x09 then { t with col := (t.col / 4 + 1) * 4 }
  else if lcd.cols ≤ t.col then t.set (t.line + 1) 0 a
  else t.set t.line t.col a

/-- A pixel of a cell. -/
def shade (cell : Option Input) (dx dy : Nat) : UInt32 :=
  match cell with
  | none => lcd.blank
  | some a =>
    if dot lcd a.char dx dy then foreground lcd a.fgcolor
    else (background lcd a.bgcolor).elim lcd.blank fun f => f lcd.blank

/-- A pixel of the display that shows the lines from `top` on. -/
def look (t : Layout) (top y x : Nat) : UInt32 :=
  if (lcd.offsety ≤ y ∧ y < lcd.offsety + 8 * lcd.rows) ∧
      lcd.offsetx ≤ x ∧ x < lcd.offsetx + 6 * lcd.cols then
    shade lcd (t.cells (top + (y - lcd.offsety) / 8) ((x - lcd.offsetx) / 6))
      ((x - lcd.offsetx) % 6) ((y - lcd.offsety) % 8)
  else lcd.blank

/-- The display shows the lines from `top` on, and behind the frame buffer is what `fb₀` has. -/
structure Shows (fb₀ : Int → UInt32) (t : Layout) (top : Nat) (fb : Int → UInt32) : Prop where
  display : ∀ y x, y < lcd.height → x < lcd.width → fb (lcd.pixel y x) = look lcd t top y x
  beyond : ∀ q : Int, q < 0 ∨ lcd.width * lcd.height ≤ q → fb q = fb₀ q

/-- In the lines of the console, a character in its cells, and with no negative length. -/
def Access.Confined : Access → Prop
  | .copy dst src len =>
    0 ≤ len ∧ (lcd.width * lcd.offsety : Int) ≤ dst ∧ (lcd.width * lcd.offsety : Int) ≤ src ∧
      dst + len ≤ lcd.width * (lcd.offsety + 8 * lcd.rows) ∧
      src + len ≤ lcd.width * (lcd.offsety + 8 * lcd.rows)
  | .fill dst len =>
    0 ≤ len ∧ (lcd.width * lcd.offsety : Int) ≤ dst ∧
      dst + len ≤ lcd.width * (lcd.offsety + 8 * lcd.rows)
  | .render rs => ∀ p ∈ rs, ∃ y x, p = lcd.pixel y x ∧
      lcd.offsety ≤ y ∧ y < lcd.offsety + 8 * lcd.rows ∧
      lcd.offsetx ≤ x ∧ x + 6 ≤ lcd.offsetx + 6 * lcd.cols

/-! ### Geometry -/

section Geometry

variable {lcd} {y x y' x' a b m : Nat} {fb : Int → UInt32} {len : Int}

theorem cols_le : lcd.offsetx + 6 * lcd.cols ≤ lcd.width := by
  unfold Display.offsetx Display.cols
  omega

theorem rows_le : lcd.offsety + 8 * lcd.rows ≤ lcd.height := by
  unfold Display.offsety Display.rows
  omega

theorem cols_pos : 0 < lcd.cols := by
  have := lcd.width_ge
  unfold Display.cols
  omega

theorem rows_pos : 0 < lcd.rows := by
  have := lcd.height_ge
  unfold Display.rows
  omega

theorem pixel_nonneg : 0 ≤ lcd.pixel y x := by
  have h : (0 : Int) ≤ lcd.width * y := Int.mul_nonneg (by omega) (by omega)
  unfold Display.pixel
  omega

theorem le_pixel (hx : x < lcd.width) : (lcd.width * a : Int) ≤ lcd.pixel y x ↔ a ≤ y := by
  unfold Display.pixel
  norm_cast
  constructor
  · intro h
    by_contra hlt
    have := Nat.mul_le_mul_left lcd.width (show y + 1 ≤ a by omega)
    rw [Nat.mul_add] at this
    omega
  · intro h
    have := Nat.mul_le_mul_left lcd.width h
    omega

theorem pixel_lt (hx : x < lcd.width) : lcd.pixel y x < lcd.width * b ↔ y < b := by
  have h := le_pixel (a := b) (y := y) hx
  omega

theorem pixel_inj (hx : x < lcd.width) (hx' : x' < lcd.width) :
    lcd.pixel y x = lcd.pixel y' x' ↔ y = y' ∧ x = x' := by
  constructor
  · intro h
    have h1 := (le_pixel (a := y') hx).1 (h ▸ (le_pixel hx').2 (Nat.le_refl y'))
    have h2 := (le_pixel (a := y) hx').1 (h ▸ (le_pixel hx).2 (Nat.le_refl y))
    obtain rfl : y = y' := by omega
    unfold Display.pixel at h
    omega
  · rintro ⟨rfl, rfl⟩
    rfl

theorem pixels_eq (h0 : 0 ≤ len) (h : len < lcd.width * lcd.height + 1) :
    (pixels lcd len : Int) = len := by
  have hsize : ((lcd.width * lcd.height * 4 : Nat) : Int) < 2147483648 := by
    exact_mod_cast lcd.size_lt
  push_cast at hsize
  unfold pixels u32 Display.pixelBytes
  split <;> omega

/-- A part of the lines is not more than the display has. -/
theorem lines_le (hm : m ≤ lcd.height) :
    (0 : Int) ≤ lcd.width * m ∧ (lcd.width * m : Int) < lcd.width * lcd.height + 1 := by
  have := Nat.mul_le_mul_left lcd.width hm
  constructor
  · exact Int.mul_nonneg (by omega) (by omega)
  · norm_cast
    omega

theorem fillPixels_pixel (hx : x < lcd.width) (hm : m ≤ lcd.height) :
    fillPixels lcd fb (lcd.width * a) (lcd.width * m) (lcd.pixel y x) =
      if a ≤ y ∧ y < a + m then lcd.blank else fb (lcd.pixel y x) := by
  obtain ⟨h0, h1⟩ := lines_le hm
  have hhigh := pixel_lt (b := a + m) (y := y) hx
  push_cast [Int.mul_add] at hhigh
  unfold fillPixels
  rw [pixels_eq h0 h1]
  simp only [le_pixel hx, hhigh]

theorem copyPixels_pixel (hx : x < lcd.width) (hm : m ≤ lcd.height) :
    copyPixels lcd fb (lcd.width * a) (lcd.width * (a + b : Nat)) (lcd.width * m)
        (lcd.pixel y x) =
      if a ≤ y ∧ y < a + m then fb (lcd.pixel (y + b) x) else fb (lcd.pixel y x) := by
  obtain ⟨h0, h1⟩ := lines_le hm
  have hhigh := pixel_lt (b := a + m) (y := y) hx
  push_cast [Int.mul_add] at hhigh
  have hplace : lcd.pixel y x - lcd.width * a + lcd.width * (a + b : Nat) =
      lcd.pixel (y + b) x := by
    unfold Display.pixel
    push_cast
    ring
  unfold copyPixels
  rw [pixels_eq h0 h1, hplace]
  simp only [le_pixel hx, hhigh]

theorem fillPixels_beyond {q : Int} (hm : a + m ≤ lcd.height)
    (hq : q < 0 ∨ lcd.width * lcd.height ≤ q) :
    fillPixels lcd fb (lcd.width * a) (lcd.width * m) q = fb q := by
  obtain ⟨h0, h1⟩ := lines_le (show m ≤ lcd.height by omega)
  obtain ⟨h2, -⟩ := lines_le (show a ≤ lcd.height by omega)
  obtain ⟨-, h3⟩ := lines_le hm
  push_cast [Int.mul_add] at h3
  unfold fillPixels
  rw [pixels_eq h0 h1, if_neg (by omega)]

theorem copyPixels_beyond {q src : Int} (hm : a + m ≤ lcd.height)
    (hq : q < 0 ∨ lcd.width * lcd.height ≤ q) :
    copyPixels lcd fb (lcd.width * a) src (lcd.width * m) q = fb q := by
  obtain ⟨h0, h1⟩ := lines_le (show m ≤ lcd.height by omega)
  obtain ⟨h2, -⟩ := lines_le (show a ≤ lcd.height by omega)
  obtain ⟨-, h3⟩ := lines_le hm
  push_cast [Int.mul_add] at h3
  unfold copyPixels
  rw [pixels_eq h0 h1, if_neg (by omega)]

/-- The place of a pixel of a cell at line `y'` and column `x'`. -/
theorem pixel_in_cell (hx : x < lcd.width) (hx' : x' + 6 ≤ lcd.width) (k : Fin 8) (i : Fin 6) :
    lcd.pixel y x = lcd.pixel y' x' + k.val * lcd.width + i.val ↔
      y = y' + k ∧ x = x' + i := by
  have hi := i.isLt
  rw [← pixel_inj hx (show x' + i.val < lcd.width by omega)]
  have hplace : lcd.pixel y' x' + k.val * lcd.width + i.val = lcd.pixel (y' + k) (x' + i) := by
    unfold Display.pixel
    push_cast
    ring
  rw [hplace]

theorem size_bounds : lcd.width < 268435456 ∧ lcd.height < 268435456 := by
  have h := lcd.size_lt
  have h1 := Nat.mul_le_mul_right lcd.height lcd.width_ge
  have h2 := Nat.mul_le_mul_left lcd.width lcd.height_ge
  omega

end Geometry

/-! ### A character -/

section Render

variable {lcd} {y x y' x' : Nat} {fb : Int → UInt32} {a : Input}

theorem backgroundStride_eq {f : UInt32 → UInt32}
    (hbg : lcd.wide = true → a.bgcolor = 0xffffffff) (hf : background lcd a.bgcolor = some f) :
    backgroundStride lcd = lcd.width := by
  unfold backgroundStride
  split
  · rename_i hw
    simp [background, hbg hw] at hf
  · rfl

theorem in_cell_iff (hx : x < lcd.width) (hx' : x' + 6 ≤ lcd.width) :
    (∃ k : Fin 8, ∃ i : Fin 6, lcd.pixel y x = lcd.pixel y' x' + k.val * lcd.width + i.val) ↔
      (y' ≤ y ∧ y < y' + 8) ∧ x' ≤ x ∧ x < x' + 6 := by
  simp only [pixel_in_cell hx hx']
  constructor
  · rintro ⟨k, i, h1, h2⟩
    omega
  · rintro ⟨h1, h2⟩
    exact ⟨⟨y - y', by omega⟩, ⟨x - x', by omega⟩, by simp only; omega, by simp only; omega⟩

theorem dot_in_cell_iff (hx : x < lcd.width) (hx' : x' + 6 ≤ lcd.width) :
    (∃ k : Fin 8, ∃ i : Fin 6, dot lcd a.char i k = true ∧
        lcd.pixel y x = lcd.pixel y' x' + k.val * lcd.width + i.val) ↔
      ((y' ≤ y ∧ y < y' + 8) ∧ x' ≤ x ∧ x < x' + 6) ∧ dot lcd a.char (x - x') (y - y') = true := by
  simp only [pixel_in_cell hx hx']
  constructor
  · rintro ⟨k, i, hdot, rfl, rfl⟩
    refine ⟨by omega, ?_⟩
    simpa using hdot
  · rintro ⟨⟨h1, h2⟩, hdot⟩
    exact ⟨⟨y - y', by omega⟩, ⟨x - x', by omega⟩, hdot, by simp only; omega, by simp only; omega⟩

/-- A character changes the pixels of its cell. -/
theorem rendercharNative_pixel (hbg : lcd.wide = true → a.bgcolor = 0xffffffff) (hx : x < lcd.width)
    (hx' : x' + 6 ≤ lcd.width) :
    rendercharNative lcd fb (lcd.pixel y' x') a (lcd.pixel y x) =
      if (y' ≤ y ∧ y < y' + 8) ∧ x' ≤ x ∧ x < x' + 6 then
        if dot lcd a.char (x - x') (y - y') then foreground lcd a.fgcolor
        else (background lcd a.bgcolor).elim (fb (lcd.pixel y x)) fun f => f (fb (lcd.pixel y x))
      else fb (lcd.pixel y x) := by
  unfold rendercharNative
  simp only [dot_in_cell_iff hx hx']
  by_cases hin : (y' ≤ y ∧ y < y' + 8) ∧ x' ≤ x ∧ x < x' + 6
  · simp only [hin, true_and, if_true]
    split
    · rfl
    · cases hf : background lcd a.bgcolor with
      | none => rfl
      | some f => simp only [backgroundStride_eq hbg hf, in_cell_iff hx hx', hin, if_true,
          Option.elim_some, true_and]
  · simp only [hin, false_and, if_false]
    cases hf : background lcd a.bgcolor with
    | none => rfl
    | some f => simp only [backgroundStride_eq hbg hf, in_cell_iff hx hx', hin, if_false]

/-- The pixels of a cell are on the display. -/
theorem cell_inside (hy' : y' + 8 ≤ lcd.height) (hx' : x' + 6 ≤ lcd.width) (k : Fin 8) (i : Fin 6) :
    0 ≤ lcd.pixel y' x' + k.val * lcd.width + i.val ∧
      lcd.pixel y' x' + k.val * lcd.width + i.val < lcd.width * lcd.height := by
  have hi := i.isLt
  have hk := k.isLt
  have hplace : lcd.pixel y' x' + k.val * lcd.width + i.val = lcd.pixel (y' + k) (x' + i) := by
    unfold Display.pixel
    push_cast
    ring
  rw [hplace]
  exact ⟨pixel_nonneg, (pixel_lt (by omega)).2 (by omega)⟩

theorem rendercharNative_beyond {q : Int} (hbg : lcd.wide = true → a.bgcolor = 0xffffffff)
    (hy' : y' + 8 ≤ lcd.height) (hx' : x' + 6 ≤ lcd.width)
    (hq : q < 0 ∨ lcd.width * lcd.height ≤ q) :
    rendercharNative lcd fb (lcd.pixel y' x') a q = fb q := by
  have hout : ∀ (k : Fin 8) (i : Fin 6), q ≠ lcd.pixel y' x' + k.val * lcd.width + i.val := by
    intro k i he
    have := cell_inside hy' hx' k i
    omega
  unfold rendercharNative
  rw [if_neg (by rintro ⟨k, i, -, h⟩; exact hout k i h)]
  cases hf : background lcd a.bgcolor with
  | none => rfl
  | some f =>
    simp only [backgroundStride_eq hbg hf]
    rw [if_neg (by rintro ⟨k, i, h⟩; exact hout k i h)]

theorem runs_confined (hbg : lcd.wide = true → a.bgcolor = 0xffffffff) (hy : lcd.offsety ≤ y')
    (hy' : y' + 8 ≤ lcd.offsety + 8 * lcd.rows) (hx : lcd.offsetx ≤ x')
    (hx' : x' + 6 ≤ lcd.offsetx + 6 * lcd.cols) :
    (Access.render (runs lcd (lcd.pixel y' x') a)).Confined lcd := by
  have hrow : ∀ k < 8, ∃ y x, lcd.pixel y' x' + (k : Nat) * lcd.width = lcd.pixel y x ∧
      lcd.offsety ≤ y ∧ y < lcd.offsety + 8 * lcd.rows ∧
      lcd.offsetx ≤ x ∧ x + 6 ≤ lcd.offsetx + 6 * lcd.cols := by
    intro k hk
    refine ⟨y' + k, x', ?_, by omega, by omega, hx, hx'⟩
    unfold Display.pixel
    push_cast
    ring
  intro p hp
  simp only [runs, List.mem_append, List.mem_map, List.mem_range] at hp
  rcases hp with hp | ⟨k, hk, rfl⟩
  · split at hp
    · cases hp
    · rename_i hnone
      obtain ⟨f, hf⟩ := Option.ne_none_iff_exists'.1 hnone
      rw [backgroundStride_eq hbg hf] at hp
      obtain ⟨k, hk, rfl⟩ := List.mem_map.1 hp
      exact hrow k (List.mem_range.1 hk)
  · exact hrow k hk

end Render

/-! ### Scrolling -/

section Scroll

variable {lcd} {y x k : Nat} {s : State}

/-- The display moves up by `k` rows, when that is at most all of them. -/
theorem scroll_eq (hk : k ≤ lcd.rows) (hrow : s.row + 1 = lcd.rows + k) :
    scroll lcd s =
      ({ s with
          fb := fillPixels lcd
            (copyPixels lcd s.fb (lcd.width * lcd.offsety)
              (lcd.width * (lcd.offsety + 8 * k : Nat)) (lcd.width * (8 * (lcd.rows - k) : Nat)))
            (lcd.width * (lcd.offsety + 8 * (lcd.rows - k) : Nat)) (lcd.width * (8 * k : Nat))
          row := lcd.rows - 1 },
        [.copy (lcd.width * lcd.offsety) (lcd.width * (lcd.offsety + 8 * k : Nat))
            (lcd.width * (8 * (lcd.rows - k) : Nat)),
          .fill (lcd.width * (lcd.offsety + 8 * (lcd.rows - k) : Nat))
            (lcd.width * (8 * k : Nat))]) := by
  have hrows := @rows_le lcd
  have hsize := (@size_bounds lcd).2
  have hoffset : s32 (u32 ((s.row : Int) - lcd.rows + 1)) = k := by
    unfold s32 u32
    split <;> omega
  have hsrc : (lcd.width * lcd.offsety : Int) + lcd.width * (8 * k : Nat) =
      lcd.width * (lcd.offsety + 8 * k : Nat) := by
    push_cast
    ring
  have hlen : (8 * lcd.width : Int) * (lcd.rows - k) = lcd.width * (8 * (lcd.rows - k) : Nat) := by
    push_cast [hk]
    ring
  have hdst : (lcd.width * lcd.offsety : Int) + lcd.width * (8 * (lcd.rows - k) : Nat) =
      lcd.width * (lcd.offsety + 8 * (lcd.rows - k) : Nat) := by
    push_cast [hk]
    ring
  have hfill : (8 * lcd.width : Int) * k = lcd.width * (8 * k : Nat) := by
    push_cast
    ring
  simp only [scroll, hoffset, hsrc, hlen, hdst, hfill]

theorem scroll_pixel (hk : k ≤ lcd.rows) (hrow : s.row + 1 = lcd.rows + k) (hx : x < lcd.width) :
    (scroll lcd s).1.fb (lcd.pixel y x) =
      if lcd.offsety ≤ y ∧ y < lcd.offsety + 8 * lcd.rows then
        if y + 8 * k < lcd.offsety + 8 * lcd.rows then s.fb (lcd.pixel (y + 8 * k) x) else lcd.blank
      else s.fb (lcd.pixel y x) := by
  have hrows := @rows_le lcd
  rw [scroll_eq hk hrow]
  simp only
  rw [fillPixels_pixel hx (by omega), copyPixels_pixel hx (by omega)]
  by_cases hin : lcd.offsety ≤ y ∧ y < lcd.offsety + 8 * lcd.rows
  · by_cases hold : y + 8 * k < lcd.offsety + 8 * lcd.rows
    · rw [if_pos hin, if_pos hold, if_neg (by omega), if_pos (by omega)]
    · rw [if_pos hin, if_neg hold, if_pos (by omega)]
  · rw [if_neg hin, if_neg (by omega), if_neg (by omega)]

theorem scroll_beyond {q : Int} (hk : k ≤ lcd.rows) (hrow : s.row + 1 = lcd.rows + k)
    (hq : q < 0 ∨ lcd.width * lcd.height ≤ q) : (scroll lcd s).1.fb q = s.fb q := by
  have hrows := @rows_le lcd
  rw [scroll_eq hk hrow]
  simp only
  rw [fillPixels_beyond (by omega) hq, copyPixels_beyond (by omega) hq]

theorem scroll_confined (hk : k ≤ lcd.rows) (hrow : s.row + 1 = lcd.rows + k) :
    ∀ a ∈ (scroll lcd s).2, a.Confined lcd := by
  have hmono : ∀ a b : Nat, a ≤ b → (lcd.width * a : Int) ≤ lcd.width * b := fun a b h =>
    Int.mul_le_mul_of_nonneg_left (by omega) (by omega)
  have h0 := hmono 0 (8 * (lcd.rows - k)) (by omega)
  have h1 := hmono 0 (8 * k) (by omega)
  have h2 := hmono lcd.offsety (lcd.offsety + 8 * k) (by omega)
  have h3 := hmono lcd.offsety (lcd.offsety + 8 * (lcd.rows - k)) (by omega)
  have h4 : (lcd.width * (lcd.offsety + 8 * lcd.rows) : Int) =
      lcd.width * (lcd.offsety + 8 * (lcd.rows - k) : Nat) + lcd.width * (8 * k : Nat) := by
    push_cast [hk]
    ring
  have h5 : (lcd.width * (lcd.offsety + 8 * (lcd.rows - k) : Nat) : Int) =
      lcd.width * lcd.offsety + lcd.width * (8 * (lcd.rows - k) : Nat) := by
    push_cast [hk]
    ring
  have h6 : (lcd.width * (lcd.offsety + 8 * lcd.rows) : Int) =
      lcd.width * (lcd.offsety + 8 * k : Nat) + lcd.width * (8 * (lcd.rows - k) : Nat) := by
    push_cast [hk]
    ring
  rw [scroll_eq hk hrow]
  intro a ha
  simp only [List.mem_cons, List.not_mem_nil, or_false] at ha
  rcases ha with rfl | rfl
  · simp only [Access.Confined]
    omega
  · simp only [Access.Confined]
    omega

end Scroll

/-! ### The lines on the display -/

section Invariant

variable {lcd} {fb₀ : Int → UInt32} {t : Layout} {top : Nat} {s : State} {a : Input}

/-- The display shows the lines from `top` on, and `current_row` and `current_col` are where the
text goes on. -/
structure Inv (lcd : Display) (fb₀ : Int → UInt32) (t : Layout) (top : Nat) (s : State) : Prop where
  shows : Shows lcd fb₀ t top s.fb
  line : s.row + top = t.line
  col : s.col = u32 ((t.col : Int) - 1)
  row_lt : s.row < 4294967296
  col_lt : t.col < 4294967296
  below : ∀ l c, t.line < l → t.cells l c = none
  ahead : ∀ c, t.col ≤ c → t.cells t.line c = none
  waiting : ∀ l c, top + lcd.rows ≤ l → t.cells l c = none
  scrolled : top = 0 ∨ top + lcd.rows ≤ t.line + 1

/-- The next character goes to `line` and `col`, on the display or below it. -/
structure Ready (lcd : Display) (fb₀ : Int → UInt32) (t : Layout) (top line col : Nat) (s : State) :
    Prop where
  shows : Shows lcd fb₀ t top s.fb
  atLine : s.row + top = line
  atCol : s.col = col
  col_lt : col < lcd.cols
  below : ∀ l c, line < l → t.cells l c = none
  ahead : ∀ c, col ≤ c → t.cells line c = none
  waiting : ∀ l c, top + lcd.rows ≤ l → t.cells l c = none
  scrolled : top = 0 ∨ top + lcd.rows ≤ line + 1

theorem look_shift {y x k : Nat} (hy : lcd.offsety ≤ y)
    (hyk : y + 8 * k < lcd.offsety + 8 * lcd.rows) :
    look lcd t top (y + 8 * k) x = look lcd t (top + k) y x := by
  unfold look
  rw [show top + (y + 8 * k - lcd.offsety) / 8 = top + k + (y - lcd.offsety) / 8 by omega,
    show (y + 8 * k - lcd.offsety) % 8 = (y - lcd.offsety) % 8 by omega]
  by_cases hx : lcd.offsetx ≤ x ∧ x < lcd.offsetx + 6 * lcd.cols
  · rw [if_pos (by omega), if_pos (by omega)]
  · rw [if_neg (by omega), if_neg (by omega)]

theorem look_blank {y x : Nat} (h : ∀ c, t.cells (top + (y - lcd.offsety) / 8) c = none) :
    look lcd t top y x = lcd.blank := by
  unfold look
  split
  · rw [h]
    rfl
  · rfl

theorem look_outside {y x : Nat} (hy : ¬ (lcd.offsety ≤ y ∧ y < lcd.offsety + 8 * lcd.rows)) :
    look lcd t top y x = lcd.blank := if_neg fun h => hy h.1

/-- The lines that were waiting below the display come up. -/
theorem Shows.scroll {k : Nat} (h : Shows lcd fb₀ t top s.fb) (hk : k ≤ lcd.rows)
    (hrow : s.row + 1 = lcd.rows + k) (hwait : ∀ l c, top + lcd.rows ≤ l → t.cells l c = none) :
    Shows lcd fb₀ t (top + k) (scroll lcd s).1.fb := by
  have hrows := @rows_le lcd
  constructor
  · intro y x hy hx
    rw [scroll_pixel hk hrow hx]
    by_cases hin : lcd.offsety ≤ y ∧ y < lcd.offsety + 8 * lcd.rows
    · rw [if_pos hin]
      by_cases hold : y + 8 * k < lcd.offsety + 8 * lcd.rows
      · rw [if_pos hold, h.display (y + 8 * k) x (by omega) hx, look_shift hin.1 hold]
      · rw [if_neg hold, look_blank fun c => hwait _ c (by omega)]
    · rw [if_neg hin, h.display y x hy hx, look_outside hin, look_outside hin]
  · intro q hq
    rw [scroll_beyond hk hrow hq, h.beyond q hq]

/-- A character in a blank cell changes what the text looks like there and nowhere else. -/
theorem Shows.render {r col : Nat} (h : Shows lcd fb₀ t top s.fb)
    (hbg : lcd.wide = true → a.bgcolor = 0xffffffff) (hr : r < lcd.rows) (hcol : col < lcd.cols)
    (hblank : t.cells (top + r) col = none) :
    Shows lcd fb₀ (t.set (top + r) col a) top
      (rendercharNative lcd s.fb (lcd.pixel (lcd.offsety + 8 * r) (lcd.offsetx + 6 * col)) a) := by
  have hrows := @rows_le lcd
  have hcols := @cols_le lcd
  constructor
  · intro y x hy hx
    rw [rendercharNative_pixel hbg hx (by omega), h.display y x hy hx]
    by_cases hcell : (lcd.offsety + 8 * r ≤ y ∧ y < lcd.offsety + 8 * r + 8) ∧
        lcd.offsetx + 6 * col ≤ x ∧ x < lcd.offsetx + 6 * col + 6
    · obtain ⟨⟨hy1, hy2⟩, hx1, hx2⟩ := hcell
      have hl : top + (y - lcd.offsety) / 8 = top + r := by omega
      have hc : (x - lcd.offsetx) / 6 = col := by omega
      have hdx : (x - lcd.offsetx) % 6 = x - (lcd.offsetx + 6 * col) := by omega
      have hdy : (y - lcd.offsety) % 8 = y - (lcd.offsety + 8 * r) := by omega
      have hin : (lcd.offsety ≤ y ∧ y < lcd.offsety + 8 * lcd.rows) ∧
          lcd.offsetx ≤ x ∧ x < lcd.offsetx + 6 * lcd.cols := by omega
      simp only [hy1, hy2, hx1, hx2, if_true, look, hin, hl, hc, hdx, hdy, hblank,
        Layout.set, shade, and_self]
    · rw [if_neg hcell]
      unfold look
      split
      · rename_i hin
        -- Another cell of the display, or none of its pixels.
        have hother : ¬ (top + (y - lcd.offsety) / 8 = top + r ∧ (x - lcd.offsetx) / 6 = col) := by
          omega
        simp only [Layout.set, hother, if_false]
      · rfl
  · intro q hq
    rw [rendercharNative_beyond hbg (by omega) (by omega) hq, h.beyond q hq]

theorem cursor_eq : cursor lcd s =
    lcd.pixel (lcd.offsety + 8 * s.row) (lcd.offsetx + 6 * s.col) := by
  unfold cursor Display.pixel
  push_cast
  ring

/-- The branch that scrolls leaves the next character on the display. -/
theorem Ready.scroll {line col : Nat} (h : Ready lcd fb₀ t top line col s)
    (hrow : s.row < 2 * lcd.rows) :
    ∃ top', Ready lcd fb₀ t top' line col (if lcd.rows ≤ s.row then scroll lcd s else (s, [])).1 ∧
      (if lcd.rows ≤ s.row then Lcd.scroll lcd s else (s, [])).1.row < lcd.rows ∧
      ∀ b ∈ (if lcd.rows ≤ s.row then Lcd.scroll lcd s else (s, [])).2, b.Confined lcd := by
  have hrows := @rows_pos lcd
  split
  · rename_i hge
    obtain ⟨k, hk⟩ : ∃ k, s.row + 1 = lcd.rows + k := ⟨s.row + 1 - lcd.rows, by omega⟩
    have hk' : k ≤ lcd.rows := by omega
    have hline := h.atLine
    refine ⟨top + k, ?_, ?_, scroll_confined hk' hk⟩
    · have hshows := h.shows.scroll hk' hk h.waiting
      rw [scroll_eq hk' hk] at hshows ⊢
      refine ⟨hshows, by simp only; omega, h.atCol, h.col_lt, h.below, h.ahead, ?_, .inr (by omega)⟩
      intro l c hl
      exact h.waiting l c (by omega)
    · rw [scroll_eq hk' hk]
      simp only
      omega
  · exact ⟨top, h, by simp only; omega, by simp⟩

/-- What printing leaves, and that it draws in the console only. -/
structure Printed (lcd : Display) (fb₀ : Int → UInt32) (t : Layout) (r : State × List Access) :
    Prop where
  inv : ∃ top, Inv lcd fb₀ t top r.1
  row : r.1.row < lcd.rows
  confined : ∀ b ∈ r.2, b.Confined lcd

/-- The character itself, once its cell is on the display. -/
theorem Ready.render {line col : Nat} (h : Ready lcd fb₀ t top line col s)
    (hbg : lcd.wide = true → a.bgcolor = 0xffffffff) (hrow : s.row < lcd.rows) :
    Inv lcd fb₀ (t.set line col a) top
        { s with fb := rendercharNative lcd s.fb (cursor lcd s) a } ∧
      (Access.render (runs lcd (cursor lcd s) a)).Confined lcd := by
  have hcol := h.col_lt
  have hline := h.atLine
  have hwidth := (@size_bounds lcd).1
  have hheight := (@size_bounds lcd).2
  have hrows := @rows_le lcd
  have hcols := @cols_le lcd
  rw [cursor_eq, h.atCol]
  constructor
  · constructor
    · have hshows := h.shows.render (a := a) hbg hrow hcol
        (by rw [show top + s.row = line by omega]; exact h.ahead col (Nat.le_refl _))
      rwa [show top + s.row = line by omega] at hshows
    · exact hline
    · simp only [Layout.set, u32]
      omega
    · simp only
      omega
    · simp only [Layout.set]
      omega
    · intro l c hl
      simp only [Layout.set] at hl ⊢
      rw [if_neg (by omega)]
      exact h.below l c hl
    · intro c hc
      simp only [Layout.set] at hc ⊢
      rw [if_neg (by omega)]
      exact h.ahead c (by omega)
    · intro l c hl
      simp only [Layout.set]
      rw [if_neg (by omega)]
      exact h.below l c (by omega)
    · exact h.scrolled
  · exact runs_confined hbg (by omega) (by omega) (by omega) (by omega)

theorem Ready.print {line col : Nat} (h : Ready lcd fb₀ t top line col s)
    (hbg : lcd.wide = true → a.bgcolor = 0xffffffff) (hrow : s.row < 2 * lcd.rows)
    (hplace : ¬ lcd.cols ≤ s.col) :
    Printed lcd fb₀ (t.set line col a) (printChar lcd s a) := by
  obtain ⟨top', hready, hlow, hconf⟩ := h.scroll hrow
  obtain ⟨hinv, hrender⟩ := hready.render hbg hlow
  unfold printChar
  rw [if_neg hplace]
  refine ⟨⟨top', hinv⟩, hlow, ?_⟩
  intro b hb
  rcases List.mem_append.1 hb with hb | hb
  · exact hconf b hb
  · rw [List.mem_singleton] at hb
    subst hb
    exact hrender

/-- A line that is full is left first. -/
theorem printChar_wrap (hplace : lcd.cols ≤ s.col) :
    printChar lcd s a = printChar lcd { s with col := 0, row := u32 (s.row + 1) } a := by
  have hcols := @cols_pos lcd
  unfold printChar
  rw [if_pos hplace, if_neg (by simp only; omega)]

end Invariant

/-! ### All runs -/

/-- Less than a whole screen of lines waits below the last row when a character is printed, its
background is transparent where pixels have four bytes, and the counters do not wrap. -/
def Fits (x : State × Layout) (a : Input) : Prop :=
  if a.char = 0x0d then True
  else if a.char = 0x0a then x.1.row + 1 < 4294967296
  else if a.char = 0x09 then x.2.col + 4 < 4294967296
  else (lcd.wide = true → a.bgcolor = 0xffffffff) ∧
    (if lcd.cols ≤ x.2.col then x.1.row + 1 else x.1.row) < 2 * lcd.rows

instance (x : State × Layout) (a : Input) : Decidable (Fits lcd x a) := by
  unfold Fits
  infer_instance

/-- A character of the stream, and the text it belongs to. -/
def step (x : State × Layout) (a : Input) : Option ((State × Layout) × List Access) :=
  let r := putcNoblit lcd x.1 a
  some ((r.1, x.2.put lcd a), r.2)

section Runs

variable {lcd} {fb₀ : Int → UInt32} {t : Layout} {top : Nat} {s : State} {a : Input}

theorem or_three (n : Nat) : n ||| 3 = n / 4 * 4 + 3 := by
  have hsplit : n = 2 ^ 2 * (n / 4) ||| n % 4 := by
    rw [← Nat.two_pow_add_eq_or_of_lt (Nat.mod_lt n (by decide)) (n / 4)]
    omega
  have hlow : n % 4 ||| 3 = 3 := by
    obtain h | h | h | h : n % 4 = 0 ∨ n % 4 = 1 ∨ n % 4 = 2 ∨ n % 4 = 3 := by omega
    all_goals rw [h]; rfl
  conv_lhs => rw [hsplit, Nat.or_assoc, hlow]
  rw [← Nat.two_pow_add_eq_or_of_lt (by decide) (n / 4)]
  omega

theorem Inv.newline (h : Inv lcd fb₀ t top s) (hrow : s.row + 1 < 4294967296) :
    Inv lcd fb₀ { t with line := t.line + 1, col := 0 } top
      { s with col := u32 (-1), row := u32 (s.row + 1) } := by
  have hline := h.line
  have hrow' : u32 (s.row + 1) = s.row + 1 := by
    unfold u32
    omega
  constructor
  · exact ⟨h.shows.display, h.shows.beyond⟩
  · simp only [hrow']
    omega
  · rfl
  · simp only [hrow']
    omega
  · simp
  · intro l c hl
    exact h.below l c (by simp only at hl; omega)
  · intro c _
    exact h.below _ c (by simp)
  · exact h.waiting
  · have := h.scrolled
    simp only
    omega

theorem Inv.col_succ (h : Inv lcd fb₀ t top s) : u32 (s.col + 1) = t.col := by
  have hlt := h.col_lt
  rw [h.col]
  unfold u32
  omega

theorem Inv.tab (h : Inv lcd fb₀ t top s) (hcol : t.col + 4 < 4294967296) :
    Inv lcd fb₀ { t with col := (t.col / 4 + 1) * 4 } top
      { s with col := u32 (s.col + 1) ||| 3 } := by
  constructor
  · exact ⟨h.shows.display, h.shows.beyond⟩
  · exact h.line
  · show u32 (s.col + 1) ||| 3 = u32 (((t.col / 4 + 1) * 4 : Nat) - 1)
    rw [h.col_succ, or_three]
    unfold u32
    omega
  · exact h.row_lt
  · simp only
    omega
  · exact h.below
  · intro c hc
    exact h.ahead c (by simp only at hc; omega)
  · exact h.waiting
  · exact h.scrolled

theorem Inv.print (h : Inv lcd fb₀ t top s)
    (hbg : lcd.wide = true → a.bgcolor = 0xffffffff)
    (hrow : (if lcd.cols ≤ t.col then s.row + 1 else s.row) < 2 * lcd.rows) :
    Printed lcd fb₀ (if lcd.cols ≤ t.col then t.set (t.line + 1) 0 a else t.set t.line t.col a)
      (printChar lcd { s with col := u32 (s.col + 1) } a) := by
  have hheight := (@size_bounds lcd).2
  have hrows := @rows_le lcd
  have hcols := @cols_pos lcd
  have hline := h.line
  have hscrolled := h.scrolled
  rw [h.col_succ]
  split
  · rename_i hfull
    rw [if_pos hfull] at hrow
    have hrow' : u32 (s.row + 1) = s.row + 1 := by
      unfold u32
      omega
    rw [printChar_wrap (by exact hfull)]
    simp only [hrow']
    have hready : Ready lcd fb₀ t top (t.line + 1) 0 { s with col := 0, row := s.row + 1 } :=
      ⟨h.shows, by simp only; omega, rfl, hcols, fun l c hl => h.below l c (by omega),
        fun c _ => h.below _ c (by omega), h.waiting, by omega⟩
    exact hready.print hbg hrow (by simp only; omega)
  · rename_i hroom
    rw [if_neg hroom] at hrow
    have hready : Ready lcd fb₀ t top t.line t.col { s with col := t.col } :=
      ⟨h.shows, hline, rfl, by omega, h.below, h.ahead, h.waiting, hscrolled⟩
    exact hready.print hbg hrow hroom

theorem inv_init : Inv lcd fb₀ Layout.empty 0 (init lcd fb₀) := by
  constructor
  · constructor
    · intro y x hy hx
      have h0 := @pixel_nonneg lcd y x
      have h1 := (pixel_lt (b := lcd.height) hx).2 hy
      rw [look_blank fun c => rfl]
      exact if_pos ⟨h0, h1⟩
    · intro q hq
      exact if_neg (by omega)
  · rfl
  · rfl
  · simp [init]
  · simp [Layout.empty]
  · intro l c _
    rfl
  · intro c _
    rfl
  · intro l c _
    rfl
  · exact .inl rfl

/-- With the cursor on the display, the display ends in the line that was written last. -/
theorem Inv.shows_last (h : Inv lcd fb₀ t top s) (hrow : s.row < lcd.rows) :
    Shows lcd fb₀ t (t.line + 1 - lcd.rows) s.fb := by
  have hline := h.line
  have htop : t.line + 1 - lcd.rows = top := by
    rcases h.scrolled with h0 | h1 <;> omega
  rw [htop]
  exact h.shows

theorem Inv.putc (h : Inv lcd fb₀ t top s) (hok : Fits lcd (s, t) a) :
    (∃ top', Inv lcd fb₀ (t.put lcd a) top' (putcNoblit lcd s a).1) ∧
      (∀ b ∈ (putcNoblit lcd s a).2, b.Confined lcd) ∧
      (Printable a.char → (putcNoblit lcd s a).1.row < lcd.rows) := by
  unfold Fits at hok
  unfold putcNoblit Layout.put Printable
  by_cases hret : a.char = 0x0d
  · simp only [hret, if_true]
    exact ⟨⟨top, h⟩, by simp, by simp⟩
  · by_cases hnew : a.char = 0x0a
    · rw [if_neg hret, if_pos hnew] at hok
      rw [if_neg hret, if_neg hret]
      simp only [hnew, if_true]
      exact ⟨⟨top, h.newline hok⟩, by simp, by simp⟩
    · by_cases htab : a.char = 0x09
      · rw [if_neg hret, if_neg hnew, if_pos htab] at hok
        rw [if_neg hret, if_neg hret]
        simp only [htab, if_true]
        exact ⟨⟨top, h.tab hok⟩, by simp, by simp⟩
      · rw [if_neg hret, if_neg hnew, if_neg htab] at hok
        have hprint := h.print hok.1 hok.2
        simp only [hret, hnew, htab, if_false]
        exact ⟨hprint.inv, hprint.confined, fun _ => hprint.row⟩

/-- As long as less than a whole screen waits to be scrolled in, the console draws in its own lines,
and after each character the display shows the last lines of the text. -/
theorem console_shows (lcd : Display) (fb₀ : Int → UInt32) {x : State × Layout}
    {es : List ((State × Layout) × Input × List Access)}
    (h : Lts.Runs (step lcd) (Fits lcd) (init lcd fb₀, Layout.empty) es x) :
    (∀ e ∈ es, ∀ b ∈ e.2.2, b.Confined lcd) ∧
      ∀ e ∈ es.getLast?, Printable e.2.1.char →
        Shows lcd fb₀ x.2 (x.2.line + 1 - lcd.rows) x.1.fb := by
  have hinv : (∀ e ∈ es, ∀ b ∈ e.2.2, b.Confined lcd) ∧ (∃ top, Inv lcd fb₀ x.2 top x.1) ∧
      ∀ e ∈ es.getLast?, Printable e.2.1.char → x.1.row < lcd.rows := by
    refine h.invariant_trace
      (I := fun l x => (∀ e ∈ l, ∀ b ∈ e.2.2, b.Confined lcd) ∧
        (∃ top, Inv lcd fb₀ x.2 top x.1) ∧
        ∀ e ∈ l.getLast?, Printable e.2.1.char → x.1.row < lcd.rows) ?_ ?_
    · exact ⟨by simp, ⟨0, inv_init⟩, by simp⟩
    · rintro l ⟨s, t⟩ a y o ⟨hconf, ⟨top, hs⟩, -⟩ hok hstep
      cases hstep
      obtain ⟨hnext, hdrawn, hrow⟩ := hs.putc hok
      refine ⟨?_, hnext, ?_⟩
      · simp only [List.forall_mem_append, List.forall_mem_singleton]
        exact ⟨hconf, hdrawn⟩
      · intro e he hprint
        simp only [List.getLast?_concat, Option.mem_some_iff] at he
        subst he
        exact hrow hprint
  obtain ⟨hconf, ⟨top, hlast⟩, hrow⟩ := hinv
  exact ⟨hconf, fun e he hprint => hlast.shows_last (hrow e he hprint)⟩

/-- What `lcdconsole_write_noblit` does is such a run. -/
theorem exec_write (string : List UInt8) (fgcolor bgcolor : UInt32) :
    (Lts.exec (step lcd) (s, t) (string.map fun c => ⟨c, fgcolor, bgcolor⟩)).map Prod.fst =
      some (writeNoblit lcd s string fgcolor bgcolor) := by
  unfold writeNoblit
  induction string generalizing s t with
  | nil => rfl
  | cons c string ih => simpa [Lts.exec, step] using ih

end Runs

/-! ### The display of the iPod Classic -/

abbrev ipodclassic : Display := ⟨320, 240, false, fun _ _ => 0, by decide, by decide, by decide⟩

/-- A tab and a character, an empty line, and enough lines to scroll. -/
def shortText : List Input :=
  ([0x09, 0x41, 0x0d, 0x0a, 0x0a, 0x42] ++ List.replicate 40 0x0a ++ [0x43] : List UInt8).map
    fun c => ⟨c, 0, 0xffffffff⟩

theorem console_shows_short : ∃ es x,
    Lts.Runs (step ipodclassic) (Fits ipodclassic)
      (init ipodclassic fun _ => 0, Layout.empty) es x ∧ x.2.line = 42 ∧
    (∀ e ∈ es, ∀ b ∈ e.2.2, b.Confined ipodclassic) ∧
      ∀ e ∈ es.getLast?, Printable e.2.1.char →
        Shows ipodclassic (fun _ => 0) x.2 (x.2.line + 1 - 30) x.1.fb := by
  have hall : (Lts.trace (step ipodclassic) (init ipodclassic fun _ => 0, Layout.empty)
      shortText).map (fun q => (q.2.2.line, q.1.all fun e => decide (Fits ipodclassic e.1 e.2.1))) =
        some (42, true) := by decide +kernel
  obtain ⟨⟨es, x⟩, ht, hq⟩ := Option.map_eq_some_iff.1 hall
  obtain ⟨hline, hmeets⟩ := Prod.mk.inj hq
  have hruns : Lts.Runs (step ipodclassic) (fun _ _ => True)
      (init ipodclassic fun _ => 0, Layout.empty) es x := Lts.trace_runs ht fun _ _ _ => trivial
  have hfits : Lts.Runs (step ipodclassic) (Fits ipodclassic)
      (init ipodclassic fun _ => 0, Layout.empty) es x :=
    hruns.of_forall fun e he _ => of_decide_eq_true (List.all_eq_true.1 hmeets e he)
  exact ⟨es, x, hfits, hline, console_shows ipodclassic (fun _ => 0) hfits⟩

/-- Two screens of empty lines and a character. -/
def emptyLines : List Input :=
  (List.replicate 60 0x0a ++ [0x43] : List UInt8).map fun c => ⟨c, 0, 0xffffffff⟩

theorem copies_negative_length : ¬ ∀ es x,
    Lts.Runs (step ipodclassic) (fun _ _ => True)
      (init ipodclassic fun _ => 0, Layout.empty) es x →
    (∀ e ∈ es, ∀ b ∈ e.2.2, b.Confined ipodclassic) ∧
      ∀ e ∈ es.getLast?, Printable e.2.1.char →
        Shows ipodclassic (fun _ => 0) x.2 (x.2.line + 1 - 30) x.1.fb := by
  intro h
  have hlast : (Lts.trace (step ipodclassic) (init ipodclassic fun _ => 0, Layout.empty)
      emptyLines).map (fun q => q.1.getLast?.map fun e => e.2.2.head?) =
        some (some (some (.copy 0 79360 (-2560)))) := by decide +kernel
  obtain ⟨⟨es, x⟩, ht, he⟩ := Option.map_eq_some_iff.1 hlast
  obtain ⟨e, hmem, he⟩ := Option.map_eq_some_iff.1 he
  have hconf := (h es x (Lts.trace_runs ht fun _ _ _ => trivial)).1 e (List.mem_of_getLast? hmem) _
    (List.mem_of_head? he)
  exact absurd hconf.1 (by decide)

end Lcd
end Freemyipod
