import Mathlib.Tactic.Ring
import Mathlib.Tactic.Linarith

/-!
# Umsboot.Fbconsole

The text console that umsboot draws on its framebuffer: the parser of escape sequences, the cursor
and what is drawn. The colours, which no cursor movement and no rectangle depends on, are left out.

* `Draw`: what is drawn, as rectangles of pixels, with the cursor where it matters.
* `putc`, `flush`, `run`: the console's functions.
* `Inv`: what is drawn lies in the framebuffer. `putc` keeps it unless it `Strays`.
* `confined_iff`: the same for everything the console is ever given.
-/

namespace Freemyipod
namespace Umsboot
namespace Fbconsole

def u16 (z : Int) : Nat := (z % 65536).toNat

/-- `simpletextrenderer_get_max_width` -/
def maxWidth : Nat := 6

/-- `simpletextrenderer_get_line_height` -/
def lineHeight : Nat := 8

/-- `struct fbconsole_config` with the size of the framebuffer; the grid fits in there. -/
structure Config where
  fbWidth : Nat
  fbHeight : Nat
  x : Nat
  y : Nat
  w : Nat
  h : Nat
  hw : 0 < w
  hh : 0 < h
  fitsWidth : x + w * maxWidth ≤ fbWidth
  fitsHeight : y + h * lineHeight ≤ fbHeight
  width16 : fbWidth < 65536
  height16 : fbHeight < 65536

namespace Config

def ipodnano2g : Config := by
  refine ⟨168, 128, 0, 0, 28, 16, ?_, ?_, ?_, ?_, ?_, ?_⟩ <;> decide

def ipodnano4g : Config := by
  refine ⟨240, 320, 0, 0, 40, 40, ?_, ?_, ?_, ?_, ?_, ?_⟩ <;> decide

def ipodclassic : Config := by
  refine ⟨320, 240, 1, 0, 53, 30, ?_, ?_, ?_, ?_, ?_, ?_⟩ <;> decide

end Config

structure Rect where
  x : Int
  y : Int
  w : Int
  h : Int
  deriving DecidableEq, Repr

/-- One call that draws. A character or an erase is drawn with the cursor at `cursor`. -/
structure Draw where
  cursor : Option (Nat × Nat)
  rects : List Rect
  deriving DecidableEq, Repr

/-- `struct fbconsole_state`; `drawn` is what has been drawn so far. -/
structure State where
  cwidth : Nat
  cheight : Nat
  cposX : Nat
  cposY : Nat
  dirtyXs : Nat
  dirtyXe : Nat
  dirtyYs : Nat
  dirtyYe : Nat
  metaArg1 : Nat
  metaArg2 : Nat
  dirty : Bool
  escape : Bool
  inMeta : Bool
  badmeta : Bool
  secondarg : Bool
  arg1Present : Bool
  arg2Present : Bool
  drawn : List Draw
  deriving DecidableEq, Repr

/-- The driver state before `fbconsole_init`: zero. -/
def State.zero : State :=
  ⟨0, 0, 0, 0, 0, 0, 0, 0, 0, 0, false, false, false, false, false, false, false, []⟩

variable (cfg : Config) (s : State)

@[grind =] def State.draw (cursor : Option (Nat × Nat)) (rects : List Rect) : State :=
  { s with drawn := s.drawn ++ [⟨cursor, rects⟩] }

/-- `fbconsole_dirty` -/
def dirty (x y w h : Int) : State :=
  if !s.dirty then
    { s with
      dirty := true
      dirtyXs := u16 x
      dirtyXe := u16 (x + w)
      dirtyYs := u16 y
      dirtyYe := u16 (y + h) }
  else
    { s with
      dirtyXs := if x < s.dirtyXs then u16 x else s.dirtyXs
      dirtyXe := if x + w > s.dirtyXe then u16 (x + w) else s.dirtyXe
      dirtyYs := if y < s.dirtyYs then u16 y else s.dirtyYs
      dirtyYe := if y + h > s.dirtyYe then u16 (y + h) else s.dirtyYe }

/-- The pixels of `w * h` cells. -/
def cells (x y w h : Int) : Rect :=
  ⟨cfg.x + x * s.cwidth, cfg.y + y * s.cheight, w * s.cwidth, h * s.cheight⟩

/-- `simpletextrenderer_render_char` sets pixels of a box of 5 to 8, unless the font lacks `c`. -/
def renderBox (x y : Int) (c : UInt8) : List Rect :=
  if 0x21 ≤ c ∧ c < 0x7f then [⟨x, y, 5, 8⟩] else []

/-- `fbconsole_renderchar` -/
def renderchar (x y : Nat) (c : UInt8) : State :=
  let r := cells cfg s x y 1 1
  dirty (s.draw (some (x, y)) (r :: renderBox r.x r.y c)) x y 1 1

/-- `fbconsole_erase_range` -/
def eraseRange (x y w h : Int) : State :=
  dirty (s.draw (some (s.cposX, s.cposY)) [cells cfg s x y w h]) x y w h

/-- `fbconsole_clear` -/
def clear : State := eraseRange cfg s 0 0 cfg.w cfg.h

/-- What `fbconsole_scroll` blits, each source before its destination. -/
def scrollBlits (lines : Int) : List Rect :=
  if 0 < lines then
    [cells cfg s 0 lines cfg.w (cfg.h - lines), cells cfg s 0 0 cfg.w (cfg.h - lines)]
  else
    (List.range (cfg.h + lines).toNat).flatMap fun y : Nat =>
      [cells cfg s 0 y cfg.w 1, cells cfg s 0 (y - lines) cfg.w 1]

/-- The lines that `fbconsole_scroll` fills. -/
def scrollFill (lines : Int) : Rect :=
  if 0 < lines then cells cfg s 0 (cfg.h - lines) cfg.w lines else cells cfg s 0 0 cfg.w (-lines)

/-- `fbconsole_scroll` -/
def scroll (lines : Int) : State :=
  if cfg.h ≤ lines ∨ cfg.h ≤ -lines then clear cfg s
  else dirty (s.draw none (scrollBlits cfg s lines ++ [scrollFill cfg s lines])) 0 0 cfg.w cfg.h

/-- `fbconsole_init` -/
def init : State :=
  clear cfg
    { s with
      cwidth := maxWidth
      cheight := lineHeight
      cposX := 0
      cposY := 0
      dirty := false
      inMeta := false }

/-! ### Escape sequences -/

/-- A digit of the argument that is being read. -/
def digit (c : UInt8) : State :=
  let value := fun arg : Nat => u16 (arg * 10 + c.toNat - 0x30)
  if s.secondarg then { s with arg2Present := true, metaArg2 := value s.metaArg2 }
  else { s with arg1Present := true, metaArg1 := value s.metaArg1 }

/-- `;` -/
def separator : State :=
  if s.secondarg then { s with badmeta := true } else { s with secondarg := true }

/-- The arguments that a command finds, 1 for one that is not there. -/
def arguments : State :=
  { s with
    metaArg1 := if s.arg1Present then s.metaArg1 else 1
    metaArg2 := if s.arg2Present then s.metaArg2 else 1 }

/-- The first argument is 0 when it is not there. -/
def fromZero : State := { s with metaArg1 := if s.arg1Present then s.metaArg1 else 0 }

/-- The right part of the cursor's line. -/
def eraseRight : State :=
  if s.cposX < cfg.w then eraseRange cfg s s.cposX s.cposY (cfg.w - s.cposX) 1 else s

/-- The left part of the cursor's line. -/
def eraseLeft : State :=
  if s.cposX ≠ 0 then eraseRange cfg s 0 s.cposY s.cposX 1 else s

/-- `J` -/
def eraseDisplay : State :=
  match s.metaArg1 with
  | 0 =>
    let s := if s.cposY < (cfg.h : Int) - 1 then
        eraseRange cfg s 0 (s.cposY + 1) cfg.w (cfg.h - s.cposY - 1)
      else s
    eraseRight cfg s
  | 1 => eraseLeft cfg (if s.cposY ≠ 0 then eraseRange cfg s 0 0 cfg.w s.cposY else s)
  | 2 => clear cfg s
  | _ => s

/-- `K` -/
def eraseLine : State :=
  match s.metaArg1 with
  | 0 => eraseRight cfg s
  | 1 => eraseLeft cfg s
  | 2 => if s.cposY < cfg.h then eraseRange cfg s 0 s.cposY cfg.w 1 else s
  | _ => s

def up : Nat := u16 (max 0 ((s.cposY : Int) - s.metaArg1 + 1))

def down : Nat := u16 (min cfg.h ((s.cposY : Int) + s.metaArg1 - 1))

/-- The commands behind the arguments, by their letter. -/
def command (c : UInt8) : State :=
  match c.toNat with
  | 0x41 => { s with cposY := up s }
  | 0x42 => { s with cposY := down cfg s }
  | 0x43 => { s with cposX := u16 (max 0 ((s.cposX : Int) - s.metaArg1 + 1)) }
  | 0x44 => { s with cposX := u16 (min cfg.w ((s.cposX : Int) + s.metaArg1 - 1)) }
  | 0x45 => { s with cposX := 0, cposY := down cfg s }
  | 0x46 => { s with cposX := 0, cposY := up s }
  | 0x47 => { s with cposX := u16 (max 0 (min cfg.w ((s.metaArg1 : Int) - 1))) }
  | 0x48 | 0x66 =>
    { s with
      cposX := u16 (max 0 (min cfg.w ((s.metaArg2 : Int) - 1)))
      cposY := u16 (max 0 (min cfg.h ((s.metaArg1 : Int) - 1))) }
  | 0x4a => eraseDisplay cfg (fromZero s)
  | 0x4b => eraseLine cfg (fromZero s)
  | 0x53 => scroll cfg s s.metaArg1
  | 0x54 => scroll cfg s (-s.metaArg1)
  | 0x6d => fromZero s
  | _ => s

def isDigit (c : UInt8) : Prop := 0x30 ≤ c ∧ c ≤ 0x39

def isLetter (c : UInt8) : Prop := (0x41 ≤ c ∧ c ≤ 0x5a) ∨ (0x61 ≤ c ∧ c ≤ 0x7a)

instance (c : UInt8) : Decidable (isDigit c) := by unfold isDigit; infer_instance
instance (c : UInt8) : Decidable (isLetter c) := by unfold isLetter; infer_instance

/-! ### Characters -/

/-- The cursor behind the last column goes to the next line. -/
def wrap : State :=
  if cfg.w ≤ s.cposX then { s with cposX := 0, cposY := u16 (s.cposY + 1) } else s

/-- The lines move up until the cursor's is the last one. -/
def scrollToCursor : State :=
  if cfg.h ≤ s.cposY then
    { scroll cfg s ((s.cposY : Int) - cfg.h + 1) with cposY := u16 ((cfg.h : Int) - 1) }
  else s

/-- The cursor goes back one column, which becomes blank. -/
def backspace : State :=
  if s.cposX = 0 then s
  else
    let s := { s with cposX := s.cposX - 1 }
    renderchar cfg s s.cposX s.cposY 0x20

def print (c : UInt8) : State :=
  let s := scrollToCursor cfg (wrap cfg s)
  renderchar cfg { s with cposX := u16 (s.cposX + 1) } s.cposX s.cposY c

/-- A character that moves the cursor or is drawn. -/
def character (c : UInt8) : State :=
  match c.toNat with
  | 0x08 => backspace cfg s
  | 0x0a => { s with cposX := 0, cposY := u16 (s.cposY + 1) }
  | 0x0c => clear cfg { s with cposX := 0, cposY := 0 }
  | 0x0d => { s with cposX := 0 }
  | _ => print cfg s c

/-- `[` behind an escape starts the arguments. -/
def plain (c : UInt8) : State :=
  if s.escape ∧ c = 0x5b then
    { s with
      escape := false
      inMeta := true
      badmeta := false
      secondarg := false
      arg1Present := false
      arg2Present := false
      metaArg1 := 0
      metaArg2 := 0 }
  else character cfg { s with escape := false } c

/-- `fbconsole_putc` -/
def putc (c : UInt8) : State :=
  if c = 0x1b then { s with escape := true, inMeta := false }
  else if s.inMeta then
    if isDigit c then digit s c
    else if c = 0x3b then separator s
    else if isLetter c then
      if s.badmeta then { s with inMeta := false }
      else command cfg (arguments { s with inMeta := false }) c
    else plain cfg { s with inMeta := false } c
  else plain cfg s c

/-- `fbconsole_write` -/
def write (buf : List UInt8) : State := buf.foldl (putc cfg) s

/-- `fbconsole_puts` -/
def puts (str : List UInt8) : State := write cfg s (str.takeWhile (· ≠ 0))

/-- `fbconsole_flush` -/
def flush : State :=
  if !s.dirty then s
  else
    { s.draw none [cells cfg s s.dirtyXs s.dirtyYs ((s.dirtyXe : Int) - s.dirtyXs)
        ((s.dirtyYe : Int) - s.dirtyYs)] with dirty := false }

/-- The calls of the console's driver. -/
inductive Input where
  | putc (c : UInt8)
  | puts (str : List UInt8)
  | write (buf : List UInt8)
  | flush
  deriving DecidableEq, Repr

def step : Input → State
  | .putc c => putc cfg s c
  | .puts str => puts cfg s str
  | .write buf => write cfg s buf
  | .flush => flush cfg s

def run (inputs : List Input) : State := inputs.foldl (step cfg) s

/-! ### Where things are drawn -/

def Rect.Inside (r : Rect) (width height : Nat) : Prop :=
  0 ≤ r.x ∧ 0 ≤ r.y ∧ 0 ≤ r.w ∧ 0 ≤ r.h ∧ r.x + r.w ≤ width ∧ r.y + r.h ≤ height

def OnGrid (x y : Nat) : Prop := x < cfg.w ∧ y < cfg.h

instance (x y : Nat) : Decidable (OnGrid cfg x y) := by unfold OnGrid; infer_instance

structure Draw.Confined (d : Draw) : Prop where
  cursor : ∀ p ∈ d.cursor, OnGrid cfg p.1 p.2
  rects : ∀ r ∈ d.rects, r.Inside cfg.fbWidth cfg.fbHeight

/-- A range of cells of the grid. -/
def InGrid (x y w h : Int) : Prop :=
  0 ≤ x ∧ 0 ≤ y ∧ 0 ≤ w ∧ 0 ≤ h ∧ x + w ≤ cfg.w ∧ y + h ≤ cfg.h

structure Dirty (xs xe ys ye : Nat) : Prop where
  xs : xs ≤ xe
  xe : xe ≤ cfg.w
  ys : ys ≤ ye
  ye : ye ≤ cfg.h

def AllConfined : Prop := ∀ d ∈ s.drawn, d.Confined cfg

structure Inv : Prop where
  cwidth : s.cwidth = maxWidth
  cheight : s.cheight = lineHeight
  range : s.dirty = true → Dirty cfg s.dirtyXs s.dirtyXe s.dirtyYs s.dirtyYe
  drawn : AllConfined cfg s

variable {cfg s} {x y w h : Int}

theorem cells_inside (hs : Inv cfg s) (hg : InGrid cfg x y w h) :
    (cells cfg s x y w h).Inside cfg.fbWidth cfg.fbHeight := by
  have h1 := cfg.fitsWidth
  have h2 := cfg.fitsHeight
  obtain ⟨hx, hy, hw, hh, hxw, hyh⟩ := hg
  unfold cells Rect.Inside
  rw [hs.cwidth, hs.cheight]
  simp only [maxWidth, lineHeight] at *
  omega

theorem renderBox_inside {c : UInt8} (hs : Inv cfg s) (hg : InGrid cfg x y 1 1) :
    ∀ r ∈ renderBox (cells cfg s x y 1 1).x (cells cfg s x y 1 1).y c,
      r.Inside cfg.fbWidth cfg.fbHeight := by
  have hcell := cells_inside hs hg
  unfold Rect.Inside at hcell
  simp only [cells, hs.cwidth, hs.cheight, maxWidth, lineHeight] at hcell ⊢
  intro r hr
  unfold renderBox at hr
  split at hr
  · rw [List.mem_singleton] at hr
    subst hr
    unfold Rect.Inside
    simp only
    omega
  · cases hr

theorem u16_toNat {z : Int} (h0 : 0 ≤ z) (hz : z < 65536) : (u16 z : Int) = z := by
  unfold u16
  omega

theorem size_lt (cfg : Config) : cfg.w < 65536 ∧ cfg.h < 65536 := by
  have h1 := cfg.fitsWidth
  have h2 := cfg.fitsHeight
  have h3 := cfg.width16
  have h4 := cfg.height16
  simp only [maxWidth, lineHeight] at *
  omega

/-! ### What drawing keeps -/

@[simp] theorem dirty_drawn : (dirty s x y w h).drawn = s.drawn := by
  unfold dirty
  split <;> rfl

@[simp] theorem dirty_cposX : (dirty s x y w h).cposX = s.cposX := by
  unfold dirty
  split <;> rfl

@[simp] theorem dirty_cposY : (dirty s x y w h).cposY = s.cposY := by
  unfold dirty
  split <;> rfl

@[simp] theorem dirty_cwidth : (dirty s x y w h).cwidth = s.cwidth := by
  unfold dirty
  split <;> rfl

@[simp] theorem dirty_cheight : (dirty s x y w h).cheight = s.cheight := by
  unfold dirty
  split <;> rfl

theorem dirty_inGrid (hs : s.dirty = true → Dirty cfg s.dirtyXs s.dirtyXe s.dirtyYs s.dirtyYe)
    (hg : InGrid cfg x y w h) :
    Dirty cfg (dirty s x y w h).dirtyXs (dirty s x y w h).dirtyXe (dirty s x y w h).dirtyYs
      (dirty s x y w h).dirtyYe := by
  obtain ⟨hx, hy, hw, hh, hxw, hyh⟩ := hg
  obtain ⟨hlw, hlh⟩ := size_lt cfg
  have h1 := u16_toNat hx (by omega)
  have h2 := u16_toNat hy (by omega)
  have h3 := u16_toNat (z := x + w) (by omega) (by omega)
  have h4 := u16_toNat (z := y + h) (by omega) (by omega)
  unfold dirty
  split
  · constructor <;> simp only <;> omega
  · rename_i hd
    obtain ⟨hxs, hxe, hys, hye⟩ := hs (by simpa using hd)
    constructor <;> simp only <;> split_ifs <;> omega

theorem Inv.drawn_dirty (hs : Inv cfg s) {cursor : Option (Nat × Nat)} {rects : List Rect}
    (hc : ∀ p ∈ cursor, OnGrid cfg p.1 p.2)
    (hr : ∀ r ∈ rects, r.Inside cfg.fbWidth cfg.fbHeight) (hg : InGrid cfg x y w h) :
    Inv cfg (dirty (s.draw cursor rects) x y w h) := by
  constructor
  · simpa [State.draw] using hs.cwidth
  · simpa [State.draw] using hs.cheight
  · intro _
    exact dirty_inGrid hs.range hg
  · intro d hd
    simp only [dirty_drawn, State.draw, List.mem_append, List.mem_singleton] at hd
    obtain hd | rfl := hd
    · exact hs.drawn d hd
    · exact ⟨hc, hr⟩

theorem eraseRange_keeps (hs : Inv cfg s) (hc : OnGrid cfg s.cposX s.cposY)
    (hg : InGrid cfg x y w h) : Inv cfg (eraseRange cfg s x y w h) := by
  apply hs.drawn_dirty
  · intro p hp
    cases hp
    exact hc
  · intro r hr
    rw [List.mem_singleton] at hr
    subst hr
    exact cells_inside hs hg
  · exact hg

theorem AllConfined.of_eraseRange (h' : AllConfined cfg (eraseRange cfg s x y w h)) :
    AllConfined cfg s ∧ OnGrid cfg s.cposX s.cposY := by
  simp only [AllConfined, eraseRange, dirty_drawn, State.draw, List.mem_append,
    List.mem_singleton] at h'
  exact ⟨fun d hd => h' d (.inl hd), (h' _ (.inr rfl)).cursor _ rfl⟩

@[simp] theorem eraseRange_cposX : (eraseRange cfg s x y w h).cposX = s.cposX := by
  simp [eraseRange, State.draw]

@[simp] theorem eraseRange_cposY : (eraseRange cfg s x y w h).cposY = s.cposY := by
  simp [eraseRange, State.draw]

theorem clear_keeps (hs : Inv cfg s) (hc : OnGrid cfg s.cposX s.cposY) : Inv cfg (clear cfg s) :=
  eraseRange_keeps hs hc (by unfold InGrid; omega)

theorem eraseRight_keeps (hs : Inv cfg s) (hc : s.cposX < cfg.w → OnGrid cfg s.cposX s.cposY) :
    Inv cfg (eraseRight cfg s) := by
  unfold eraseRight
  split
  · rename_i hx
    have hgrid := hc hx
    refine eraseRange_keeps hs hgrid ?_
    unfold OnGrid at hgrid
    unfold InGrid
    omega
  · exact hs

theorem AllConfined.of_eraseRight (h' : AllConfined cfg (eraseRight cfg s)) :
    AllConfined cfg s ∧ (s.cposX < cfg.w → OnGrid cfg s.cposX s.cposY) := by
  unfold eraseRight at h'
  split at h'
  · exact ⟨h'.of_eraseRange.1, fun _ => h'.of_eraseRange.2⟩
  · exact ⟨h', fun hx => absurd hx ‹_›⟩

theorem eraseLeft_keeps (hs : Inv cfg s) (hc : s.cposX ≠ 0 → OnGrid cfg s.cposX s.cposY) :
    Inv cfg (eraseLeft cfg s) := by
  unfold eraseLeft
  split
  · rename_i hx
    have hgrid := hc hx
    refine eraseRange_keeps hs hgrid ?_
    unfold OnGrid at hgrid
    unfold InGrid
    omega
  · exact hs

theorem AllConfined.of_eraseLeft (h' : AllConfined cfg (eraseLeft cfg s)) :
    AllConfined cfg s ∧ (s.cposX ≠ 0 → OnGrid cfg s.cposX s.cposY) := by
  unfold eraseLeft at h'
  split at h'
  · exact ⟨h'.of_eraseRange.1, fun _ => h'.of_eraseRange.2⟩
  · exact ⟨h', fun hx => absurd hx ‹_›⟩

/-! ### What a byte erases -/

/-- `J` erases something. -/
def DisplayErases (cfg : Config) (s : State) : Prop :=
  (s.metaArg1 = 0 ∧ (s.cposY + 1 < cfg.h ∨ s.cposX < cfg.w)) ∨
    (s.metaArg1 = 1 ∧ (s.cposY ≠ 0 ∨ s.cposX ≠ 0)) ∨ s.metaArg1 = 2

/-- `K` erases something. -/
def LineErases (cfg : Config) (s : State) : Prop :=
  (s.metaArg1 = 0 ∧ s.cposX < cfg.w) ∨ (s.metaArg1 = 1 ∧ s.cposX ≠ 0) ∨
    (s.metaArg1 = 2 ∧ s.cposY < cfg.h)

theorem eraseDisplay_keeps (hs : Inv cfg s)
    (hc : DisplayErases cfg s → OnGrid cfg s.cposX s.cposY) : Inv cfg (eraseDisplay cfg s) := by
  unfold DisplayErases at hc
  unfold eraseDisplay
  split
  · rename_i h0
    apply eraseRight_keeps
    · split
      · refine eraseRange_keeps hs (hc (.inl ⟨h0, by omega⟩)) ?_
        unfold InGrid
        omega
      · exact hs
    · intro hx
      have hx' : s.cposX < cfg.w := by split at hx <;> simpa using hx
      split <;> simpa using hc (.inl ⟨h0, .inr hx'⟩)
  · rename_i h1
    apply eraseLeft_keeps
    · split
      · rename_i hy
        have hgrid := hc (.inr (.inl ⟨h1, .inl hy⟩))
        refine eraseRange_keeps hs hgrid ?_
        unfold OnGrid at hgrid
        unfold InGrid
        omega
      · exact hs
    · intro hx
      have hx' : s.cposX ≠ 0 := by split at hx <;> simpa using hx
      split <;> simpa using hc (.inr (.inl ⟨h1, .inr hx'⟩))
  · exact clear_keeps hs (hc (.inr (.inr ‹_›)))
  · exact hs

theorem AllConfined.of_eraseDisplay (h' : AllConfined cfg (eraseDisplay cfg s)) :
    AllConfined cfg s ∧ (DisplayErases cfg s → OnGrid cfg s.cposX s.cposY) := by
  unfold DisplayErases
  unfold eraseDisplay at h'
  split at h'
  · rename_i h0
    obtain ⟨h1, h2⟩ := h'.of_eraseRight
    split at h1
    · exact ⟨h1.of_eraseRange.1, fun _ => h1.of_eraseRange.2⟩
    · rename_i hy
      rw [if_neg hy] at h2
      exact ⟨h1, fun he => h2 (by omega)⟩
  · rename_i h0
    obtain ⟨h1, h2⟩ := h'.of_eraseLeft
    split at h1
    · exact ⟨h1.of_eraseRange.1, fun _ => h1.of_eraseRange.2⟩
    · rename_i hy
      rw [if_neg hy] at h2
      exact ⟨h1, fun he => h2 (by omega)⟩
  · exact ⟨h'.of_eraseRange.1, fun _ => h'.of_eraseRange.2⟩
  · rename_i h0 h1 h2
    refine ⟨h', ?_⟩
    rintro (⟨he, _⟩ | ⟨he, _⟩ | he)
    · exact absurd he h0
    · exact absurd he h1
    · exact absurd he h2

theorem eraseLine_keeps (hs : Inv cfg s)
    (hc : LineErases cfg s → OnGrid cfg s.cposX s.cposY) : Inv cfg (eraseLine cfg s) := by
  unfold LineErases at hc
  unfold eraseLine
  split
  · exact eraseRight_keeps hs fun hx => hc (.inl ⟨‹_›, hx⟩)
  · exact eraseLeft_keeps hs fun hx => hc (.inr (.inl ⟨‹_›, hx⟩))
  · split
    · refine eraseRange_keeps hs (hc (.inr (.inr ⟨‹_›, ‹_›⟩))) ?_
      unfold InGrid
      omega
    · exact hs
  · exact hs

theorem AllConfined.of_eraseLine (h' : AllConfined cfg (eraseLine cfg s)) :
    AllConfined cfg s ∧ (LineErases cfg s → OnGrid cfg s.cposX s.cposY) := by
  unfold LineErases
  unfold eraseLine at h'
  split at h'
  · obtain ⟨h1, h2⟩ := h'.of_eraseRight
    exact ⟨h1, fun he => h2 (by omega)⟩
  · obtain ⟨h1, h2⟩ := h'.of_eraseLeft
    exact ⟨h1, fun he => h2 (by omega)⟩
  · split at h'
    · exact ⟨h'.of_eraseRange.1, fun _ => h'.of_eraseRange.2⟩
    · exact ⟨h', fun he => by omega⟩
  · rename_i h0 h1 h2
    refine ⟨h', ?_⟩
    rintro (⟨he, _⟩ | ⟨he, _⟩ | ⟨he, _⟩)
    · exact absurd he h0
    · exact absurd he h1
    · exact absurd he h2

/-! ### Scrolling -/

theorem scrollBlits_inside (hs : Inv cfg s) {lines : Int} (h1 : lines < cfg.h)
    (h2 : -lines < cfg.h) : ∀ r ∈ scrollBlits cfg s lines, r.Inside cfg.fbWidth cfg.fbHeight := by
  intro r hr
  unfold scrollBlits at hr
  split at hr
  · simp only [List.mem_cons, List.not_mem_nil, or_false] at hr
    obtain rfl | rfl := hr <;> exact cells_inside hs (by unfold InGrid; omega)
  · simp only [List.mem_flatMap, List.mem_range, List.mem_cons, List.not_mem_nil, or_false] at hr
    obtain ⟨y, hy, rfl | rfl⟩ := hr <;> exact cells_inside hs (by unfold InGrid; omega)

theorem scroll_keeps (hs : Inv cfg s) {lines : Int}
    (hc : cfg.h ≤ lines ∨ cfg.h ≤ -lines → OnGrid cfg s.cposX s.cposY) :
    Inv cfg (scroll cfg s lines) := by
  unfold scroll
  split
  · exact clear_keeps hs (hc ‹_›)
  · apply hs.drawn_dirty
    · intro p hp
      cases hp
    · intro r hr
      rw [List.mem_append, List.mem_singleton] at hr
      obtain hr | rfl := hr
      · exact scrollBlits_inside hs (by omega) (by omega) r hr
      · unfold scrollFill
        split <;> exact cells_inside hs (by unfold InGrid; omega)
    · unfold InGrid
      omega

theorem AllConfined.of_scroll {lines : Int} (h' : AllConfined cfg (scroll cfg s lines)) :
    AllConfined cfg s ∧ (cfg.h ≤ lines ∨ cfg.h ≤ -lines → OnGrid cfg s.cposX s.cposY) := by
  unfold scroll at h'
  split at h'
  · exact ⟨h'.of_eraseRange.1, fun _ => h'.of_eraseRange.2⟩
  · simp only [AllConfined, dirty_drawn, State.draw, List.mem_append] at h'
    exact ⟨fun d hd => h' d (.inl hd), fun hl => absurd hl ‹_›⟩

/-! ### One byte -/

/-- The command `c` draws with the cursor off the grid. -/
def CommandStrays (cfg : Config) (s : State) (c : UInt8) : Prop :=
  ¬ OnGrid cfg s.cposX s.cposY ∧
    ((c.toNat = 0x4a ∧ DisplayErases cfg (fromZero s)) ∨
      (c.toNat = 0x4b ∧ LineErases cfg (fromZero s)) ∨
      ((c.toNat = 0x53 ∨ c.toNat = 0x54) ∧ cfg.h ≤ s.metaArg1))

/-- The line of a character that is written with the cursor at `x`, `y`. -/
def lineOf (cfg : Config) (x y : Nat) : Nat := if cfg.w ≤ x then u16 (y + 1) else y

/-- The character `c` draws with the cursor off the grid: a backspace below the last line or far
behind the last column, or a character so far below the last line that the whole grid is cleared
first. -/
def CharacterStrays (cfg : Config) (s : State) (c : UInt8) : Prop :=
  (c.toNat = 0x08 ∧ s.cposX ≠ 0 ∧ ¬ OnGrid cfg (s.cposX - 1) s.cposY) ∨
    (c.toNat ≠ 0x08 ∧ c.toNat ≠ 0x0a ∧ c.toNat ≠ 0x0c ∧ c.toNat ≠ 0x0d ∧
      2 * cfg.h ≤ lineOf cfg s.cposX s.cposY + 1)

theorem Inv.fromZero (hs : Inv cfg s) : Inv cfg (fromZero s) := ⟨hs.1, hs.2, hs.3, hs.4⟩

theorem command_keeps {c : UInt8} (hs : Inv cfg s) (hc : ¬ CommandStrays cfg s c) :
    Inv cfg (command cfg s c) := by
  have hgrid : (c.toNat = 0x4a ∧ DisplayErases cfg (fromZero s)) ∨
      (c.toNat = 0x4b ∧ LineErases cfg (fromZero s)) ∨
      ((c.toNat = 0x53 ∨ c.toNat = 0x54) ∧ cfg.h ≤ s.metaArg1) → OnGrid cfg s.cposX s.cposY := by
    intro he
    by_contra hoff
    exact hc ⟨hoff, he⟩
  have hh := cfg.hh
  unfold command
  split
  case h_10 => exact eraseDisplay_keeps hs.fromZero fun he => hgrid (.inl ⟨‹_›, he⟩)
  case h_11 => exact eraseLine_keeps hs.fromZero fun he => hgrid (.inr (.inl ⟨‹_›, he⟩))
  case h_12 => exact scroll_keeps hs fun he => hgrid (.inr (.inr ⟨.inl ‹_›, by omega⟩))
  case h_13 => exact scroll_keeps hs fun he => hgrid (.inr (.inr ⟨.inr ‹_›, by omega⟩))
  all_goals exact ⟨hs.1, hs.2, hs.3, hs.4⟩

theorem AllConfined.of_command {c : UInt8} (h' : AllConfined cfg (command cfg s c)) :
    AllConfined cfg s := by
  unfold command at h'
  split at h'
  case h_10 => exact h'.of_eraseDisplay.1
  case h_11 => exact h'.of_eraseLine.1
  case h_12 => exact h'.of_scroll.1
  case h_13 => exact h'.of_scroll.1
  all_goals exact h'

theorem not_commandStrays {c : UInt8} (h' : AllConfined cfg (command cfg s c)) :
    ¬ CommandStrays cfg s c := by
  rintro ⟨hoff, ⟨hc, he⟩ | ⟨hc, he⟩ | ⟨hc | hc, he⟩⟩
  · simp only [command, hc] at h'
    exact hoff (h'.of_eraseDisplay.2 he)
  · simp only [command, hc] at h'
    exact hoff (h'.of_eraseLine.2 he)
  · simp only [command, hc] at h'
    exact hoff (h'.of_scroll.2 (.inl (by omega)))
  · simp only [command, hc] at h'
    exact hoff (h'.of_scroll.2 (.inr (by omega)))

theorem renderchar_keeps {x y : Nat} {c : UInt8} (hs : Inv cfg s) (hg : OnGrid cfg x y) :
    Inv cfg (renderchar cfg s x y c) := by
  have hrange : InGrid cfg x y 1 1 := by
    unfold OnGrid at hg
    unfold InGrid
    omega
  apply hs.drawn_dirty
  · intro p hp
    cases hp
    exact hg
  · intro r hr
    obtain rfl | hr := List.mem_cons.1 hr
    · exact cells_inside hs hrange
    · exact renderBox_inside hs hrange r hr
  · exact hrange

theorem AllConfined.of_renderchar {x y : Nat} {c : UInt8}
    (h' : AllConfined cfg (renderchar cfg s x y c)) : AllConfined cfg s ∧ OnGrid cfg x y := by
  simp only [AllConfined, renderchar, dirty_drawn, State.draw, List.mem_append,
    List.mem_singleton] at h'
  exact ⟨fun d hd => h' d (.inl hd), (h' _ (.inr rfl)).cursor _ rfl⟩

theorem wrap_keeps (hs : Inv cfg s) : Inv cfg (wrap cfg s) := by
  unfold wrap
  split
  · exact ⟨hs.1, hs.2, hs.3, hs.4⟩
  · exact hs

theorem AllConfined.of_wrap (h' : AllConfined cfg (wrap cfg s)) : AllConfined cfg s := by
  unfold wrap at h'
  split at h'
  · exact h'
  · exact h'

theorem wrap_cposX : (wrap cfg s).cposX < cfg.w := by
  have := cfg.hw
  unfold wrap
  split
  · exact this
  · omega

theorem wrap_cposY : (wrap cfg s).cposY = lineOf cfg s.cposX s.cposY := by
  unfold wrap lineOf
  split <;> rfl

theorem scrollToCursor_keeps (hs : Inv cfg s) (hc : s.cposY + 1 < 2 * cfg.h) :
    Inv cfg (scrollToCursor cfg s) := by
  unfold scrollToCursor
  split
  · have hscroll : Inv cfg (scroll cfg s ((s.cposY : Int) - cfg.h + 1)) :=
      scroll_keeps hs fun he => by omega
    exact ⟨hscroll.1, hscroll.2, hscroll.3, hscroll.4⟩
  · exact hs

theorem AllConfined.of_scrollToCursor (h' : AllConfined cfg (scrollToCursor cfg s)) :
    AllConfined cfg s ∧ s.cposY + 1 < 2 * cfg.h := by
  have := cfg.hh
  unfold scrollToCursor at h'
  split at h'
  · have hscroll : AllConfined cfg (scroll cfg s ((s.cposY : Int) - cfg.h + 1)) := h'
    obtain ⟨h1, h2⟩ := hscroll.of_scroll
    refine ⟨h1, ?_⟩
    by_contra hc
    have := (h2 (by omega)).2
    omega
  · exact ⟨h', by omega⟩

theorem scrollToCursor_onGrid (hx : s.cposX < cfg.w) :
    OnGrid cfg (scrollToCursor cfg s).cposX (scrollToCursor cfg s).cposY := by
  have hh := cfg.hh
  have hlt := (size_lt cfg).2
  unfold scrollToCursor
  split
  · constructor
    · simpa [scroll, apply_ite State.cposX, clear, State.draw] using hx
    · simp only [u16]
      omega
  · exact ⟨hx, by omega⟩

theorem print_keeps {c : UInt8} (hs : Inv cfg s) (hc : lineOf cfg s.cposX s.cposY + 1 < 2 * cfg.h) :
    Inv cfg (print cfg s c) := by
  rw [← wrap_cposY] at hc
  have hline := scrollToCursor_keeps (wrap_keeps hs) hc
  have hmoved : Inv cfg { scrollToCursor cfg (wrap cfg s) with
      cposX := u16 ((scrollToCursor cfg (wrap cfg s)).cposX + 1) } :=
    ⟨hline.1, hline.2, hline.3, hline.4⟩
  exact renderchar_keeps hmoved (scrollToCursor_onGrid wrap_cposX)

theorem AllConfined.of_print {c : UInt8} (h' : AllConfined cfg (print cfg s c)) :
    AllConfined cfg s ∧ lineOf cfg s.cposX s.cposY + 1 < 2 * cfg.h := by
  rw [← wrap_cposY]
  have hline : AllConfined cfg (scrollToCursor cfg (wrap cfg s)) := h'.of_renderchar.1
  obtain ⟨h1, h2⟩ := hline.of_scrollToCursor
  exact ⟨h1.of_wrap, h2⟩

theorem backspace_keeps (hs : Inv cfg s)
    (hc : s.cposX ≠ 0 → OnGrid cfg (s.cposX - 1) s.cposY) : Inv cfg (backspace cfg s) := by
  unfold backspace
  split
  · exact hs
  · have hmoved : Inv cfg { s with cposX := s.cposX - 1 } := ⟨hs.1, hs.2, hs.3, hs.4⟩
    exact renderchar_keeps hmoved (hc ‹_›)

theorem AllConfined.of_backspace (h' : AllConfined cfg (backspace cfg s)) :
    AllConfined cfg s ∧ (s.cposX ≠ 0 → OnGrid cfg (s.cposX - 1) s.cposY) := by
  unfold backspace at h'
  split at h'
  · exact ⟨h', fun hx => absurd ‹_› hx⟩
  · exact ⟨h'.of_renderchar.1, fun _ => h'.of_renderchar.2⟩

theorem character_keeps {c : UInt8} (hs : Inv cfg s) (hc : ¬ CharacterStrays cfg s c) :
    Inv cfg (character cfg s c) := by
  unfold CharacterStrays at hc
  unfold character
  split
  · rename_i h8
    apply backspace_keeps hs
    intro hx
    by_contra hoff
    exact hc (.inl ⟨h8, hx, hoff⟩)
  · exact ⟨hs.1, hs.2, hs.3, hs.4⟩
  · have hhome : Inv cfg { s with cposX := 0, cposY := 0 } := ⟨hs.1, hs.2, hs.3, hs.4⟩
    exact clear_keeps hhome ⟨cfg.hw, cfg.hh⟩
  · exact ⟨hs.1, hs.2, hs.3, hs.4⟩
  · rename_i h8 ha hc' hd
    apply print_keeps hs
    by_contra hrow
    exact hc (.inr ⟨h8, ha, hc', hd, by omega⟩)

theorem AllConfined.of_character {c : UInt8} (h' : AllConfined cfg (character cfg s c)) :
    AllConfined cfg s ∧ ¬ CharacterStrays cfg s c := by
  unfold CharacterStrays
  unfold character at h'
  split at h'
  · obtain ⟨h1, h2⟩ := h'.of_backspace
    refine ⟨h1, ?_⟩
    rintro (⟨_, hx, hoff⟩ | ⟨h8, _⟩)
    · exact hoff (h2 hx)
    · omega
  · exact ⟨h', by omega⟩
  · exact ⟨h'.of_eraseRange.1, by omega⟩
  · exact ⟨h', by omega⟩
  · rename_i h8 _ _ _
    obtain ⟨h1, h2⟩ := h'.of_print
    refine ⟨h1, ?_⟩
    rintro (⟨hc, _⟩ | hc)
    · exact h8 hc
    · omega

/-- The byte `c` draws with the cursor off the grid. -/
def Strays (cfg : Config) (s : State) (c : UInt8) : Prop :=
  if c = 0x1b then False
  else if s.inMeta then
    if isDigit c ∨ c = 0x3b then False
    else if isLetter c then ¬ s.badmeta ∧ CommandStrays cfg (arguments s) c
    else ¬ (s.escape ∧ c = 0x5b) ∧ CharacterStrays cfg s c
  else ¬ (s.escape ∧ c = 0x5b) ∧ CharacterStrays cfg s c

theorem plain_keeps {c : UInt8} (hs : Inv cfg s)
    (hc : ¬ (¬ (s.escape ∧ c = 0x5b) ∧ CharacterStrays cfg s c)) : Inv cfg (plain cfg s c) := by
  unfold plain
  split
  · exact ⟨hs.1, hs.2, hs.3, hs.4⟩
  · have hcleared : Inv cfg { s with escape := false } := ⟨hs.1, hs.2, hs.3, hs.4⟩
    exact character_keeps hcleared fun h => hc ⟨‹_›, h⟩

theorem AllConfined.of_plain {c : UInt8} (h' : AllConfined cfg (plain cfg s c)) :
    AllConfined cfg s ∧ ¬ (¬ (s.escape ∧ c = 0x5b) ∧ CharacterStrays cfg s c) := by
  unfold plain at h'
  split at h'
  · exact ⟨h', fun h => h.1 ‹_›⟩
  · exact ⟨h'.of_character.1, fun h => h'.of_character.2 h.2⟩

theorem putc_keeps {c : UInt8} (hs : Inv cfg s) (hc : ¬ Strays cfg s c) :
    Inv cfg (putc cfg s c) := by
  have hleft : Inv cfg { s with inMeta := false } := ⟨hs.1, hs.2, hs.3, hs.4⟩
  have hargs : Inv cfg (arguments { s with inMeta := false }) := ⟨hs.1, hs.2, hs.3, hs.4⟩
  unfold Strays at hc
  unfold putc
  split
  · exact ⟨hs.1, hs.2, hs.3, hs.4⟩
  rename_i hesc
  rw [if_neg hesc] at hc
  split
  · rename_i hmeta
    rw [if_pos hmeta] at hc
    split
    · unfold digit
      split <;> exact ⟨hs.1, hs.2, hs.3, hs.4⟩
    rename_i hdigit
    split
    · unfold separator
      split <;> exact ⟨hs.1, hs.2, hs.3, hs.4⟩
    rename_i hsep
    rw [if_neg (by rintro (h | h); exacts [hdigit h, hsep h])] at hc
    split
    · rename_i hletter
      rw [if_pos hletter] at hc
      split
      · exact hleft
      · exact command_keeps hargs fun h => hc ⟨‹_›, h⟩
    · rename_i hletter
      rw [if_neg hletter] at hc
      exact plain_keeps hleft hc
  · rename_i hmeta
    rw [if_neg hmeta] at hc
    exact plain_keeps hs hc

theorem AllConfined.of_putc {c : UInt8} (h' : AllConfined cfg (putc cfg s c)) :
    AllConfined cfg s ∧ ¬ Strays cfg s c := by
  unfold Strays
  unfold putc at h'
  split at h'
  · exact ⟨h', by rw [if_pos ‹_›]; exact id⟩
  rename_i hesc
  rw [if_neg hesc]
  split at h'
  · rename_i hmeta
    rw [if_pos hmeta]
    split at h'
    · rename_i hdigit
      rw [if_pos (.inl hdigit)]
      unfold digit at h'
      split at h' <;> exact ⟨h', id⟩
    rename_i hdigit
    split at h'
    · rename_i hsep
      rw [if_pos (.inr hsep)]
      unfold separator at h'
      split at h' <;> exact ⟨h', id⟩
    rename_i hsep
    rw [if_neg (by rintro (h | h); exacts [hdigit h, hsep h])]
    split at h'
    · rename_i hletter
      rw [if_pos hletter]
      split at h'
      · exact ⟨h', fun h => h.1 ‹_›⟩
      · exact ⟨h'.of_command, fun h => not_commandStrays h' h.2⟩
    · rename_i hletter
      rw [if_neg hletter]
      exact h'.of_plain
  · rename_i hmeta
    rw [if_neg hmeta]
    exact h'.of_plain

/-! ### Everything the console is given -/

theorem flush_keeps (hs : Inv cfg s) : Inv cfg (flush cfg s) := by
  unfold flush
  split
  · exact hs
  · rename_i hd
    obtain ⟨hxs, hxe, hys, hye⟩ := hs.range (by simpa using hd)
    refine ⟨hs.1, hs.2, fun h => by simp at h, ?_⟩
    intro d hd
    simp only [State.draw, List.mem_append, List.mem_singleton] at hd
    obtain hd | rfl := hd
    · exact hs.drawn d hd
    · refine ⟨fun p hp => (by cases hp), fun r hr => ?_⟩
      rw [List.mem_singleton] at hr
      subst hr
      exact cells_inside hs (by unfold InGrid; omega)

theorem AllConfined.of_flush (h' : AllConfined cfg (flush cfg s)) : AllConfined cfg s := by
  unfold flush at h'
  split at h'
  · exact h'
  · intro d hd
    exact h' d (List.mem_append_left _ hd)

/-- No byte of `buf` draws with the cursor off the grid. -/
def WriteStays (cfg : Config) : State → List UInt8 → Prop
  | _, [] => True
  | s, c :: buf => ¬ Strays cfg s c ∧ WriteStays cfg (putc cfg s c) buf

/-- Nor does any byte of `i`. -/
def Stays (cfg : Config) (s : State) : Input → Prop
  | .putc c => ¬ Strays cfg s c
  | .puts str => WriteStays cfg s (str.takeWhile (· ≠ 0))
  | .write buf => WriteStays cfg s buf
  | .flush => True

def RunStays (cfg : Config) : State → List Input → Prop
  | _, [] => True
  | s, i :: inputs => Stays cfg s i ∧ RunStays cfg (step cfg s i) inputs

theorem write_keeps {buf : List UInt8} (hs : Inv cfg s) (hc : WriteStays cfg s buf) :
    Inv cfg (write cfg s buf) := by
  induction buf generalizing s with
  | nil => exact hs
  | cons c buf ih => exact ih (putc_keeps hs hc.1) hc.2

theorem AllConfined.of_write {buf : List UInt8} (h' : AllConfined cfg (write cfg s buf)) :
    AllConfined cfg s ∧ WriteStays cfg s buf := by
  induction buf generalizing s with
  | nil => exact ⟨h', trivial⟩
  | cons c buf ih =>
    obtain ⟨h1, h2⟩ := ih h'
    obtain ⟨h3, h4⟩ := h1.of_putc
    exact ⟨h3, h4, h2⟩

theorem step_keeps {i : Input} (hs : Inv cfg s) (hc : Stays cfg s i) : Inv cfg (step cfg s i) := by
  cases i with
  | putc c => exact putc_keeps hs hc
  | puts str => exact write_keeps hs hc
  | write buf => exact write_keeps hs hc
  | flush => exact flush_keeps hs

theorem AllConfined.of_step {i : Input} (h' : AllConfined cfg (step cfg s i)) :
    AllConfined cfg s ∧ Stays cfg s i := by
  cases i with
  | putc c => exact h'.of_putc
  | puts str => exact h'.of_write
  | write buf => exact h'.of_write
  | flush => exact ⟨h'.of_flush, trivial⟩

theorem run_keeps {inputs : List Input} (hs : Inv cfg s) (hc : RunStays cfg s inputs) :
    Inv cfg (run cfg s inputs) := by
  induction inputs generalizing s with
  | nil => exact hs
  | cons i inputs ih => exact ih (step_keeps hs hc.1) hc.2

theorem AllConfined.of_run {inputs : List Input} (h' : AllConfined cfg (run cfg s inputs)) :
    AllConfined cfg s ∧ RunStays cfg s inputs := by
  induction inputs generalizing s with
  | nil => exact ⟨h', trivial⟩
  | cons i inputs ih =>
    obtain ⟨h1, h2⟩ := ih h'
    obtain ⟨h3, h4⟩ := h1.of_step
    exact ⟨h3, h4, h2⟩

theorem init_inv (cfg : Config) : Inv cfg (init cfg .zero) := by
  apply clear_keeps
  · exact ⟨rfl, rfl, fun hd => (by cases hd), fun d hd => (by cases hd)⟩
  · exact ⟨cfg.hw, cfg.hh⟩

end Fbconsole
end Umsboot
end Freemyipod
