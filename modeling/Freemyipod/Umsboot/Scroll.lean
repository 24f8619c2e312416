import Freemyipod.Umsboot.Fbconsole

/-!
# Umsboot.Scroll

What `fbconsole_scroll` leaves on the framebuffer.

* `scrolled`: the pixels behind the blits and the fill that `scroll` draws. A blit copies as if
  through a temporary buffer.
* `pixel`: the pixels by the row of the console they are in.
* `pixel_copyDown`: the loop that moves the rows down. It goes from the top to the bottom, so that
  a row it has written is read again `-lines` rows later.
* `scroll_moves_iff`: when every row is where it belongs.
-/

namespace Freemyipod
namespace Umsboot
namespace Fbconsole

variable {Color : Type}

def Rect.Has (r : Rect) (x y : Int) : Prop := r.x ≤ x ∧ x < r.x + r.w ∧ r.y ≤ y ∧ y < r.y + r.h

instance (r : Rect) (x y : Int) : Decidable (r.Has x y) := by unfold Rect.Has; infer_instance

/-- `framebuffer_fill` -/
def fill (fb : Int → Int → Color) (r : Rect) (color : Color) : Int → Int → Color :=
  fun x y => if r.Has x y then color else fb x y

/-- `framebuffer_blit` from one place of the framebuffer to another. -/
def blit (fb : Int → Int → Color) (src dst : Rect) : Int → Int → Color :=
  fun x y => if dst.Has x y then fb (src.x + (x - dst.x)) (src.y + (y - dst.y)) else fb x y

/-- The blits of `scrollBlits` one after the other. -/
@[grind =] def blits : List Rect → (Int → Int → Color) → Int → Int → Color
  | src :: dst :: rest, fb => blits rest (blit fb src dst)
  | _, fb => fb

variable (cfg : Config) (s : State)

/-- `fbconsole_scroll` on the pixels, with `state->bgcolor` in `bg` -/
def scrolled (lines : Int) (bg : Color) (fb : Int → Int → Color) : Int → Int → Color :=
  if cfg.h ≤ lines ∨ cfg.h ≤ -lines then fill fb (cells cfg s 0 0 cfg.w cfg.h) bg
  else fill (blits (scrollBlits cfg s lines) fb) (scrollFill cfg s lines) bg

/-! ### Rows of the console -/

/-- A pixel by the row it is in and its place in there. -/
def pixel (fb : Int → Int → Color) (r dx dy : Int) : Color :=
  fb (cfg.x + dx) (cfg.y + r * s.cheight + dy)

/-- A place in a row. -/
structure InRow (dx dy : Int) : Prop where
  left : 0 ≤ dx
  right : dx < cfg.w * s.cwidth
  top : 0 ≤ dy
  bottom : dy < s.cheight

/-- Row `r` of `fb'` shows what row `q` of `fb` shows. -/
def Shows (fb' : Int → Int → Color) (r : Int) (fb : Int → Int → Color) (q : Int) : Prop :=
  ∀ dx dy, InRow cfg s dx dy → pixel cfg s fb' r dx dy = pixel cfg s fb q dx dy

def Blank (fb : Int → Int → Color) (r : Int) (bg : Color) : Prop :=
  ∀ dx dy, InRow cfg s dx dy → pixel cfg s fb r dx dy = bg

/-- What scrolling by `lines` is for: `fb'` is `fb` with every row moved. -/
structure Moved (lines : Int) (bg : Color) (fb fb' : Int → Int → Color) : Prop where
  rows : ∀ r : Int, 0 ≤ r → r < cfg.h → 0 ≤ r + lines → r + lines < cfg.h →
    Shows cfg s fb' r fb (r + lines)
  rest : ∀ r : Int, 0 ≤ r → r < cfg.h → ¬ (0 ≤ r + lines ∧ r + lines < cfg.h) →
    Blank cfg s fb' r bg
  outside : ∀ x y, ¬ (cells cfg s 0 0 cfg.w cfg.h).Has x y → fb' x y = fb x y

variable {cfg s} {a b n r dx dy lines : Int} {bg : Color} {fb : Int → Int → Color}

theorem row_le (hd : InRow cfg s dx dy) : a * s.cheight ≤ r * s.cheight + dy ↔ a ≤ r := by
  obtain ⟨_, _, h0, h1⟩ := hd
  constructor
  · intro h
    by_contra hlt
    have := Int.mul_le_mul_of_nonneg_right (show r + 1 ≤ a by omega)
      (show 0 ≤ (s.cheight : Int) by omega)
    rw [Int.add_mul] at this
    omega
  · intro h
    have := Int.mul_le_mul_of_nonneg_right h (show 0 ≤ (s.cheight : Int) by omega)
    omega

theorem cells_has_row (hd : InRow cfg s dx dy) :
    (cells cfg s 0 a cfg.w n).Has (cfg.x + dx) (cfg.y + r * s.cheight + dy) ↔
      a ≤ r ∧ r < a + n := by
  have hlow := row_le (a := a) (r := r) hd
  have hhigh := row_le (a := a + n) (r := r) hd
  obtain ⟨h0, h1, _, _⟩ := hd
  rw [Int.add_mul] at hhigh
  unfold Rect.Has cells
  simp only
  omega

theorem pixel_fill (hd : InRow cfg s dx dy) :
    pixel cfg s (fill fb (cells cfg s 0 a cfg.w n) bg) r dx dy =
      if a ≤ r ∧ r < a + n then bg else pixel cfg s fb r dx dy := by
  unfold pixel fill
  simp only [cells_has_row hd]

theorem pixel_blit (hd : InRow cfg s dx dy) :
    pixel cfg s (blit fb (cells cfg s 0 a cfg.w n) (cells cfg s 0 b cfg.w n)) r dx dy =
      if b ≤ r ∧ r < b + n then pixel cfg s fb (r - b + a) dx dy else pixel cfg s fb r dx dy := by
  unfold pixel blit
  simp only [cells_has_row hd]
  split
  · congr 1
    · simp only [cells]
      omega
    · simp only [cells, Int.add_mul, Int.sub_mul]
      omega
  · rfl

/-! ### Outside the console -/

theorem cells_mono {x y : Int} (ha : 0 ≤ a) (hn : a + n ≤ cfg.h)
    (h : (cells cfg s 0 a cfg.w n).Has x y) : (cells cfg s 0 0 cfg.w cfg.h).Has x y := by
  have h0 := Int.mul_nonneg ha (show 0 ≤ (s.cheight : Int) by omega)
  have h1 := Int.mul_le_mul_of_nonneg_right hn (show 0 ≤ (s.cheight : Int) by omega)
  rw [Int.add_mul] at h1
  unfold Rect.Has cells at *
  simp only at *
  omega

theorem fill_outside {x y : Int} (ha : 0 ≤ a) (hn : a + n ≤ cfg.h)
    (h : ¬ (cells cfg s 0 0 cfg.w cfg.h).Has x y) :
    fill fb (cells cfg s 0 a cfg.w n) bg x y = fb x y :=
  if_neg fun hin => h (cells_mono ha hn hin)

theorem blit_outside {x y : Int} {src : Rect} (hb : 0 ≤ b) (hn : b + n ≤ cfg.h)
    (h : ¬ (cells cfg s 0 0 cfg.w cfg.h).Has x y) :
    blit fb src (cells cfg s 0 b cfg.w n) x y = fb x y :=
  if_neg fun hin => h (cells_mono hb hn hin)

/-! ### Moving the rows down -/

/-- The first `j` steps of the loop of `fbconsole_scroll`. -/
def copyDown (cfg : Config) (s : State) (lines : Int) (fb : Int → Int → Color) :
    Nat → Int → Int → Color
  | 0 => fb
  | j + 1 =>
    blit (copyDown cfg s lines fb j) (cells cfg s 0 j cfg.w 1) (cells cfg s 0 (j - lines) cfg.w 1)

theorem blits_append (l : List Nat) (src dst : Nat → Rect) (rest : List Rect) :
    blits (l.flatMap (fun y => [src y, dst y]) ++ rest) fb =
      blits rest (blits (l.flatMap fun y => [src y, dst y]) fb) := by
  induction l generalizing fb with
  | nil => rfl
  | cons y l ih => simpa [blits] using ih

theorem blits_range (lines : Int) (j : Nat) :
    blits ((List.range j).flatMap fun y : Nat =>
      [cells cfg s 0 y cfg.w 1, cells cfg s 0 (y - lines) cfg.w 1]) fb =
      copyDown cfg s lines fb j := by
  induction j with
  | zero => rfl
  | succ j ih =>
    rw [List.range_succ, List.flatMap_append, blits_append, ih]
    rfl

/-- What is copied down comes from the first `-lines` rows. -/
theorem pixel_copyDown (hlines : lines ≤ 0) (hd : InRow cfg s dx dy) (j : Nat) :
    pixel cfg s (copyDown cfg s lines fb j) r dx dy =
      if -lines ≤ r ∧ r < -lines + j then pixel cfg s fb (r % -lines) dx dy
      else pixel cfg s fb r dx dy := by
  induction j generalizing r with
  | zero =>
    rw [if_neg (by omega)]
    rfl
  | succ j ih =>
    rw [copyDown, pixel_blit hd, ih, ih]
    by_cases hr : r = j - lines
    · rw [if_pos (by omega), show r - (j - lines) + j = (j : Int) by omega,
        if_pos (show -lines ≤ r ∧ r < -lines + ((j + 1 : Nat) : Int) by omega)]
      have hmod : r % -lines = j % -lines := by
        rw [hr, show (j : Int) - lines = j + -lines by omega, Int.add_emod_right]
      rw [hmod]
      split
      · rfl
      · -- The row is one of the first, which the loop has not written.
        rcases Int.lt_or_eq_of_le hlines with hneg | rfl
        · rw [Int.emod_eq_of_lt (by omega) (by omega)]
        · simp
    · rw [if_neg (by omega)]
      by_cases hold : -lines ≤ r ∧ r < -lines + j
      · rw [if_pos hold, if_pos (by omega)]
      · rw [if_neg hold, if_neg (by omega)]

theorem copyDown_outside {x y : Int} (hlines : lines ≤ 0) {j : Nat} (hj : j - lines ≤ cfg.h)
    (h : ¬ (cells cfg s 0 0 cfg.w cfg.h).Has x y) :
    copyDown cfg s lines fb j x y = fb x y := by
  induction j with
  | zero => rfl
  | succ j ih =>
    rw [copyDown, blit_outside (by omega) (by omega) h]
    exact ih (by omega)

/-! ### The three ways to scroll -/

theorem moved_clear (h : cfg.h ≤ lines ∨ cfg.h ≤ -lines) :
    Moved cfg s lines bg fb (scrolled cfg s lines bg fb) := by
  rw [scrolled, if_pos h]
  constructor
  · intro r h0 h1 h2 h3
    omega
  · intro r h0 h1 _ dx dy hd
    rw [pixel_fill hd, if_pos (by omega)]
  · intro x y hxy
    exact if_neg hxy

theorem moved_up (h0 : 0 < lines) (h : lines < cfg.h) :
    Moved cfg s lines bg fb (scrolled cfg s lines bg fb) := by
  rw [scrolled, if_neg (by omega), scrollFill, if_pos h0, scrollBlits, if_pos h0]
  simp only [blits]
  constructor
  · intro r hr0 hr1 _ hr dx dy hd
    rw [pixel_fill hd, if_neg (by omega), pixel_blit hd, if_pos (by omega)]
    congr 1
    omega
  · intro r hr0 hr1 hr dx dy hd
    rw [pixel_fill hd, if_pos (by omega)]
  · intro x y hxy
    rw [fill_outside (by omega) (by omega) hxy, blit_outside (by omega) (by omega) hxy]

theorem scrolled_down (h0 : lines ≤ 0) (h : -lines < cfg.h) :
    scrolled cfg s lines bg fb =
      fill (copyDown cfg s lines fb (cfg.h + lines).toNat) (cells cfg s 0 0 cfg.w (-lines)) bg := by
  rw [scrolled, if_neg (by omega), scrollFill, if_neg (by omega), scrollBlits, if_neg (by omega),
    blits_range]

theorem pixel_scrolled_down (h0 : lines ≤ 0) (h : -lines < cfg.h) (hr0 : 0 ≤ r) (hr : r < cfg.h)
    (hd : InRow cfg s dx dy) :
    pixel cfg s (scrolled cfg s lines bg fb) r dx dy =
      if r < -lines then bg else pixel cfg s fb (r % -lines) dx dy := by
  rw [scrolled_down h0 h, pixel_fill hd]
  by_cases hlow : r < -lines
  · rw [if_pos (by omega), if_pos hlow]
  · rw [if_neg (by omega), if_neg hlow, pixel_copyDown h0 hd, if_pos (by omega)]

theorem moved_down_iff (h0 : lines ≤ 0) (h : -lines < cfg.h) :
    Moved cfg s lines bg fb (scrolled cfg s lines bg fb) ↔
      ∀ r : Int, -lines ≤ r → r < cfg.h → Shows cfg s fb (r % -lines) fb (r + lines) := by
  constructor
  · intro hm r hr0 hr dx dy hd
    rw [← hm.rows r (by omega) hr (by omega) (by omega) dx dy hd,
      pixel_scrolled_down h0 h (by omega) hr hd, if_neg (by omega)]
  · intro hrows
    constructor
    · intro r hr0 hr1 hr _ dx dy hd
      rw [pixel_scrolled_down h0 h hr0 hr1 hd, if_neg (by omega)]
      exact hrows r (by omega) hr1 dx dy hd
    · intro r hr0 hr1 hr dx dy hd
      rw [pixel_scrolled_down h0 h hr0 hr1 hd, if_pos (by omega)]
    · intro x y hxy
      rw [scrolled_down h0 h, fill_outside (by omega) (by omega) hxy]
      exact copyDown_outside h0 (by omega) hxy

/-! ### Rows that repeat -/

/-- The rows that are to move down repeat every `-lines` rows. -/
def Repeats (cfg : Config) (s : State) (lines : Int) (fb : Int → Int → Color) : Prop :=
  ∀ k : Int, 0 ≤ k → k - 2 * lines < cfg.h → Shows cfg s fb (k - lines) fb k

theorem shows_emod (hneg : lines < 0) (hrep : Repeats cfg s lines fb) (k : Nat)
    (hk : k - lines < cfg.h) : Shows cfg s fb (k % -lines) fb k := by
  induction k using Nat.strong_induction_on with
  | _ k ih =>
    by_cases hlow : (k : Int) < -lines
    · rw [Int.emod_eq_of_lt (by omega) hlow]
      intro dx dy _
      rfl
    · -- The row `-lines` above shows the same, and has the same remainder.
      intro dx dy hd
      have hback := ih (k + lines).toNat (by omega) (by omega) dx dy hd
      have hsame := hrep (k + lines) (by omega) (by omega) dx dy hd
      rw [show (((k + lines).toNat : Nat) : Int) = k + lines by omega] at hback
      rw [show (k : Int) + lines - lines = k by omega] at hsame
      have hmod : (k : Int) % -lines = (k + lines) % -lines := by
        conv_lhs => rw [show (k : Int) = (k + lines) + -lines by omega, Int.add_emod_right]
      rw [hmod, hback, hsame]

theorem repeats_iff (hneg : lines < 0) :
    (∀ r : Int, -lines ≤ r → r < cfg.h → Shows cfg s fb (r % -lines) fb (r + lines)) ↔
      Repeats cfg s lines fb := by
  constructor
  · intro hrows k hk0 hk dx dy hd
    have hlow := hrows (k - 2 * lines) (by omega) (by omega) dx dy hd
    have hhigh := hrows (k - lines) (by omega) (by omega) dx dy hd
    have hmod : (k - 2 * lines) % -lines = (k - lines) % -lines := by
      rw [show k - 2 * lines = (k - lines) + -lines by omega, Int.add_emod_right]
    rw [show k - 2 * lines + lines = k - lines by omega, hmod] at hlow
    rw [show k - lines + lines = k by omega] at hhigh
    rw [← hlow, hhigh]
  · intro hrep r hr0 hr
    have hmod : r % -lines = (r + lines) % -lines := by
      conv_lhs => rw [show r = (r + lines) + -lines by omega, Int.add_emod_right]
    have h := shows_emod hneg hrep (r + lines).toNat (by omega)
    rw [show (((r + lines).toNat : Nat) : Int) = r + lines by omega] at h
    rw [hmod]
    exact h

/-- Scrolling up moves every row. Scrolling down does when the rows that move repeat. -/
theorem scroll_moves_iff (cfg : Config) (s : State) (lines : Int) (bg : Color)
    (fb : Int → Int → Color) :
    Moved cfg s lines bg fb (scrolled cfg s lines bg fb) ↔
      (lines < 0 → Repeats cfg s lines fb) := by
  by_cases hclear : cfg.h ≤ lines ∨ cfg.h ≤ -lines
  · refine iff_of_true (moved_clear hclear) ?_
    intro hneg k h0 h
    omega
  · rcases lt_trichotomy lines 0 with hneg | rfl | hpos
    · rw [moved_down_iff (by omega) (by omega), repeats_iff hneg]
      simp [hneg]
    · rw [moved_down_iff (by omega) (by omega)]
      refine iff_of_true ?_ (by simp)
      intro r _ _ dx dy _
      simp
    · exact iff_of_true (moved_up hpos (by omega)) fun hneg => absurd hneg (by omega)

/-- One line down on a console whose first row only is not blank: the third row shows it too. -/
theorem copies_first_row :
    ¬ Moved Config.ipodclassic (init Config.ipodclassic State.zero) (-1) false
      (fun _ y => decide (y < 8))
      (scrolled Config.ipodclassic (init Config.ipodclassic State.zero) (-1) false
        fun _ y => decide (y < 8)) := by
  intro h
  have hthird := h.rows 2 (by decide) (by decide) (by decide) (by decide) 0 0
    ⟨by decide, by decide, by decide, by decide⟩
  revert hthird
  decide

end Fbconsole
end Umsboot
end Freemyipod
