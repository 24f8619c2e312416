import Freemyipod.Lib.Bytes
import Mathlib.Algebra.BigOperators.Group.List.Basic

/-!
# Lib.Arena

A block of memory in which objects are put one after the other, behind two cursors, and linked by
pointers of four bytes.

* `Touches`, `Grows`: which bytes a part of the program writes, and how far it moves the cursors.
* `forEach_fills`: a loop that puts an object for each element of a list, with its address in an array.
* `node_puts`: an object with such an array behind it.
-/

namespace Bump

open Bytes

/-- The bytes of an address, the lowest first. -/
def pointer (p : Nat) : List UInt8 :=
  [UInt8.ofNat p, UInt8.ofNat (p / 256), UInt8.ofNat (p / 65536), UInt8.ofNat (p / 16777216)]

def word (m : Memory) (a : Nat) : Nat :=
  (m a).toNat + 256 * (m (a + 1)).toNat + 65536 * (m (a + 2)).toNat + 16777216 * (m (a + 3)).toNat

/-- `log` has the address and the length of each write; `low` and `high` are the two cursors. -/
structure Arena where
  mem : Memory
  log : List (Nat × Nat)
  low : Nat
  high : Nat

namespace Arena

def write (s : Arena) (a : Nat) (bs : List UInt8) : Arena :=
  { s with mem := put s.mem a bs, log := s.log ++ [(a, bs.length)] }

def takeLow (s : Arena) (n : Nat) : Arena := { s with low := s.low + n }

def takeHigh (s : Arena) (n : Nat) : Arena := { s with high := s.high + n }

end Arena

variable {α : Type}

/-- `f` for each element, with the cells of an array from `cell` on. -/
def forEach (f : Nat → α → Arena → Arena) : Nat → List α → Arena → Arena
  | _, [], s => s
  | cell, x :: xs, s => forEach f (cell + 4) xs (f cell x s)

/-- An object behind the first cursor, with its address in `cell`. -/
def leaf (bs : List UInt8) (cell : Nat) (s : Arena) : Arena :=
  ((s.takeLow bs.length).write s.low bs).write cell (pointer s.low)

/-- The same behind the second cursor. -/
def leafHigh (bs : List UInt8) (cell : Nat) (s : Arena) : Arena :=
  ((s.takeHigh bs.length).write s.high bs).write cell (pointer s.high)

/-- An object with an array behind it. -/
def node (head : List UInt8) (f : Nat → α → Arena → Arena) (cell : Nat) (l : List α) (s : Arena) : Arena :=
  forEach f (s.low + head.length) l
    (((s.takeLow (head.length + 4 * l.length)).write s.low head).write cell (pointer s.low))

/-- The cells from `cell` on point to objects that are as `R` says. -/
def Points (R : Nat → Memory → α → Prop) (m : Memory) : Nat → List α → Prop
  | _, [] => True
  | cell, x :: xs => R (word m cell) m x ∧ Points R m (cell + 4) xs

variable {s t u : Arena} {m m' : Memory} {bs head : List UInt8} {a b a' b' p lo hi lo' hi' cell : Nat}
  {P Q : Nat → Prop}

section Write

@[simp] theorem length_pointer : (pointer p).length = 4 := rfl

@[simp] theorem write_low : (s.write a bs).low = s.low := rfl

@[simp] theorem write_high : (s.write a bs).high = s.high := rfl

@[simp] theorem takeLow_low : (s.takeLow a).low = s.low + a := rfl

@[simp] theorem takeLow_high : (s.takeLow a).high = s.high := rfl

@[simp] theorem takeLow_mem : (s.takeLow a).mem = s.mem := rfl

@[simp] theorem takeHigh_low : (s.takeHigh a).low = s.low := rfl

@[simp] theorem takeHigh_high : (s.takeHigh a).high = s.high + a := rfl

@[simp] theorem takeHigh_mem : (s.takeHigh a).mem = s.mem := rfl

theorem write_mem : (s.write a bs).mem = put s.mem a bs := rfl

/-- A word that is written is read back. -/
theorem word_pointer (h : bytes m a 4 = pointer p) (hp : p < 4294967296) : word m a = p := by
  have hbytes : [m (a + 0), m (a + 1), m (a + 2), m (a + 3)] = pointer p := h
  simp only [pointer, List.cons.injEq, and_true, Nat.add_zero] at hbytes
  obtain ⟨h0, h1, h2, h3⟩ := hbytes
  rw [word, h0, h1, h2, h3]
  simp only [UInt8.toNat_ofNat']
  omega

theorem word_put (hp : p < 4294967296) : word (put m a (pointer p)) a = p :=
  word_pointer bytes_put hp

theorem word_congr (h : ∀ i, a ≤ i → i < a + 4 → m' i = m i) : word m' a = word m a := by
  rw [word, word, h a (by omega) (by omega), h (a + 1) (by omega) (by omega),
    h (a + 2) (by omega) (by omega), h (a + 3) (by omega) (by omega)]

theorem word_put_disjoint (h : a' + 4 ≤ a ∨ a + bs.length ≤ a') : word (put m a bs) a' = word m a' :=
  word_congr fun i hi hi' => put_outside (by omega)

end Write

section Touches

/-- From `s` to `t` only bytes in `P` are written. -/
structure Touches (P : Nat → Prop) (s t : Arena) : Prop where
  log : ∃ l, t.log = s.log ++ l ∧ ∀ w ∈ l, ∀ i, w.1 ≤ i → i < w.1 + w.2 → P i
  mem : ∀ i, ¬ P i → t.mem i = s.mem i

namespace Touches

theorem refl (P : Nat → Prop) (s : Arena) : Touches P s s := ⟨⟨[], by simp, by simp⟩, fun _ _ => rfl⟩

theorem trans (h : Touches P s t) (h' : Touches P t u) : Touches P s u := by
  obtain ⟨l, hl, hin⟩ := h.log
  obtain ⟨l', hl', hin'⟩ := h'.log
  refine ⟨⟨l ++ l', by rw [hl', hl, List.append_assoc], fun w hw => ?_⟩, fun i hi => ?_⟩
  · rcases List.mem_append.1 hw with hw | hw
    · exact hin w hw
    · exact hin' w hw
  · rw [h'.mem i hi, h.mem i hi]

theorem mono (h : Touches P s t) (hPQ : ∀ i, P i → Q i) : Touches Q s t := by
  obtain ⟨l, hl, hin⟩ := h.log
  exact ⟨⟨l, hl, fun w hw i hi hi' => hPQ i (hin w hw i hi hi')⟩, fun i hi => h.mem i fun hP => hi (hPQ i hP)⟩

theorem write (h : Touches P s t) (a : Nat) (bs : List UInt8) (hP : ∀ i, a ≤ i → i < a + bs.length → P i) :
    Touches P s (t.write a bs) := by
  refine h.trans ⟨⟨[(a, bs.length)], rfl, ?_⟩, fun i hi => ?_⟩
  · simpa using hP
  · refine put_outside ?_
    by_contra hin
    exact hi (hP i (by omega) (by omega))

end Touches

/-- The bytes from `lo` to `hi`, and those that the cursors passed from `s` to `t`. -/
def Within (lo hi : Nat) (s t : Arena) (i : Nat) : Prop :=
  (lo ≤ i ∧ i < hi) ∨ (s.low ≤ i ∧ i < t.low) ∨ (s.high ≤ i ∧ i < t.high)

/-- From `s` to `t` memory is taken behind the cursors, and besides it only the bytes from `lo` to `hi`
are written. -/
structure Grows (lo hi a b : Nat) (s t : Arena) : Prop where
  low : t.low = s.low + a
  high : t.high = s.high + b
  touches : Touches (Within lo hi s t) s t

namespace Grows

theorem refl (lo hi : Nat) (s : Arena) : Grows lo hi 0 0 s s := ⟨rfl, rfl, .refl _ s⟩

theorem takeLow (h : Grows lo hi a b s t) (n : Nat) : Grows lo hi (a + n) b s (t.takeLow n) := by
  have hlow := h.low
  refine ⟨?_, h.high, ?_⟩
  · rw [takeLow_low]
    omega
  · have htouches : Touches (Within lo hi s (t.takeLow n)) s t := h.touches.mono fun i hi => by
      unfold Within at hi ⊢
      rw [takeLow_low, takeLow_high]
      omega
    exact ⟨htouches.log, htouches.mem⟩

theorem takeHigh (h : Grows lo hi a b s t) (n : Nat) : Grows lo hi a (b + n) s (t.takeHigh n) := by
  have hhigh := h.high
  refine ⟨h.low, ?_, ?_⟩
  · rw [takeHigh_high]
    omega
  · have htouches : Touches (Within lo hi s (t.takeHigh n)) s t := h.touches.mono fun i hi => by
      unfold Within at hi ⊢
      rw [takeHigh_low, takeHigh_high]
      omega
    exact ⟨htouches.log, htouches.mem⟩

theorem write (h : Grows lo hi a b s t) (p : Nat) (bs : List UInt8)
    (hin : ∀ i, p ≤ i → i < p + bs.length → Within lo hi s t i) : Grows lo hi a b s (t.write p bs) :=
  ⟨h.low, h.high, h.touches.write p bs hin⟩

/-- The second part writes what the first may write, and what the first took. -/
theorem trans (h : Grows lo hi a b s t) (h' : Grows lo' hi' a' b' t u)
    (hin : ∀ i, lo' ≤ i → i < hi' → Within lo hi s t i) : Grows lo hi (a + a') (b + b') s u := by
  have hlow := h.low
  have hhigh := h.high
  have hlow' := h'.low
  have hhigh' := h'.high
  refine ⟨by omega, by omega, (h.touches.mono fun i hi => ?_).trans (h'.touches.mono fun i hi => ?_)⟩
  · unfold Within at hi ⊢
    omega
  · have hcell := hin i
    unfold Within at hi hcell ⊢
    omega

theorem mono (h : Grows lo hi a b s t) (hlo : lo' ≤ lo) (hhi : hi ≤ hi') : Grows lo' hi' a b s t := by
  refine ⟨h.low, h.high, h.touches.mono fun i hi => ?_⟩
  unfold Within at hi ⊢
  omega

theorem same {i : Nat} (h : Grows lo hi a b s t) (hcell : i < lo ∨ hi ≤ i)
    (hlow : i < s.low ∨ t.low ≤ i) (hhigh : i < s.high ∨ t.high ≤ i) : t.mem i = s.mem i := by
  refine h.touches.mem i ?_
  unfold Within
  omega

end Grows

end Touches

section Objects

/-- There is room for `a` and `b` bytes behind the cursors, in the block from `lo` to `hi`. -/
structure Room (lo hi a b : Nat) (s : Arena) : Prop where
  above : lo ≤ s.low
  low : s.low + a ≤ s.high
  high : s.high + b ≤ hi

/-- `m` has what was put behind the cursors from `s` to `t`. -/
def Keeps (s t : Arena) (m : Memory) : Prop :=
  ∀ i, (s.low ≤ i ∧ i < t.low) ∨ (s.high ≤ i ∧ i < t.high) → m i = t.mem i

/-- From `s` to `t` an object is put behind the cursors, and its address into `cell`. -/
structure Puts (cell a b : Nat) (R : Nat → Memory → Prop) (s t : Arena) : Prop
    extends Grows cell (cell + 4) a b s t where
  object : ∀ m, Keeps s t m → R (word t.mem cell) m

/-- The same for each element of a list. -/
structure Fills (R : Nat → Memory → α → Prop) (cell : Nat) (l : List α) (a b : Nat) (s t : Arena) : Prop
    extends Grows cell (cell + 4 * l.length) a b s t where
  array : ∀ m, (∀ i, cell ≤ i → i < cell + 4 * l.length → m i = t.mem i) → Keeps s t m → Points R m cell l

/-- The bytes `bs` are at `q`, in the block from `lo` to `hi`. -/
structure LeafAt (lo hi : Nat) (bs : List UInt8) (q : Nat) (m : Memory) : Prop where
  above : lo ≤ q
  below : q + bs.length ≤ hi
  bytes : bytes m q bs.length = bs

/-- Behind them there is an array of pointers to objects that are as `R` says. -/
structure NodeAt (lo hi : Nat) (head : List UInt8) (R : Nat → Memory → α → Prop) (l : List α) (q : Nat)
    (m : Memory) : Prop where
  above : lo ≤ q
  below : q + (head.length + 4 * l.length) ≤ hi
  bytes : bytes m q head.length = head
  array : Points R m (q + head.length) l

variable {R : Nat → Memory → α → Prop} {f : Nat → α → Arena → Arena} {sz dsz : α → Nat} {l : List α}

/-- The loop puts all the objects, and their addresses into the array. -/
theorem forEach_fills (hf : ∀ x ∈ l, ∀ c (s : Arena), c + 4 ≤ s.low → Room lo hi (sz x) (dsz x) s →
      Puts c (sz x) (dsz x) (fun q m => R q m x) s (f c x s))
    (cell : Nat) (hcell : cell + 4 * l.length ≤ s.low)
    (hroom : Room lo hi (l.map sz).sum (l.map dsz).sum s) :
    Fills R cell l (l.map sz).sum (l.map dsz).sum s (forEach f cell l s) := by
  induction l generalizing cell s with
  | nil => exact ⟨.refl _ _ s, fun _ _ _ => trivial⟩
  | cons x xs ih =>
    obtain ⟨hlo, hlow, hhigh⟩ := hroom
    have hlen : (x :: xs).length = xs.length + 1 := rfl
    simp only [List.map_cons, List.sum_cons] at hlow hhigh ⊢
    have hx := hf x List.mem_cons_self cell s (by omega) ⟨hlo, by omega, by omega⟩
    have hxlow := hx.low
    have hxhigh := hx.high
    have hxs : Fills R (cell + 4) xs (xs.map sz).sum (xs.map dsz).sum (f cell x s)
        (forEach f (cell + 4) xs (f cell x s)) :=
      ih (fun y hy => hf y (List.mem_cons_of_mem _ hy)) (cell + 4) (by omega)
        ⟨by omega, by omega, by omega⟩
    have hxslow := hxs.low
    have hxshigh := hxs.high
    rw [forEach]
    refine ⟨(hx.toGrows.mono (le_refl _) (by omega)).trans hxs.toGrows fun i hi hi' => ?_, ?_⟩
    · unfold Within
      omega
    · intro m hcells hkeeps
      refine ⟨?_, hxs.array m (fun i hi hi' => hcells i (by omega) (by omega))
        fun i hi => hkeeps i (by omega)⟩
      have hword : word m cell = word (f cell x s).mem cell := by
        refine word_congr fun i hi hi' => ?_
        rw [hcells i hi (by omega)]
        exact hxs.same (by omega) (by omega) (by omega)
      rw [hword]
      refine hx.object m fun i hi => ?_
      rw [hkeeps i (by omega)]
      exact hxs.same (by omega) (by omega) (by omega)

theorem leaf_puts (hcell : cell + 4 ≤ s.low) (hroom : Room lo hi bs.length 0 s) (hhi : hi ≤ 4294967296)
    (hpos : 0 < bs.length) : Puts cell bs.length 0 (LeafAt lo hi bs) s (leaf bs cell s) := by
  obtain ⟨hlo, hlow, hhigh⟩ := hroom
  have hgrows := ((Grows.refl cell (cell + 4) s).takeLow bs.length).write s.low bs
    fun i hi hi' => .inr (.inl ⟨hi, by simpa using hi'⟩)
  rw [Nat.zero_add] at hgrows
  refine ⟨hgrows.write cell (pointer s.low) fun i hi hi' => .inl ⟨hi, hi'⟩, fun m hkeeps => ?_⟩
  have hword : word (leaf bs cell s).mem cell = s.low := word_put (by omega)
  rw [hword]
  refine ⟨hlo, by omega, ?_⟩
  have hsame : bytes m s.low bs.length = bytes (put s.mem s.low bs) s.low bs.length := by
    refine bytes_congr fun i hi hi' => ?_
    rw [hkeeps i (.inl ⟨hi, hi'⟩)]
    exact put_outside (.inr (by rw [length_pointer]; omega))
  rw [hsame, bytes_put]

theorem leafHigh_puts (hcell : cell + 4 ≤ s.low) (hroom : Room lo hi 0 bs.length s) (hhi : hi ≤ 4294967296)
    (hpos : 0 < bs.length) : Puts cell 0 bs.length (LeafAt lo hi bs) s (leafHigh bs cell s) := by
  obtain ⟨hlo, hlow, hhigh⟩ := hroom
  have hgrows := ((Grows.refl cell (cell + 4) s).takeHigh bs.length).write s.high bs
    fun i hi hi' => .inr (.inr ⟨hi, by simpa using hi'⟩)
  rw [Nat.zero_add] at hgrows
  refine ⟨hgrows.write cell (pointer s.high) fun i hi hi' => .inl ⟨hi, hi'⟩, fun m hkeeps => ?_⟩
  have hword : word (leafHigh bs cell s).mem cell = s.high := word_put (by omega)
  rw [hword]
  refine ⟨by omega, by omega, ?_⟩
  have hsame : bytes m s.high bs.length = bytes (put s.mem s.high bs) s.high bs.length := by
    refine bytes_congr fun i hi hi' => ?_
    rw [hkeeps i (.inr ⟨hi, hi'⟩)]
    exact put_outside (.inr (by rw [length_pointer]; omega))
  rw [hsame, bytes_put]

/-- An object and what its array points to. -/
theorem node_puts (hf : ∀ x ∈ l, ∀ c (s : Arena), c + 4 ≤ s.low → Room lo hi (sz x) (dsz x) s →
      Puts c (sz x) (dsz x) (fun q m => R q m x) s (f c x s))
    (hcell : cell + 4 ≤ s.low) (hhi : hi ≤ 4294967296) (hpos : 0 < head.length)
    (hroom : Room lo hi (head.length + 4 * l.length + (l.map sz).sum) (l.map dsz).sum s) :
    Puts cell (head.length + 4 * l.length + (l.map sz).sum) (l.map dsz).sum (NodeAt lo hi head R l) s
      (node head f cell l s) := by
  obtain ⟨hlo, hlow, hhigh⟩ := hroom
  have hgrows := (((Grows.refl cell (cell + 4) s).takeLow (head.length + 4 * l.length)).write s.low head
    fun i hi hi' => .inr (.inl ⟨hi, by simp only [takeLow_low]; omega⟩)).write cell (pointer s.low)
    fun i hi hi' => .inl ⟨hi, hi'⟩
  rw [Nat.zero_add] at hgrows
  obtain ⟨u, hu⟩ : ∃ u, u = ((s.takeLow (head.length + 4 * l.length)).write s.low head).write cell
    (pointer s.low) := ⟨_, rfl⟩
  rw [← hu] at hgrows
  have hulow := hgrows.low
  have huhigh := hgrows.high
  have hfills : Fills R (s.low + head.length) l (l.map sz).sum (l.map dsz).sum u
      (forEach f (s.low + head.length) l u) :=
    forEach_fills hf _ (by omega) ⟨by omega, by omega, by omega⟩
  have htlow := hfills.low
  have hthigh := hfills.high
  rw [node, ← hu]
  refine ⟨?_, fun m hkeeps => ?_⟩
  · have hgrows' := hgrows.trans hfills.toGrows fun i hi hi' => by
      unfold Within
      omega
    rwa [Nat.zero_add] at hgrows'
  · have hword : word (forEach f (s.low + head.length) l u).mem cell = s.low := by
      have hsame : word (forEach f (s.low + head.length) l u).mem cell = word u.mem cell :=
        word_congr fun i hi hi' => hfills.same (by omega) (by omega) (by omega)
      rw [hsame, hu]
      exact word_put (by omega)
    rw [hword]
    refine ⟨hlo, by omega, ?_, ?_⟩
    · have hsame : bytes m s.low head.length = bytes (put s.mem s.low head) s.low head.length := by
        refine bytes_congr fun i hi hi' => ?_
        rw [hkeeps i (.inl ⟨hi, by omega⟩), hfills.same (by omega) (by omega) (by omega), hu]
        exact put_outside (.inr (by rw [length_pointer]; omega))
      rw [hsame, bytes_put]
    · exact hfills.array m (fun i hi hi' => hkeeps i (.inl ⟨by omega, by omega⟩))
        fun i hi => hkeeps i (by omega)

end Objects

end Bump
