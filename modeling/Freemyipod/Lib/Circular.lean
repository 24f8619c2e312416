import Mathlib.Algebra.Ring.Nat
import Mathlib.Data.List.Basic

/-!
# Lib.Circular

A circular buffer of `n` elements with a read and a write index. It is empty if the indices are equal,
so that it holds `n - 1` elements at most, and what runs over the end of the array is copied in two
pieces.

* `content_put`: elements that fit are appended to the content.
* `content_skip`, `load_eq_take`: the read index moves over the oldest elements.
* `content_overwrite`: elements written at the read index replace the oldest ones.
-/

namespace Circular

variable {α : Type} {n : Nat}

/-- `memcpy(&buf[a], l, l.length);` -/
def copy (buf : Nat → α) (a : Nat) (l : List α) : Nat → α := fun i =>
  if a ≤ i then (l[i - a]?).getD (buf i) else buf i

/-- `l` is written from index `a` on, with what does not fit at the start. -/
def store (n : Nat) (buf : Nat → α) (a : Nat) (l : List α) : Nat → α :=
  if n ≤ a + l.length then copy (copy buf a (l.take (n - a))) 0 (l.drop (n - a)) else copy buf a l

/-- `k` elements from index `a` on, in one piece. -/
def piece (buf : Nat → α) (a k : Nat) : List α := (List.range k).map fun i => buf (a + i)

/-- `k` elements are read from index `a` on, with what is beyond the end from the start. -/
def load (n : Nat) (buf : Nat → α) (a k : Nat) : List α :=
  if n ≤ a + k then piece buf a (n - a) ++ piece buf 0 (k - (n - a)) else piece buf a k

/-- `k` elements from index `a` on, with indices modulo `n`. -/
def window (n : Nat) (buf : Nat → α) (a k : Nat) : List α :=
  (List.range k).map fun i => buf ((a + i) % n)

section Window

variable {buf : Nat → α} {a b k m o i j : Nat} {l : List α}

@[simp] theorem length_piece : (piece buf a k).length = k := by simp [piece]

@[simp] theorem length_window : (window n buf a k).length = k := by simp [window]

@[simp] theorem window_zero : window n buf a 0 = [] := rfl

theorem window_add : window n buf a (k + m) = window n buf a k ++ window n buf (a + k) m := by
  simp [window, List.range_add, Nat.add_assoc]

theorem window_congr (h : a % n = b % n) : window n buf a k = window n buf b k := by
  refine List.map_congr_left fun i _ => ?_
  rw [Nat.add_mod, h, ← Nat.add_mod]

theorem window_one : window n buf a 1 = [buf (a % n)] := rfl

theorem window_eq_piece (h : a + k ≤ n) : window n buf a k = piece buf a k := by
  refine List.map_congr_left fun i hi => ?_
  have hi := List.mem_range.1 hi
  rw [Nat.mod_eq_of_lt (by omega)]

theorem piece_succ : piece buf a (k + 1) = piece buf a k ++ [buf (a + k)] := by
  simp [piece, List.range_succ]

theorem copy_nil : copy buf a [] = buf := by
  funext i
  simp [copy]

/-- What ends within the array is written in one piece. -/
theorem store_of_le (h : a + l.length ≤ n) : store n buf a l = copy buf a l := by
  rw [store]
  split
  · have htake : l.take (n - a) = l := List.take_of_length_le (by omega)
    have hdrop : l.drop (n - a) = [] := List.drop_eq_nil_of_le (by omega)
    rw [htake, hdrop, copy_nil]
  · rfl

/-- Elements before those written are as before. -/
theorem piece_copy_of_le (h : a + k ≤ b) : piece (copy buf b l) a k = piece buf a k := by
  refine List.map_congr_left fun i hi => ?_
  have hi := List.mem_range.1 hi
  rw [copy, if_neg (by omega)]

/-- The two pieces are the elements modulo the size. -/
theorem load_eq_window (ha : a < n) (hk : k ≤ n) : load n buf a k = window n buf a k := by
  rw [load]
  split
  · rename_i hend
    have hsplit : k = (n - a) + (k - (n - a)) := by omega
    have hmod : (a + (n - a)) % n = 0 % n := by
      have hn : a + (n - a) = n := by omega
      rw [hn, Nat.mod_self, Nat.zero_mod]
    conv => rhs; rw [hsplit, window_add]
    rw [window_congr hmod, window_eq_piece (by omega), window_eq_piece (by omega)]
  · rw [window_eq_piece (by omega)]

theorem mod_of_wrap (h : n ≤ i) (hi : i < n + n) : i % n = i - n := by
  rw [Nat.mod_eq_sub_mod h, Nat.mod_eq_of_lt (by omega)]

/-- The element at offset `j` after `l` has been written. -/
theorem store_mod (ha : a < n) (hl : l.length ≤ n) (hj : j < n) :
    store n buf a l ((a + j) % n) = (l[j]?).getD (buf ((a + j) % n)) := by
  by_cases hwrap : n ≤ a + j
  · rw [mod_of_wrap hwrap (by omega), store]
    have hlow : ¬ a ≤ a + j - n := by omega
    have hidx : n - a + (a + j - n) = j := by omega
    split
    · simp only [copy, Nat.zero_le, if_true, if_neg hlow, Nat.sub_zero, List.getElem?_drop, hidx]
    · have hnone : l[j]? = none := List.getElem?_eq_none (by omega)
      simp only [copy, if_neg hlow, hnone, Option.getD_none]
  · rw [Nat.mod_eq_of_lt (by omega), store]
    have hidx : a + j - a = j := by omega
    split
    · have hnone : l[n - a + (a + j)]? = none := List.getElem?_eq_none (by omega)
      have hlt : j < n - a := by omega
      simp only [copy, Nat.zero_le, if_true, Nat.le_add_right, hidx, Nat.sub_zero,
        List.getElem?_drop, hnone, Option.getD_none, List.getElem?_take_of_lt hlt]
    · simp only [copy, Nat.le_add_right, if_true, hidx]

/-- What has been written is read back. -/
theorem window_store_self (ha : a < n) (hl : l.length ≤ n) :
    window n (store n buf a l) a l.length = l := by
  apply List.ext_getElem
  · simp
  · intro j h1 h2
    have hget : store n buf a l ((a + j) % n) = (l[j]?).getD (buf ((a + j) % n)) :=
      store_mod ha hl (Nat.lt_of_lt_of_le h2 hl)
    rw [List.getElem?_eq_getElem h2, Option.getD_some] at hget
    simpa [window] using hget

/-- Elements behind what has been written are as before. -/
theorem window_store_of_le (ha : a < n) (ho : l.length ≤ o) (hk : o + k ≤ n) :
    window n (store n buf a l) (a + o) k = window n buf (a + o) k := by
  refine List.map_congr_left fun i hi => ?_
  have hi := List.mem_range.1 hi
  have hnone : l[o + i]? = none := List.getElem?_eq_none (by omega)
  rw [Nat.add_assoc, store_mod ha (by omega) (by omega), hnone, Option.getD_none]

end Window

end Circular

/-- The array and its two indices. -/
structure Circular (α : Type) (n : Nat) where
  buf : Nat → α
  r : Fin n
  w : Fin n

namespace Circular

variable {α : Type} {n : Nat} (t : Circular α n)

/-- The number of elements that can be read. -/
@[grind =] def available : Nat := if t.r.val ≤ t.w.val then t.w - t.r else t.w + n - t.r

/-- The number of elements that can be written. -/
def free : Nat := if t.w.val < t.r.val then t.r - t.w - 1 else t.r + n - t.w - 1

/-- The elements that can be read, oldest first. -/
@[grind =] def content : List α := window n t.buf t.r t.available

/-- The write index moves by `k`. -/
def grow [NeZero n] (k : Nat) : Circular α n := { t with w := Fin.ofNat n (t.w + k) }

/-- The read index moves by `k`. -/
def skip [NeZero n] (k : Nat) : Circular α n := { t with r := Fin.ofNat n (t.r + k) }

/-- `l` is written at the write index. -/
def put [NeZero n] (l : List α) : Circular α n :=
  grow { t with buf := store n t.buf t.w l } l.length

/-- `l` is written at the read index, which stays there. -/
def overwrite (l : List α) : Circular α n := { t with buf := store n t.buf t.r l }

variable {t} {l : List α} {k : Nat}

theorem available_lt : t.available < n := by
  have hr := t.r.isLt
  have hw := t.w.isLt
  rw [available]
  split <;> omega

theorem available_add_free : t.available + t.free = n - 1 := by
  have hr := t.r.isLt
  have hw := t.w.isLt
  rw [available, free]
  split <;> split <;> omega

@[simp] theorem length_content : t.content.length = t.available := length_window

theorem content_eq_nil_iff : t.content = [] ↔ t.available = 0 := by
  rw [← List.length_eq_zero_iff, length_content]

theorem available_eq_zero_iff : t.available = 0 ↔ t.r = t.w := by
  have hr := t.r.isLt
  have hw := t.w.isLt
  rw [available, Fin.ext_iff]
  split <;> omega

/-- The write index is where the content ends. -/
theorem w_eq : (t.r.val + t.available) % n = t.w.val := by
  have hr := t.r.isLt
  have hw := t.w.isLt
  rw [available]
  split
  · rw [Nat.mod_eq_of_lt (by omega)]
    omega
  · rw [mod_of_wrap (by omega) (by omega)]
    omega

/-- The number of elements between two indices. -/
theorem available_eq {a : Nat} (ha : a < n) (hw : (t.r.val + a) % n = t.w.val) :
    t.available = a := by
  have hr := t.r.isLt
  rw [available]
  by_cases hwrap : n ≤ t.r.val + a
  · rw [mod_of_wrap hwrap (by omega)] at hw
    split <;> omega
  · rw [Nat.mod_eq_of_lt (by omega)] at hw
    split <;> omega

/-- What is read at the read index are the oldest elements. -/
theorem window_eq_take (h : k ≤ t.available) : window n t.buf t.r k = t.content.take k := by
  have hsplit : t.content = window n t.buf t.r k ++ window n t.buf (t.r + k) (t.available - k) := by
    rw [content, ← window_add, Nat.add_sub_cancel' h]
  rw [hsplit, List.take_left' length_window]

theorem load_eq_take (h : k ≤ t.available) : load n t.buf t.r k = t.content.take k := by
  rw [load_eq_window t.r.isLt (Nat.le_of_lt (Nat.lt_of_le_of_lt h available_lt)), window_eq_take h]

/-- The same for a piece that ends within the array. -/
theorem piece_eq_take (h : k ≤ t.available) (hend : t.r + k ≤ n) :
    piece t.buf t.r k = t.content.take k := by
  rw [← window_eq_piece hend, window_eq_take h]

/-- Elements written in the free part do not change the content. -/
theorem content_store {o : Nat} (h : o + l.length ≤ t.free) :
    content { t with buf := store n t.buf ((t.w + o) % n) l } = t.content := by
  have hlt := t.available_lt
  have hsum := t.available_add_free
  have hn : 0 < n := by omega
  have hr : t.r.val % n = ((t.w.val + o) % n + (n - t.available - o)) % n := by
    have hsum : t.available + o + (n - t.available - o) = n := by omega
    rw [Nat.mod_add_mod, ← w_eq, Nat.add_assoc, Nat.mod_add_mod, Nat.add_assoc, ← Nat.add_assoc _ o,
      hsum, Nat.add_mod_right]
  show window n (store n t.buf ((t.w + o) % n) l) t.r t.available = window n t.buf t.r t.available
  rw [window_congr hr, window_congr hr]
  exact window_store_of_le (Nat.mod_lt _ hn) (by omega) (by omega)

@[simp] theorem available_overwrite : (t.overwrite l).available = t.available := rfl

/-- The oldest elements are replaced. -/
theorem content_overwrite (h : l.length ≤ t.available) :
    (t.overwrite l).content = l ++ t.content.drop l.length := by
  have hlt := t.available_lt
  have hsum : t.available = l.length + (t.available - l.length) := by omega
  have hdrop : t.content.drop l.length =
      window n t.buf (t.r + l.length) (t.available - l.length) := by
    have hall : t.content = window n t.buf t.r l.length ++
        window n t.buf (t.r + l.length) (t.available - l.length) := by
      rw [content, ← window_add, ← hsum]
    rw [hall, List.drop_left' length_window]
  rw [hdrop, content, available_overwrite, hsum, window_add]
  refine congrArg₂ (· ++ ·) (window_store_self t.r.isLt (by omega)) ?_
  have hk : l.length + (t.available - l.length) - l.length = t.available - l.length := by omega
  rw [hk]
  exact window_store_of_le t.r.isLt (Nat.le_refl _) (by omega)

section Indices

variable [NeZero n]

theorem available_grow (h : k ≤ t.free) : (t.grow k).available = t.available + k := by
  have hlt := t.available_lt
  have hsum := t.available_add_free
  apply available_eq
  · omega
  · show (t.r.val + (t.available + k)) % n = (Fin.ofNat n (t.w + k)).val
    rw [Fin.val_ofNat, ← w_eq, ← Nat.add_assoc, Nat.mod_add_mod]

/-- What is behind the write index becomes the end of the content. -/
theorem content_grow (h : k ≤ t.free) :
    (t.grow k).content = t.content ++ window n t.buf t.w k := by
  have hw : (t.r.val + t.available) % n = t.w.val % n := by
    rw [w_eq, Nat.mod_eq_of_lt t.w.isLt]
  rw [content, available_grow h, window_add]
  exact congrArg₂ (· ++ ·) rfl (window_congr hw)

theorem free_grow (h : k ≤ t.free) : (t.grow k).free = t.free - k := by
  have hsum := t.available_add_free
  have hsum' := (t.grow k).available_add_free
  rw [available_grow h] at hsum'
  omega

/-- At the end of the array the write index starts again at 0. -/
theorem grow_of_eq (h : t.w.val + k = n) : t.grow k = { t with w := 0 } := by
  have h0 : Fin.ofNat n (t.w.val + k) = 0 := by
    rw [Fin.ext_iff, Fin.val_ofNat, h, Nat.mod_self, Fin.val_zero]
  rw [grow, h0]

theorem available_put (h : l.length ≤ t.free) : (t.put l).available = t.available + l.length :=
  available_grow h

/-- Elements that fit are appended. -/
theorem content_put (h : l.length ≤ t.free) : (t.put l).content = t.content ++ l := by
  have hlt := t.available_lt
  have hsum := t.available_add_free
  have hself : window n (store n t.buf t.w l) t.w l.length = l :=
    window_store_self t.w.isLt (by omega)
  have hold := t.content_store (l := l) (o := 0) (by omega)
  rw [Nat.add_zero, Nat.mod_eq_of_lt t.w.isLt] at hold
  have hgrow := content_grow (t := { t with buf := store n t.buf t.w l }) h
  rw [put, hgrow, hold]
  exact congrArg (t.content ++ ·) hself

theorem free_put (h : l.length ≤ t.free) : (t.put l).free = t.free - l.length := free_grow h

theorem available_skip (h : k ≤ t.available) : (t.skip k).available = t.available - k := by
  have hlt := t.available_lt
  apply available_eq
  · omega
  · show ((Fin.ofNat n (t.r + k)).val + (t.available - k)) % n = t.w.val
    rw [Fin.val_ofNat, Nat.mod_add_mod, Nat.add_assoc, Nat.add_sub_cancel' h, w_eq]

/-- At the end of the array the read index starts again at 0. -/
theorem skip_of_eq (h : t.r.val + k = n) : t.skip k = { t with r := 0 } := by
  have h0 : Fin.ofNat n (t.r.val + k) = 0 := by
    rw [Fin.ext_iff, Fin.val_ofNat, h, Nat.mod_self, Fin.val_zero]
  rw [skip, h0]

/-- The oldest elements are gone. -/
theorem content_skip (h : k ≤ t.available) : (t.skip k).content = t.content.drop k := by
  have hsplit : t.content = window n t.buf t.r k ++ window n t.buf (t.r + k) (t.available - k) := by
    rw [content, ← window_add, Nat.add_sub_cancel' h]
  rw [hsplit, List.drop_left' length_window, content, available_skip h]
  exact window_congr (by simp [skip])

theorem free_skip (h : k ≤ t.available) : (t.skip k).free = t.free + k := by
  have hsum := t.available_add_free
  have hsum' := (t.skip k).available_add_free
  rw [available_skip h] at hsum'
  omega

end Indices

end Circular
