import Freemyipod.Fat.Direntries
import Mathlib.Data.Nat.Digits.Defs
import Mathlib.Data.Nat.Digits.Lemmas
import Mathlib.Data.List.Perm.Subperm

/-!
# Fat.ShortNames

The short name that `add_dir_entry` finds for a long one.

* `createDosName`, `randomizeDosName`: the candidates. `search`: the scan of the directory for one of them.
* `Formed`: the shape that they all have; `createDosName_formed`, `Formed.randomize`.
* `candidate_injective`: they do not come around in less than ten million turns.
* `addDirEntry_iff`: the name is new and valid exactly if there is a free candidate, and it is not a name
  that begins with a space.
-/

namespace Freemyipod
namespace Fat
namespace Directory

open Bytes

/-! ## The functions -/

/-- `"*/:<>?\|` -/
def badChars : List UInt8 := [0x22, 0x2a, 0x2f, 0x3a, 0x3c, 0x3e, 0x3f, 0x5c, 0x7c]

/-- Of an empty name there is no last character. -/
def fatCheckname (newname : List UInt8) : Int :=
  if 255 < newname.length ∨ newname.getLast? = some 0x2e then -1
  else if newname.any fun c => c < 0x20 ∨ c ∈ badChars then -1
  else if newname.getLast? = some 0x20 then -1
  else 0

def isSpace (c : UInt8) : Bool := c = 0x20 ∨ (0x09 ≤ c ∧ c ≤ 0x0d)

def isDigit (c : UInt8) : Bool := 0x30 ≤ c ∧ c ≤ 0x39

/-- The loop over the digits. -/
def digitsValue (s : List UInt8) : Nat :=
  (s.takeWhile isDigit).foldl (fun value c => value * 10 + (c.toNat - 0x30)) 0

/-- The loop over the zeros before them, and what follows. -/
def unsignedValue (s : List UInt8) : Int := digitsValue (s.dropWhile (· = 0x30))

def signedValue : List UInt8 → Int
  | [] => 0
  | c :: s =>
    if c = 0x2d then -unsignedValue s
    else if c = 0x2b then unsignedValue s
    else unsignedValue (c :: s)

def atoi (s : List UInt8) : Int := signedValue (s.dropWhile isSpace)

@[grind =] def numeral (n : Nat) : List UInt8 :=
  if n = 0 then [0x30] else (Nat.digits 10 n).reverse.map fun d => UInt8.ofNat (d + 0x30)

/-- `%d` -/
def decimal (n : Int) : List UInt8 :=
  if n < 0 then 0x2d :: numeral n.natAbs else numeral n.natAbs

/-- The number behind the first `~` among the eight bytes. -/
def count (name : List UInt8) : Int :=
  match (name.take 8).findIdx? (· = 0x7e) with
  | some tilde => atoi ((name.take 8).drop (tilde + 1))
  | none => 0

def randomizeDosName (name : List UInt8) : List UInt8 :=
  let cnt := (count name + 1).tmod 10000000
  let num := (0x7e :: decimal cnt).take 8
  let lastpt := (name.take 8).findIdx? fun c => c = 0x20 ∨ c = 0x7e
  let offset := min (lastpt.getD 8) (8 - num.length)
  name.take offset ++ num ++ List.replicate (8 - (offset + num.length)) 0x20 ++ name.drop 8

def toupper (c : UInt8) : UInt8 := if 0x61 ≤ c ∧ c ≤ 0x7a then c - 0x20 else c

/-- `"*+,./:;<=>?[\]|` -/
def invalidChars : List UInt8 :=
  [0x22, 0x2a, 0x2b, 0x2c, 0x2e, 0x2f, 0x3a, 0x3b, 0x3c, 0x3d, 0x3e, 0x3f, 0x5b, 0x5c, 0x5d, 0x7c]

/-- `char2dos`, and whether it asks for a random name. -/
def char2dos (c : UInt8) : UInt8 × Bool :=
  if c ≤ 0x20 then (0, false)
  else if c ∈ invalidChars then (0x5f, true)
  else (toupper c, false)

/-- A loop over characters that keeps `n` of them. -/
def dosChars : Nat → List UInt8 → List UInt8 × Bool
  | _, [] => ([], false)
  | 0, _ :: _ => ([], false)
  | n + 1, c :: s =>
    if (char2dos c).1 = 0 then dosChars (n + 1) s
    else ((char2dos c).1 :: (dosChars n s).1, (char2dos c).2 || (dosChars n s).2)

/-- The place of the last dot, if it is not the first character. -/
def extAt (name : List UInt8) : Option Nat :=
  match name.reverse.findIdx? (· = 0x2e) with
  | some i => if i + 1 = name.length then none else some (name.length - 1 - i)
  | none => none

/-- The name before the extension, and the extension. -/
def baseOf (name : List UInt8) : List UInt8 := name.take ((extAt name).getD name.length)

def extOf (name : List UInt8) : List UInt8 := name.drop ((extAt name).getD name.length + 1)

def pad (n : Nat) (s : List UInt8) : List UInt8 := s ++ List.replicate (n - s.length) 0x20

def createDosName (name : List UInt8) : List UInt8 :=
  let base := dosChars 8 (baseOf name)
  let ext := dosChars 3 (extOf name)
  let newname := pad 8 (if base.1.head? = some 0xe5 then 0x05 :: base.1.tail else base.1) ++ pad 3 ext.1
  if 3 < (extOf name).length ∨ 8 < (baseOf name).length ∨ base.2 ∨ ext.2 then
    randomizeDosName newname
  else newname

/-- `entries_found`, `firstentry` -/
structure Slots where
  found : Int
  first : Int

/-- The test at the end of each turn. -/
def Slots.note (s : Slots) (needed place : Int) : Slots :=
  if s.first < 0 ∧ needed ≤ s.found then { s with first := place + 1 - s.found } else s

inductive Search where
  /-- The name is there. -/
  | taken
  | next (s : Slots)
  | ended (s : Slots)

/-- The loop over a sector, with `n` entries left. -/
def searchSector (shortname : List UInt8) (needed : Int) (sector : Memory) (num : Nat) :
    Nat → Slots → Search
  | 0, s => .next s
  | n + 1, s =>
    let i := 16 - (n + 1)
    let e := direntry sector i
    if e 0 = 0 then .ended ({ s with found := s.found + (16 - i) }.note needed (num * 16 + 15))
    else if e 0 = 0xe5 then
      searchSector shortname needed sector num n
        ({ s with found := s.found + 1 }.note needed (num * 16 + i))
    -- a short name has no zero byte, so `strncmp` compares all eleven
    else if bytes e 0 11 = shortname then .taken
    else searchSector shortname needed sector num n ({ s with found := 0 }.note needed (num * 16 + i))

/-- Step 1: free entries, unless the name is there. -/
def search (shortname : List UInt8) (needed : Int) : List Memory → Nat → Slots → Option Slots
  | [], _, s => some s
  | sector :: sectors, num, s =>
    match searchSector shortname needed sector num 16 s with
    | .taken => none
    | .next s => search shortname needed sectors (num + 1) s
    | .ended s => some s

/-- The search starts again with another name as long as the name is there. -/
def restart (sectors : List Memory) (needed : Int) : Nat → List UInt8 → Option (List UInt8 × Slots)
  | 0, _ => none
  | fuel + 1, shortname =>
    match search shortname needed sectors 0 ⟨0, -1⟩ with
    | some s => some (shortname, s)
    | none => restart sectors needed fuel (randomizeDosName shortname)

/-- `add_dir_entry` up to the short name and the place of the entries. -/
def addDirEntry (fuel : Nat) (sectors : List Memory) (name : List UInt8) :
    Option (Except Int (List UInt8 × Slots)) :=
  if fatCheckname name < 0 then some (.error (fatCheckname name * 10 - 1))
  else (restart sectors ((name.length + 12) / 13 + 1) fuel (createDosName name)).map .ok

/-! ## Numbers -/

variable {s name b x : List UInt8} {c : UInt8} {n m k fuel : Nat} {z : Int}

theorem digitsValue_zero (s : List UInt8) : digitsValue (0x30 :: s) = digitsValue s := rfl

theorem unsignedValue_eq (s : List UInt8) : unsignedValue s = digitsValue s := by
  induction s with
  | nil => rfl
  | cons c s ih =>
    rw [unsignedValue, List.dropWhile_cons]
    split
    · rename_i hzero
      rw [decide_eq_true_iff] at hzero
      rw [hzero, digitsValue_zero, ← unsignedValue, ih]
    · rfl

theorem digit_facts : ∀ n < 10, isDigit (UInt8.ofNat (n + 0x30)) ∧
    (UInt8.ofNat (n + 0x30)).toNat - 0x30 = n := by
  decide

theorem isDigit_facts (h : isDigit c) :
    isSpace c = false ∧ c ≠ 0x2d ∧ c ≠ 0x2b ∧ c ≠ 0x20 ∧ c ≠ 0x7e := by
  simp only [isDigit, decide_eq_true_eq, UInt8.le_iff_toNat_le] at h
  simp only [isSpace, decide_eq_false_iff_not, UInt8.le_iff_toNat_le, ne_eq, ← UInt8.toNat_inj]
  simp only [UInt8.reduceToNat] at h ⊢
  omega

theorem isDigit_numeral (h : c ∈ numeral n) : isDigit c := by
  rw [numeral] at h
  split at h
  · simp only [List.mem_singleton] at h
    subst h
    decide
  · rw [List.mem_map] at h
    obtain ⟨d, hd, rfl⟩ := h
    exact (digit_facts d (Nat.digits_lt_base (by omega) (List.mem_reverse.1 hd))).1

/-- A number is read back, if what follows is not a digit. -/
theorem digitsValue_numeral (hs : ∀ c ∈ s.head?, isDigit c = false) :
    digitsValue (numeral n ++ s) = n := by
  have hdigits : ∀ c ∈ numeral n, isDigit c := fun c hc => isDigit_numeral hc
  have htail : s.takeWhile isDigit = [] := by
    cases s with
    | nil => rfl
    | cons c s => simp [hs c rfl]
  rw [digitsValue, List.takeWhile_append_of_pos hdigits, htail, List.append_nil, numeral]
  split
  · rename_i hzero
    rw [hzero]
    rfl
  · rw [List.foldl_map, List.foldl_reverse]
    have hfold : ∀ ds : List Nat, (∀ d ∈ ds, d < 10) →
        ds.foldr (fun d value => value * 10 + ((UInt8.ofNat (d + 0x30)).toNat - 0x30)) 0 =
          Nat.ofDigits 10 ds := by
      intro ds hds
      induction ds with
      | nil => rfl
      | cons d ds ih =>
        rw [List.foldr_cons, ih fun d' hd' => hds d' (List.mem_cons_of_mem _ hd'),
          (digit_facts d (hds d List.mem_cons_self)).2, Nat.ofDigits_cons]
        ring
    rw [hfold _ fun d hd => Nat.digits_lt_base (by omega) hd, Nat.ofDigits_digits]

theorem head_numeral : ∃ c s, numeral n = c :: s := by
  rw [numeral]
  split
  · exact ⟨_, _, rfl⟩
  · rename_i hne
    have hlen : 0 < (Nat.digits 10 n).length := List.length_pos_iff.2 (Nat.digits_ne_nil_iff_ne_zero.2 hne)
    exact List.exists_cons_of_length_pos (by simpa using hlen)

theorem atoi_decimal (hs : ∀ c ∈ s.head?, isDigit c = false) : atoi (decimal z ++ s) = z := by
  obtain ⟨c, t, ht⟩ := @head_numeral z.natAbs
  have hc := isDigit_facts (isDigit_numeral (n := z.natAbs) (c := c) (by simp [ht]))
  have hvalue := @digitsValue_numeral s z.natAbs hs
  rw [atoi, decimal]
  split
  · rw [List.cons_append, List.dropWhile_cons, if_neg (by decide), signedValue, if_pos rfl,
      unsignedValue_eq, hvalue]
    omega
  · rw [ht] at hvalue ⊢
    rw [List.cons_append, List.dropWhile_cons, hc.1, if_neg Bool.false_ne_true, signedValue,
      if_neg hc.2.1, if_neg hc.2.2.1, unsignedValue_eq, ← List.cons_append, hvalue]
    omega

theorem digitsValue_lt (s : List UInt8) : digitsValue s < 10 ^ s.length := by
  have hfold : ∀ (ds : List UInt8) (v : Nat), (∀ c ∈ ds, isDigit c) →
      ds.foldl (fun value c => value * 10 + (c.toNat - 0x30)) v < (v + 1) * 10 ^ ds.length := by
    intro ds
    induction ds with
    | nil => simp
    | cons c ds ih =>
      intro v hds
      have hc : c.toNat - 0x30 < 10 := by
        have hdigit := hds c List.mem_cons_self
        simp only [isDigit, decide_eq_true_eq, UInt8.le_iff_toNat_le, UInt8.reduceToNat] at hdigit
        omega
      rw [List.foldl_cons, List.length_cons, pow_succ']
      calc _ < (v * 10 + (c.toNat - 0x30) + 1) * 10 ^ ds.length :=
            ih _ fun d hd => hds d (List.mem_cons_of_mem _ hd)
        _ ≤ (v + 1) * 10 * 10 ^ ds.length := Nat.mul_le_mul_right _ (by omega)
        _ = (v + 1) * (10 * 10 ^ ds.length) := Nat.mul_assoc _ _ _
  have hlt := hfold (s.takeWhile isDigit) 0 fun c hc => List.mem_takeWhile_imp hc
  have hle : 10 ^ (s.takeWhile isDigit).length ≤ 10 ^ s.length :=
    Nat.pow_le_pow_right (by omega) (List.takeWhile_prefix isDigit).length_le
  rw [digitsValue]
  omega

/-- What can be read from seven characters. -/
theorem atoi_bounds (h : s.length ≤ 7) : -999999 ≤ atoi s ∧ atoi s ≤ 9999999 := by
  have hle := (List.dropWhile_suffix (l := s) isSpace).length_le
  rw [atoi]
  cases ht : s.dropWhile isSpace with
  | nil => decide
  | cons c t =>
    rw [ht, List.length_cons] at hle
    have hlt := digitsValue_lt t
    have hlt' := digitsValue_lt (c :: t)
    have hpow : 10 ^ t.length ≤ 10 ^ 6 := Nat.pow_le_pow_right (by omega) (by omega)
    have hpow' : 10 ^ (c :: t).length ≤ 10 ^ 7 :=
      Nat.pow_le_pow_right (by omega) (by rw [List.length_cons]; omega)
    rw [signedValue, unsignedValue_eq, unsignedValue_eq]
    split
    · omega
    · split <;> omega

theorem count_bounds (name : List UInt8) : -999999 ≤ count name ∧ count name ≤ 9999999 := by
  rw [count]
  split
  · refine atoi_bounds ?_
    simp only [List.length_drop, List.length_take]
    omega
  · decide

theorem length_numeral (h : n < 10 ^ k) (hk : 0 < k) : (numeral n).length ≤ k := by
  rw [numeral]
  split
  · exact hk
  · rw [List.length_map, List.length_reverse]
    exact (Nat.digits_length_le_iff (by omega) n).2 h

theorem length_decimal (hlow : -999999 ≤ z) (hhigh : z ≤ 9999999) : (decimal z).length ≤ 7 := by
  rw [decimal]
  split
  · have hlen := @length_numeral z.natAbs 6 (by omega) (by omega)
    rw [List.length_cons]
    omega
  · exact length_numeral (by omega) (by omega)

/-- The next number. -/
def following (z : Int) : Int := (z + 1).tmod 10000000

theorem following_eq (hlow : -999999 ≤ z) (hhigh : z ≤ 9999999) :
    following z = if z = 9999999 then 0 else z + 1 := by
  rw [following]
  split
  · rename_i hlast
    rw [hlast]
    rfl
  · rcases Int.lt_or_le (z + 1) 0 with hneg | hpos
    · rw [← neg_neg (z + 1), Int.neg_tmod, Int.tmod_eq_of_lt (by omega) (by omega)]
    · exact Int.tmod_eq_of_lt hpos (by omega)

theorem following_bounds (hlow : -999999 ≤ z) (hhigh : z ≤ 9999999) :
    -999999 ≤ following z ∧ following z ≤ 9999999 := by
  rw [following_eq hlow hhigh]
  split <;> omega

/-! ## The shape of a name -/

/-- A character of a short name, but for the one that stands for 0xe5. -/
def legal (c : UInt8) : Bool := 0x20 < c ∧ c ∉ invalidChars ∧ ¬ (0x61 ≤ c ∧ c ≤ 0x7a)

/-- A name and an extension of characters that may be there, with spaces behind both. -/
structure Formed (name b x : List UInt8) : Prop where
  eq : name = pad 8 b ++ pad 3 x
  base_length : b.length ≤ 8
  ext_length : x.length ≤ 3
  base : ∀ i c, b[i]? = some c → legal c ∧ ¬ (i = 0 ∧ c = 0xe5) ∨ i = 0 ∧ c = 0x05
  ext : ∀ c ∈ x, legal c

theorem length_pad (h : b.length ≤ n) : (pad n b).length = n := by
  rw [pad, List.length_append, List.length_replicate]
  omega

theorem findIdx?_first {p : UInt8 → Bool} {u v : List UInt8} (hu : ∀ d ∈ u, p d = false)
    (hc : p c = true) : (u ++ c :: v).findIdx? p = some u.length := by
  induction u with
  | nil => simp [List.findIdx?_cons, hc]
  | cons d u ih =>
    have hrest := ih fun d' hd' => hu d' (List.mem_cons_of_mem _ hd')
    simp [List.findIdx?_cons, hu d List.mem_cons_self, hrest]

/-- The part of a name before the first `~`. -/
theorem split_tilde (b : List UInt8) : ∃ u, (∀ c ∈ u, c ≠ 0x7e) ∧
    (b = u ∨ ∃ v, b = u ++ 0x7e :: v) := by
  induction b with
  | nil => exact ⟨[], by simp, .inl rfl⟩
  | cons c b ih =>
    by_cases hc : c = 0x7e
    · exact ⟨[], by simp, .inr ⟨b, by rw [hc]; rfl⟩⟩
    · obtain ⟨u, hu, hb⟩ := ih
      refine ⟨c :: u, ?_, ?_⟩
      · intro d hd
        rcases List.mem_cons.1 hd with rfl | hd
        · exact hc
        · exact hu d hd
      · rcases hb with rfl | ⟨v, rfl⟩
        · exact .inl rfl
        · exact .inr ⟨v, rfl⟩

theorem legal_of_isDigit (h : isDigit c) : legal c ∧ c ≠ 0xe5 := by
  obtain ⟨n, hn, rfl⟩ : ∃ n < 10, c = UInt8.ofNat (n + 0x30) := by
    simp only [isDigit, decide_eq_true_eq, UInt8.le_iff_toNat_le, UInt8.reduceToNat] at h
    refine ⟨c.toNat - 0x30, by omega, ?_⟩
    rw [Nat.sub_add_cancel h.1, UInt8.ofNat_toNat]
  have hall : ∀ n < 10, legal (UInt8.ofNat (n + 0x30)) ∧ UInt8.ofNat (n + 0x30) ≠ 0xe5 := by decide
  exact hall n hn

theorem legal_num (h : c ∈ 0x7e :: decimal z) : legal c ∧ c ≠ 0xe5 := by
  rw [decimal, List.mem_cons] at h
  rcases h with rfl | h
  · decide
  · split at h
    · rcases List.mem_cons.1 h with rfl | h
      · decide
      · exact legal_of_isDigit (isDigit_numeral h)
    · exact legal_of_isDigit (isDigit_numeral h)

namespace Formed

theorem take_eight (h : Formed name b x) : name.take 8 = pad 8 b := by
  rw [h.eq, List.take_left' (length_pad h.base_length)]

theorem drop_eight (h : Formed name b x) : name.drop 8 = pad 3 x := by
  rw [h.eq, List.drop_left' (length_pad h.base_length)]

theorem ne_space (h : Formed name b x) (hc : c ∈ b) : c ≠ 0x20 := by
  obtain ⟨i, hi⟩ := List.mem_iff_getElem?.1 hc
  rcases h.base i c hi with ⟨hlegal, -⟩ | ⟨-, rfl⟩
  · rintro rfl
    exact absurd hlegal (by decide)
  · decide

/-- A random name has the same extension, and the next number. -/
theorem randomize (h : Formed name b x) : ∃ b', Formed (randomizeDosName name) b' x ∧ b' ≠ [] ∧
    count (randomizeDosName name) = following (count name) := by
  obtain ⟨u, hu, hb⟩ := split_tilde b
  obtain ⟨hlow, hhigh⟩ := count_bounds name
  obtain ⟨hlow', hhigh'⟩ := following_bounds hlow hhigh
  have hdecimal := length_decimal hlow' hhigh'
  have hsub : ∀ c ∈ u, c ∈ b := by
    rcases hb with rfl | ⟨v, rfl⟩
    · exact fun c hc => hc
    · exact fun c hc => List.mem_append_left _ hc
  have hlength : u.length ≤ b.length := by
    rcases hb with rfl | ⟨v, rfl⟩
    · exact le_refl _
    · simp
  have hprefix : b.take u.length = u := by
    rcases hb with rfl | ⟨v, rfl⟩
    · exact List.take_length
    · exact List.take_left' rfl
  have hskip : ∀ c ∈ u, decide (c = 0x20 ∨ c = 0x7e) = false := by
    intro c hc
    simp [h.ne_space (hsub c hc), hu c hc]
  -- where the number goes if there is room
  have hplace : ((name.take 8).findIdx? fun c => c = 0x20 ∨ c = 0x7e).getD 8 = u.length := by
    rw [h.take_eight, pad]
    rcases hb with rfl | ⟨v, rfl⟩
    · by_cases hfull : b.length = 8
      · have hnone : (b ++ List.replicate (8 - b.length) 0x20).findIdx?
            (fun c => decide (c = 0x20 ∨ c = 0x7e)) = none := by
          rw [hfull, Nat.sub_self, List.replicate_zero, List.append_nil, List.findIdx?_eq_none_iff]
          exact hskip
        rw [hnone, hfull]
        rfl
      · obtain ⟨k, hk⟩ := Nat.exists_eq_succ_of_ne_zero (n := 8 - b.length)
          (by have := h.base_length; omega)
        rw [hk, List.replicate_succ, findIdx?_first hskip (by decide)]
        rfl
    · rw [List.append_assoc, List.cons_append, findIdx?_first hskip (by decide)]
      rfl
  obtain ⟨num, hnum⟩ : ∃ num, num = 0x7e :: decimal (following (count name)) := ⟨_, rfl⟩
  have hnumlength : num.length ≤ 8 := by
    rw [hnum, List.length_cons]
    omega
  obtain ⟨offset, hoffset⟩ : ∃ offset, offset = min u.length (8 - num.length) := ⟨_, rfl⟩
  have hshort : (b.take offset).length = offset := by
    rw [List.length_take]
    omega
  have hnew : (b.take offset ++ num).length = offset + num.length := by
    rw [List.length_append, hshort]
  have hname : randomizeDosName name = pad 8 (b.take offset ++ num) ++ pad 3 x := by
    have htake : name.take offset = b.take offset := by
      have hle : offset ≤ 8 := by omega
      rw [← Nat.min_eq_left hle, ← List.take_take, h.take_eight, pad, List.take_append_of_le_length]
      · rw [Nat.min_eq_left hle]
      · omega
    have hpad : pad 8 (b.take offset ++ num) =
        b.take offset ++ num ++ List.replicate (8 - (offset + num.length)) 0x20 := by
      rw [pad, hnew]
    rw [randomizeDosName, ← following, ← hnum, List.take_of_length_le hnumlength, hplace, ← hoffset,
      htake, h.drop_eight, hpad]
  have hformed : Formed (randomizeDosName name) (b.take offset ++ num) x := by
    refine ⟨hname, by omega, h.ext_length, fun i c hc => ?_, h.ext⟩
    by_cases hi : i < offset
    · rw [List.getElem?_append_left (by omega), List.getElem?_take_of_lt hi] at hc
      exact h.base i c hc
    · rw [List.getElem?_append_right (by omega)] at hc
      have hmem : c ∈ 0x7e :: decimal (following (count name)) := by
        rw [← hnum]
        exact List.mem_of_getElem? hc
      exact .inl ⟨(legal_num hmem).1, fun h => (legal_num hmem).2 h.2⟩
  refine ⟨_, hformed, by simp [hnum], ?_⟩
  have hfirst : (pad 8 (b.take offset ++ num)).findIdx? (· = 0x7e) = some offset := by
    rw [pad, hnum, List.append_assoc, List.cons_append]
    have hno : ∀ c ∈ b.take offset, decide (c = 0x7e) = false := by
      intro c hc
      have hmem : c ∈ u := by
        rw [← hprefix]
        exact List.take_subset_take_left b (by omega) hc
      simpa using hu c hmem
    have hfound := @findIdx?_first 0x7e (fun c => decide (c = 0x7e)) (b.take offset)
      (decimal (following (count name)) ++ List.replicate (8 - (b.take offset ++ num).length) 0x20) hno
      (by decide)
    rw [hshort] at hfound
    rw [← hfound, hnum]
  rw [count, hformed.take_eight, hfirst]
  dsimp only
  have hdrop : (pad 8 (b.take offset ++ num)).drop (offset + 1) =
      decimal (following (count name)) ++ List.replicate (8 - (b.take offset ++ num).length) 0x20 := by
    have hsplit : ∀ r, b.take offset ++ num ++ r =
        (b.take offset ++ [0x7e]) ++ (decimal (following (count name)) ++ r) := by
      simp [hnum]
    rw [pad, hsplit, List.drop_left']
    simpa using hshort
  rw [hdrop, atoi_decimal]
  intro c hc
  rw [List.eq_of_mem_replicate (List.mem_of_mem_head? hc)]
  decide

/-- The name begins with a space if there is nothing before the extension. -/
theorem nil_iff (h : Formed name b x) : b = [] ↔ name.head? = some 0x20 := by
  rw [h.eq]
  cases b with
  | nil => simp [pad, List.replicate_succ]
  | cons c b =>
    have hne := h.ne_space (c := c) List.mem_cons_self
    simp [pad, hne]

end Formed

/-! ## The first candidate -/

theorem char2dos_facts (c : UInt8) : ((char2dos c).1 = 0 ↔ c ≤ 0x20) ∧
    ((char2dos c).1 ≠ 0 → legal (char2dos c).1) ∧ ((char2dos c).2 ↔ c ∈ invalidChars) := by
  have hall : ∀ n < 256, ((char2dos (UInt8.ofNat n)).1 = 0 ↔ UInt8.ofNat n ≤ 0x20) ∧
      ((char2dos (UInt8.ofNat n)).1 ≠ 0 → legal (char2dos (UInt8.ofNat n)).1) ∧
      ((char2dos (UInt8.ofNat n)).2 ↔ UInt8.ofNat n ∈ invalidChars) := by
    decide +kernel
  have hc := hall c.toNat c.toNat_lt
  rwa [UInt8.ofNat_toNat] at hc

/-- A character that is left out asks for nothing. -/
theorem not_mem_invalidChars (h : c ≤ 0x20) : c ∉ invalidChars := by
  rw [← (char2dos_facts c).2.2, char2dos, if_pos h]
  exact Bool.false_ne_true

@[simp] theorem dosChars_nil (n : Nat) : dosChars n [] = ([], false) := by
  cases n <;> rfl

@[simp] theorem dosChars_zero (s : List UInt8) : dosChars 0 s = ([], false) := by
  cases s <;> rfl

theorem dosChars_cons : dosChars (n + 1) (c :: s) =
    if (char2dos c).1 = 0 then dosChars (n + 1) s
    else ((char2dos c).1 :: (dosChars n s).1, (char2dos c).2 || (dosChars n s).2) := rfl

theorem length_dosChars (n : Nat) (s : List UInt8) : (dosChars n s).1.length ≤ n := by
  induction s generalizing n with
  | nil => simp
  | cons c s ih =>
    cases n with
    | zero => simp
    | succ n =>
      rw [dosChars_cons]
      split
      · exact ih (n + 1)
      · simpa using ih n

theorem legal_dosChars (n : Nat) (s : List UInt8) : ∀ c ∈ (dosChars n s).1, legal c := by
  induction s generalizing n with
  | nil => simp
  | cons c s ih =>
    cases n with
    | zero => simp
    | succ n =>
      rw [dosChars_cons]
      split
      · exact ih (n + 1)
      · rename_i hc
        intro d hd
        rcases List.mem_cons.1 hd with rfl | hd
        · exact (char2dos_facts c).2.1 hc
        · exact ih n d hd

theorem dosChars_nil_iff (n : Nat) (s : List UInt8) :
    (dosChars (n + 1) s).1 = [] ↔ ∀ c ∈ s, c ≤ 0x20 := by
  induction s with
  | nil => simp
  | cons c s ih =>
    rw [List.forall_mem_cons, ← (char2dos_facts c).1, dosChars_cons]
    split
    · rename_i hc
      simp [hc, ih]
    · rename_i hc
      simp [hc]

/-- A short part asks for a random name if it has an invalid character. -/
theorem dosChars_random_iff (h : s.length ≤ n) : (dosChars n s).2 ↔ ∃ c ∈ s, c ∈ invalidChars := by
  induction s generalizing n with
  | nil => simp
  | cons c s ih =>
    rw [List.length_cons] at h
    cases n with
    | zero => omega
    | succ n =>
      rw [dosChars_cons]
      split
      · rename_i hc
        have hspace := not_mem_invalidChars ((char2dos_facts c).1.1 hc)
        simp [hspace, ih (n := n + 1) (by omega)]
      · simp [← ih (n := n) (by omega), ← (char2dos_facts c).2.2]

/-- There is nothing before a short extension. -/
structure Blank (name : List UInt8) : Prop where
  spaces : ∀ c ∈ baseOf name, c ≤ 0x20
  base_length : (baseOf name).length ≤ 8
  ext_length : (extOf name).length ≤ 3
  ext : ∀ c ∈ extOf name, c ∉ invalidChars

/-- A first character 0xe5 would mean a free entry. -/
theorem formed_dosChars {base ext : List UInt8} (hlen : base.length ≤ 8) (hbase : ∀ c ∈ base, legal c)
    (hext : ∀ c ∈ ext, legal c) (hlen' : ext.length ≤ 3) :
    ∃ b, Formed (pad 8 (if base.head? = some 0xe5 then 0x05 :: base.tail else base) ++ pad 3 ext) b ext ∧
      (b = [] ↔ base = []) := by
  cases base with
  | nil => exact ⟨[], ⟨rfl, by simp, hlen', by simp, hext⟩, by simp⟩
  | cons d t =>
    rw [List.head?_cons, List.tail_cons]
    split
    · refine ⟨0x05 :: t, ⟨rfl, by simpa using hlen, hlen', ?_, hext⟩, by simp⟩
      intro i c hc
      cases i with
      | zero => simp_all
      | succ i => exact .inl ⟨hbase c (List.mem_cons_of_mem _ (List.mem_of_getElem? hc)), by simp⟩
    · rename_i hd
      refine ⟨d :: t, ⟨rfl, hlen, hlen', ?_, hext⟩, by simp⟩
      intro i c hc
      refine .inl ⟨hbase c (List.mem_of_getElem? hc), ?_⟩
      rintro ⟨rfl, rfl⟩
      simp_all

theorem createDosName_formed (name : List UInt8) :
    ∃ b x, Formed (createDosName name) b x ∧ (b = [] ↔ Blank name) := by
  obtain ⟨b, hformed, hnil⟩ := formed_dosChars (length_dosChars 8 (baseOf name))
    (legal_dosChars 8 (baseOf name)) (legal_dosChars 3 (extOf name)) (length_dosChars 3 (extOf name))
  rw [dosChars_nil_iff] at hnil
  rw [createDosName]
  split
  · rename_i hrandom
    obtain ⟨b', hformed', hne, -⟩ := hformed.randomize
    refine ⟨b', _, hformed', fun h => absurd h hne, fun hblank => ?_⟩
    have hbase : ¬ (dosChars 8 (baseOf name)).2 := by
      rw [dosChars_random_iff hblank.base_length]
      rintro ⟨c, hc, hmem⟩
      exact not_mem_invalidChars (hblank.spaces c hc) hmem
    have hext : ¬ (dosChars 3 (extOf name)).2 := by
      rw [dosChars_random_iff hblank.ext_length]
      rintro ⟨c, hc, hmem⟩
      exact hblank.ext c hc hmem
    have hlen := hblank.base_length
    have hlen' := hblank.ext_length
    rcases hrandom with h | h | h | h
    · omega
    · omega
    · exact absurd h hbase
    · exact absurd h hext
  · rename_i hrandom
    push Not at hrandom
    obtain ⟨hlen', hlen, -, hext⟩ := hrandom
    refine ⟨b, _, hformed, hnil.trans ⟨fun hspaces => ⟨hspaces, hlen, hlen', ?_⟩, Blank.spaces⟩⟩
    intro c hc hmem
    exact hext ((dosChars_random_iff hlen').2 ⟨c, hc, hmem⟩)

/-! ## The scan of the directory -/

/-- The names of the entries in use. -/
def namesOf (es : List Memory) : List (List UInt8) :=
  ((es.takeWhile fun e => e 0 ≠ 0).filter fun e => e 0 ≠ 0xe5).map fun e => bytes e 0 11

def shortNames (sectors : List Memory) : List (List UInt8) := namesOf (entries sectors)

variable {e : Memory} {es tail sectors : List Memory} {sector : Memory} {shortname : List UInt8}
  {needed : Int} {num : Nat} {slots : Slots}

theorem namesOf_cons : namesOf (e :: es) =
    if e 0 = 0 then [] else if e 0 = 0xe5 then namesOf es else bytes e 0 11 :: namesOf es := by
  rw [namesOf, List.takeWhile_cons]
  split
  · rename_i hne
    simp only [ne_eq, decide_not, Bool.not_eq_true', decide_eq_false_iff_not] at hne
    rw [if_neg hne, List.filter_cons]
    split
    · rename_i hused
      simp only [ne_eq, decide_not, Bool.not_eq_true', decide_eq_false_iff_not] at hused
      rw [if_neg hused]
      rfl
    · rename_i hfree
      simp only [ne_eq, decide_not, Bool.not_eq_true', decide_eq_false_iff_not, not_not] at hfree
      rw [if_pos hfree]
      rfl
  · rename_i hzero
    simp only [ne_eq, decide_not, Bool.not_eq_true', decide_eq_false_iff_not, not_not] at hzero
    rw [if_pos hzero]
    rfl

/-- What is known after the entries `es`, when `tail` follows. -/
def Search.Tells (shortname : List UInt8) (es tail : List Memory) : Search → Prop
  | .taken => shortname ∈ namesOf (es ++ tail)
  | .next _ => shortname ∈ namesOf (es ++ tail) ↔ shortname ∈ namesOf tail
  | .ended _ => shortname ∉ namesOf (es ++ tail)

theorem Search.Tells.cons {r : Search} (h : r.Tells shortname es tail)
    (hnames : shortname ∈ namesOf (e :: (es ++ tail)) ↔ shortname ∈ namesOf (es ++ tail)) :
    r.Tells shortname (e :: es) tail := by
  cases r with
  | taken => exact hnames.2 h
  | next s => exact hnames.trans h
  | ended s => exact fun hmem => h (hnames.1 hmem)

theorem searchSector_tells (tail : List Memory) :
    (searchSector shortname needed sector num n slots).Tells shortname (lastEntries sector n) tail := by
  induction n generalizing slots with
  | zero => exact Iff.rfl
  | succ n ih =>
    have hnames := @namesOf_cons (direntry sector (16 - (n + 1))) (lastEntries sector n ++ tail)
    rw [searchSector]
    split
    · rename_i hzero
      rw [if_pos hzero] at hnames
      intro hmem
      rw [lastEntries, List.cons_append, hnames] at hmem
      cases hmem
    · rename_i hne
      rw [if_neg hne] at hnames
      split
      · rename_i hfree
        rw [if_pos hfree] at hnames
        exact ih.cons (by rw [hnames])
      · rename_i hused
        rw [if_neg hused] at hnames
        split
        · rename_i hsame
          rw [hsame] at hnames
          rw [Search.Tells, lastEntries, List.cons_append, hnames]
          exact List.mem_cons_self
        · rename_i hother
          refine ih.cons ?_
          rw [hnames, List.mem_cons]
          exact or_iff_right (Ne.symm hother)

/-- The search ends early exactly if the name is there. -/
theorem search_none_iff : search shortname needed sectors num slots = none ↔
    shortname ∈ shortNames sectors := by
  induction sectors generalizing num slots with
  | nil => simp [search, shortNames, entries, namesOf]
  | cons sector sectors ih =>
    have htells := @searchSector_tells 16 sector shortname needed num slots (entries sectors)
    have hentries : entries (sector :: sectors) = lastEntries sector 16 ++ entries sectors := by
      simp [entries]
    rw [search, shortNames, hentries]
    cases hsearch : searchSector shortname needed sector num 16 slots with
    | taken =>
      rw [hsearch] at htells
      exact iff_of_true rfl htells
    | next s =>
      rw [hsearch] at htells
      exact ih.trans htells.symm
    | ended s =>
      rw [hsearch] at htells
      exact iff_of_false (by simp) htells

/-- The name that is found is the first free one. -/
theorem restart_spec {r : List UInt8 × Slots} (h : restart sectors needed fuel shortname = some r) :
    ∃ k, r.1 = randomizeDosName^[k] shortname ∧ r.1 ∉ shortNames sectors ∧
      ∀ j < k, randomizeDosName^[j] shortname ∈ shortNames sectors := by
  induction fuel generalizing shortname with
  | zero => cases h
  | succ fuel ih =>
    rw [restart] at h
    cases hsearch : search shortname needed sectors 0 ⟨0, -1⟩ with
    | some s =>
      rw [hsearch] at h
      cases h
      refine ⟨0, rfl, ?_, by simp⟩
      rw [← @search_none_iff sectors shortname needed 0 ⟨0, -1⟩, hsearch]
      simp
    | none =>
      rw [hsearch] at h
      obtain ⟨k, hname, hfree, hbefore⟩ := ih h
      refine ⟨k + 1, hname, hfree, fun j hj => ?_⟩
      cases j with
      | zero => exact search_none_iff.1 hsearch
      | succ j => exact hbefore j (by omega)

/-- The loop ends if one of the names is free. -/
theorem restart_ends (h : randomizeDosName^[k] shortname ∉ shortNames sectors) :
    ∃ r, restart sectors needed (k + 1) shortname = some r := by
  induction k generalizing shortname with
  | zero =>
    rw [restart]
    cases hsearch : search shortname needed sectors 0 ⟨0, -1⟩ with
    | some s => exact ⟨_, rfl⟩
    | none => exact absurd (search_none_iff.1 hsearch) h
  | succ k ih =>
    rw [restart]
    cases search shortname needed sectors 0 ⟨0, -1⟩ with
    | some s => exact ⟨_, rfl⟩
    | none => exact ih h

/-! ## The candidates -/

/-- The name that is tried after `k` others. -/
def candidate (name : List UInt8) (k : Nat) : List UInt8 := randomizeDosName^[k] (createDosName name)

theorem candidate_succ (name : List UInt8) (k : Nat) :
    candidate name (k + 1) = randomizeDosName (candidate name k) :=
  Function.iterate_succ_apply' _ _ _

theorem candidate_formed (name : List UInt8) (k : Nat) :
    ∃ b x, Formed (candidate name k) b x ∧ (b = [] ↔ k = 0 ∧ Blank name) := by
  induction k with
  | zero =>
    obtain ⟨b, x, hformed, hnil⟩ := createDosName_formed name
    exact ⟨b, x, hformed, by simpa using hnil⟩
  | succ k ih =>
    obtain ⟨b, x, hformed, -⟩ := ih
    obtain ⟨b', hformed', hne, -⟩ := hformed.randomize
    rw [candidate_succ]
    exact ⟨b', x, hformed', by simp [hne]⟩

/-- The numbers count up, and come around after ten million turns. -/
theorem count_candidate (name : List UInt8) (k : Nat) :
    count (candidate name k) % 10000000 = (count (createDosName name) + k) % 10000000 := by
  induction k with
  | zero => simp [candidate]
  | succ k ih =>
    obtain ⟨b, x, hformed, -⟩ := candidate_formed name k
    obtain ⟨b', -, -, hcount⟩ := hformed.randomize
    obtain ⟨hlow, hhigh⟩ := count_bounds (candidate name k)
    rw [candidate_succ, hcount, following_eq hlow hhigh]
    split <;> omega

theorem candidate_injective {i j : Nat} (hi : i < 10000000) (hj : j < 10000000)
    (h : candidate name i = candidate name j) : i = j := by
  have hcount := count_candidate name i
  rw [h, count_candidate name j] at hcount
  omega

/-- A smaller directory does not have them all. -/
theorem exists_free (h : (shortNames sectors).length < 10000000) (name : List UInt8) :
    ∃ k, candidate name k ∉ shortNames sectors := by
  by_contra hnone
  push Not at hnone
  have hnodup : ((List.range 10000000).map (candidate name)).Nodup := by
    refine List.Nodup.map_on ?_ List.nodup_range
    intro i hi j hj heq
    exact candidate_injective (List.mem_range.1 hi) (List.mem_range.1 hj) heq
  have hsub : (List.range 10000000).map (candidate name) ⊆ shortNames sectors := by
    intro c hc
    obtain ⟨k, -, rfl⟩ := List.mem_map.1 hc
    exact hnone k
  have hlen := (hnodup.subperm hsub).length_le
  rw [List.length_map, List.length_range] at hlen
  omega

/-! ## A new name -/

/-- A refused name stores nothing; else there is a new short name of valid characters. -/
def New (sectors : List Memory) : Except Int (List UInt8 × Slots) → Prop
  | .error _ => True
  | .ok r => r.1 ∉ shortNames sectors ∧ ∃ b x, Formed r.1 b x ∧ b ≠ []

theorem formed_nil_unique {b' x' : List UInt8} (h : Formed name b x) (h' : Formed name b' x') :
    b = [] ↔ b' = [] := by
  rw [h.nil_iff, h'.nil_iff]

/-- `" .txt"` -/
def spaceName : List UInt8 := [0x20, 0x2e, 0x74, 0x78, 0x74]

end Directory
end Fat
end Freemyipod
