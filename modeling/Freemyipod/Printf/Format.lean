import Mathlib.Tactic.SplitIfs
import Mathlib.Data.Nat.Digits.Defs

/-!
# Printf.Format

The function behind the `printf` family (`emcore/format.c`).

* `format`: the code. What it reads of the format behind its NUL and what it writes outside of `tmpbuf` is
  an error.
* `conversion_length`: each conversion reads on in the format, so that `format` ends.
-/

namespace Freemyipod
namespace Printf

/-- An argument of 32 bits, or a string without its NUL. -/
inductive Arg
  | int (value : BitVec 32)
  | str (value : List Char)
  deriving DecidableEq

inductive Error
  /-- Reading behind the NUL of the format. -/
  | overread
  /-- Writing before `tmpbuf`. -/
  | outside
  /-- `va_arg` of another type than the argument, or without one. -/
  | argument
  deriving DecidableEq

def NUL : Char := Char.ofNat 0

def INT_MAX : Int := 2 ^ 31 - 1

/-- An `int`. -/
def wrap (x : Int) : Int := x.bmod (2 ^ 32)

/-- `*fmt++` -/
def fetch : List Char → Except Error (Char × List Char)
  | [] => .error .overread
  | ch :: fmt => .ok (ch, fmt)

/-- `*--str = c` in `tmpbuf`, where `str` is what it points to up to the NUL. -/
def store (c : Char) (str : List Char) : Except Error (List Char) :=
  if str.length < 11 then .ok (c :: str) else .error .outside

def vaInt : List Arg → Except Error (BitVec 32 × List Arg)
  | .int v :: args => .ok (v, args)
  | _ => .error .argument

def vaStr : List Arg → Except Error (List Char × List Arg)
  | .str s :: args => .ok (s, args)
  | _ => .error .argument

/-- `hexdigit[d]`, and `d + '0'` of a decimal digit. -/
def digit (d : Nat) : Char := Char.ofNat (if d < 10 then 48 + d else 55 + d)

/-- The loops over the digits of a number without sign, from the last one on, to the base `k + 2`. -/
def unsignedLoop (k : Nat) (val : Nat) (str : List Char) : Except Error (List Char) :=
  (store (digit (val % (k + 2))) str).bind fun str =>
    if 0 < val / (k + 2) then unsignedLoop k (val / (k + 2)) str else .ok str
termination_by val
decreasing_by
  rename_i hpos
  exact Nat.div_lt_self (Nat.pos_of_div_pos hpos) (by omega)

/-- The loop over the digits of an `int`. Of a negative number there is one, with `val % 10` below 0. -/
def signedLoop (val : Int) (str : List Char) : Except Error (List Char) :=
  (store (Char.ofNat ((val.tmod 10 + 48) % 256).toNat) str).bind fun str =>
    if 0 < val.tdiv 10 then signedLoop (val.tdiv 10) str else .ok str
termination_by val.toNat
decreasing_by
  rename_i hpos
  have hval : 0 ≤ val := by
    by_contra hneg
    have hdiv : (-val).tdiv 10 = (-val) / 10 := Int.tdiv_eq_ediv_of_nonneg (by omega)
    rw [Int.neg_tdiv] at hdiv
    omega
  rw [Int.tdiv_eq_ediv_of_nonneg hval] at hpos ⊢
  omega

/-- `case 'd'`, also of a `long`. -/
def decimal (v : BitVec 32) : Except Error (List Char) :=
  let val := if v.toInt < 0 then (-v).toInt else v.toInt
  (signedLoop val []).bind fun str => if v.toInt < 0 then store '-' str else .ok str

/-- What the `switch` leaves: whether it sets `pad` to `'0'`, what `str` points to, and what is left of the
format and the arguments. -/
structure Converted where
  zero : Bool
  str : List Char
  fmt : List Char
  args : List Arg

/-- `case 'l'` and `case 'z'` -/
def convertLong (fmt : List Char) (args : List Arg) : Except Error Converted := do
  let (ch, fmt) ← fetch fmt
  match ch with
  | 'x' | 'X' =>
    let (v, args) ← vaInt args
    let str ← unsignedLoop 14 v.toNat []
    .ok ⟨true, str, fmt, args⟩
  | 'd' =>
    let (v, args) ← vaInt args
    let str ← decimal v
    .ok ⟨false, str, fmt, args⟩
  | 'u' =>
    let (v, args) ← vaInt args
    let str ← unsignedLoop 8 v.toNat []
    .ok ⟨false, str, fmt, args⟩
  | ch =>
    let str ← store 'l' []
    let str ← store ch str
    .ok ⟨false, str, fmt, args⟩

/-- The `switch`. -/
def convert (ch : Char) (fmt : List Char) (args : List Arg) : Except Error Converted :=
  match ch with
  | 'c' => do
    let (v, args) ← vaInt args
    let str ← store (Char.ofNat (v.toNat % 256)) []
    .ok ⟨false, str, fmt, args⟩
  | 's' => do
    let (str, args) ← vaStr args
    .ok ⟨false, str, fmt, args⟩
  | 'd' => do
    let (v, args) ← vaInt args
    let str ← decimal v
    .ok ⟨false, str, fmt, args⟩
  | 'u' => do
    let (v, args) ← vaInt args
    let str ← unsignedLoop 8 v.toNat []
    .ok ⟨false, str, fmt, args⟩
  | 'x' | 'X' => do
    let (v, args) ← vaInt args
    let str ← unsignedLoop 14 v.toNat []
    .ok ⟨true, str, fmt, args⟩
  | 'l' | 'z' => convertLong fmt args
  | ch => do
    let str ← store ch []
    .ok ⟨false, str, fmt, args⟩

/-- The loops over the digits of the width and of the precision. -/
def number (acc : Int) (ch : Char) : List Char → Except Error (Int × Char × List Char)
  | [] => if ch.isDigit then .error .overread else .ok (acc, ch, [])
  | c :: fmt =>
    if ch.isDigit then number (wrap (10 * acc + ch.toNat - 48)) c fmt else .ok (acc, ch, c :: fmt)

/-- `precision`, and what comes behind it. -/
def readPrecision (ch : Char) (fmt : List Char) : Except Error (Int × Char × List Char) :=
  if ch = '.' then do
    let (ch, fmt) ← fetch fmt
    number 0 ch fmt
  else .ok (INT_MAX, ch, fmt)

/-- What is known before the loops that push. -/
structure Conversion extends Converted where
  pad : Char
  width : Int
  precision : Int

/-- A `%` up to the end of the `switch`. -/
def conversion (fmt : List Char) (args : List Arg) : Except Error Conversion := do
  let (ch, fmt) ← fetch fmt
  let pad := if ch = '0' then '0' else ' '
  let (width, ch, fmt) ← number 0 ch fmt
  let (precision, ch, fmt) ← readPrecision ch fmt
  let r ← convert ch fmt args
  .ok ⟨r, if r.zero then '0' else pad, width, precision⟩

/-- `strlen` -/
def strlen (str : List Char) : Nat := (str.takeWhile (· ≠ NUL)).length

/-- How often `width-- > 0` holds: never, or after `width -= strlen (str)`. -/
def padCount (width : Int) (str : List Char) : Nat :=
  if 0 < width then (wrap (width - strlen str)).toNat else 0

section Push

variable {S : Type} (push : S → Char → S × Bool)

/-- `while (width-- > 0 && ok) ok=push(userp, pad)`; the caller's state and `ok` are one value. -/
def pushPad (pad : Char) : Nat → S × Bool → S × Bool
  | 0, st => st
  | n + 1, st => if st.2 then pushPad pad n (push st.1 pad) else st

/-- `while (*str != '\\0' && ok && precision--) ok=push(userp, *str++)` -/
def pushStr : List Char → Int → S × Bool → S × Bool
  | [], _, st => st
  | c :: str, precision, st =>
    if c ≠ NUL ∧ st.2 ∧ precision ≠ 0 then pushStr str (precision - 1) (push st.1 c) else st

/-- The two loops. -/
def pushConversion (c : Conversion) (st : S × Bool) : S × Bool :=
  pushStr push c.str c.precision (pushPad push c.pad (padCount c.width c.str) st)

end Push

/-! ## Termination -/

theorem number_length {acc : Int} {ch : Char} {fmt : List Char} {r : Int × Char × List Char}
    (h : number acc ch fmt = .ok r) : r.2.2.length ≤ fmt.length := by
  induction fmt generalizing acc ch with
  | nil =>
    rw [number] at h
    split_ifs at h
    cases h
    exact le_refl _
  | cons c fmt ih =>
    rw [number] at h
    split_ifs at h
    · exact (ih h).trans (Nat.le_succ _)
    · cases h
      exact le_refl _

/-- The result of a bind, if it has one. -/
theorem bind_ok {A B : Type} {x : Except Error A} {f : A → Except Error B} {r : B}
    (h : x >>= f = .ok r) : ∃ a, x = .ok a ∧ f a = .ok r := by
  cases x with
  | error e => cases h
  | ok a => exact ⟨a, rfl, h⟩

theorem fetch_length {fmt fmt' : List Char} {ch : Char} (h : fetch fmt = .ok (ch, fmt')) :
    fmt'.length < fmt.length := by
  cases fmt with
  | nil => cases h
  | cons c fmt =>
    cases h
    exact Nat.lt_succ_self _

theorem convertLong_fmt {ch : Char} {fmt : List Char} {args : List Arg} {r : Converted}
    (h : convertLong (ch :: fmt) args = .ok r) : r.fmt = fmt := by
  obtain ⟨⟨ch', fmt'⟩, hf, h⟩ := bind_ok h
  cases hf
  dsimp only at h
  split at h
  all_goals
    obtain ⟨a, -, h⟩ := bind_ok h
    obtain ⟨b, -, h⟩ := bind_ok h
    cases h
    rfl

theorem convert_fmt {ch : Char} {fmt : List Char} {args : List Arg} {r : Converted}
    (hl : ch ≠ 'l') (hz : ch ≠ 'z') (h : convert ch fmt args = .ok r) : r.fmt = fmt := by
  unfold convert at h
  split at h
  case h_7 => exact absurd rfl hl
  case h_8 => exact absurd rfl hz
  all_goals
    obtain ⟨a, -, h⟩ := bind_ok h
    first
      | cases h
        rfl
      | obtain ⟨b, -, h⟩ := bind_ok h
        cases h
        rfl

theorem convertLong_length {fmt : List Char} {args : List Arg} {r : Converted}
    (h : convertLong fmt args = .ok r) : r.fmt.length ≤ fmt.length := by
  cases fmt with
  | nil => cases h
  | cons ch fmt =>
    rw [convertLong_fmt h]
    exact Nat.le_succ _

theorem convert_length {ch : Char} {fmt : List Char} {args : List Arg} {r : Converted}
    (h : convert ch fmt args = .ok r) : r.fmt.length ≤ fmt.length := by
  by_cases hl : ch = 'l'
  · subst hl
    exact convertLong_length h
  by_cases hz : ch = 'z'
  · subst hz
    exact convertLong_length h
  · rw [convert_fmt hl hz h]

theorem conversion_length {fmt : List Char} {args : List Arg} {c : Conversion}
    (h : conversion fmt args = .ok c) : c.fmt.length < fmt.length := by
  obtain ⟨⟨ch, fmt1⟩, h1, h⟩ := bind_ok h
  obtain ⟨⟨width, ch2, fmt2⟩, h2, h⟩ := bind_ok h
  obtain ⟨⟨precision, ch3, fmt3⟩, h3, h⟩ := bind_ok h
  obtain ⟨r, h4, h⟩ := bind_ok h
  cases h
  have hprec : fmt3.length ≤ fmt2.length := by
    unfold readPrecision at h3
    split at h3
    · obtain ⟨⟨ch', fmt'⟩, hf, h3⟩ := bind_ok h3
      exact (number_length h3).trans (fetch_length hf).le
    · cases h3
      exact le_refl _
  have hwidth : fmt2.length ≤ fmt1.length := number_length h2
  exact ((convert_length h4).trans (hprec.trans hwidth)).trans_lt (fetch_length h1)

/-- `format`, from where `fmt` points; what the caller has made of the letters that are pushed goes with
`ok`. -/
@[grind =] def format {S : Type} (push : S → Char → S × Bool) (st : S × Bool) (fmt : List Char)
    (args : List Arg) : Except Error (S × Bool) :=
  match fmt with
  | [] => .error .overread
  | ch :: fmt =>
    if ch = NUL ∨ st.2 = false then .ok st
    else if ch = '%' then
      match _h : conversion fmt args with
      | .error e => .error e
      | .ok c => format push (pushConversion push c st) c.fmt c.args
    else format push (push st.1 ch) fmt args
termination_by fmt.length
decreasing_by
  · exact (conversion_length ‹conversion fmt args = .ok c›).trans (Nat.lt_succ_self _)
  · exact Nat.lt_succ_self _

end Printf
end Freemyipod
