import Freemyipod.Printf.Reference

/-!
# Printf.Output

What `format` pushes, against the reference.

* `pushConversion_eq`, `format_eq`: the letters that are pushed, for every `push`.
* `codeText_eq_iff`: when a conversion pushes what it has to. It never pushes more letters.
* `format_iff`: when the whole format does.
-/

namespace Freemyipod
namespace Printf

/-! ## Pushing -/

section Push

variable {S : Type} (push : S → Char → S × Bool)

/-- The letters are pushed up to the first one for which `push` fails. -/
def pushAll (st : S × Bool) (l : List Char) : S × Bool :=
  l.foldl (fun st c => if st.2 then push st.1 c else st) st

variable {push} {st : S × Bool}

theorem pushAll_append {l l' : List Char} :
    pushAll push st (l ++ l') = pushAll push (pushAll push st l) l' := List.foldl_append

theorem pushAll_cons {c : Char} {l : List Char} (h : st.2 = true) :
    pushAll push st (c :: l) = pushAll push (push st.1 c) l := by
  rw [pushAll, List.foldl_cons, if_pos h]
  rfl

theorem pushAll_of_false {l : List Char} (h : st.2 = false) : pushAll push st l = st := by
  induction l with
  | nil => rfl
  | cons c l ih =>
    rw [pushAll, List.foldl_cons, h]
    exact ih

theorem pushAll_ok (hpush : ∀ x c, (push x c).2 = true) {l : List Char} (h : st.2 = true) :
    (pushAll push st l).2 = true := by
  induction l generalizing st with
  | nil => exact h
  | cons c l ih =>
    rw [pushAll_cons h]
    exact ih (hpush _ _)

theorem pushPad_eq {pad : Char} {n : Nat} :
    pushPad push pad n st = pushAll push st (List.replicate n pad) := by
  induction n generalizing st with
  | zero => rfl
  | succ n ih =>
    rw [pushPad, List.replicate_succ]
    split_ifs with h
    · rw [ih, pushAll_cons h]
    · rw [pushAll_of_false (by simpa using h)]

/-- The letters that a precision lets through. -/
def cut (precision : Int) (l : List Char) : List Char :=
  if precision < 0 then l else l.take precision.toNat

theorem cut_cons {p : Int} {c : Char} {l : List Char} (h : p ≠ 0) :
    cut p (c :: l) = c :: cut (p - 1) l := by
  unfold cut
  by_cases hneg : p < 0
  · rw [if_pos hneg, if_pos (by omega)]
  · rw [if_neg hneg, if_neg (by omega)]
    obtain ⟨n, hn⟩ : ∃ n : Nat, p.toNat = n + 1 := ⟨p.toNat - 1, by omega⟩
    have hpred : (p - 1).toNat = n := by omega
    rw [hn, hpred, List.take_succ_cons]

theorem pushStr_eq {str : List Char} {p : Int} :
    pushStr push str p st = pushAll push st (cut p (upToNul str)) := by
  induction str generalizing p st with
  | nil =>
    have hnil : cut p [] = [] := by
      unfold cut
      split_ifs <;> simp
    rw [pushStr, upToNul, List.takeWhile_nil, hnil]
    rfl
  | cons c str ih =>
    rw [pushStr]
    by_cases hc : c = NUL
    · have hnil : cut p (upToNul (c :: str)) = [] := by
        rw [upToNul, List.takeWhile_cons_of_neg (by simpa using hc), cut]
        split_ifs <;> simp
      rw [if_neg (by simp [hc]), hnil]
      rfl
    have hcons : upToNul (c :: str) = c :: upToNul str := by
      rw [upToNul, List.takeWhile_cons_of_pos (by simpa using hc), upToNul]
    rw [hcons]
    by_cases hok : st.2 = true
    · by_cases hp : p = 0
      · rw [if_neg (by simp [hp]), hp]
        rfl
      · rw [if_pos ⟨hc, hok, hp⟩, ih, cut_cons hp, pushAll_cons hok]
    · rw [if_neg (by simp [hok]), pushAll_of_false (by simpa using hok)]

end Push

/-- The letters that the code pushes for a conversion. -/
def Spec.codeText (s : Spec) (sh : Shown) : List Char :=
  List.replicate (padCount (wrap s.width) sh.chars) (if sh.zero || s.zero then '0' else ' ') ++
    cut (codePrecision s.precision) (upToNul sh.chars)

theorem pushConversion_eq {S : Type} {push : S → Char → S × Bool} {st : S × Bool} {s : Spec}
    {sh : Shown} {rest : List Char} {args : List Arg} :
    pushConversion push (s.read sh rest args) st = pushAll push st (s.codeText sh) := by
  rw [Spec.codeText, pushAll_append]
  simp only [pushConversion, Spec.read, pushStr_eq, pushPad_eq]

/-- The letters that the code pushes. -/
def codeOutput : List Piece → List Arg → Option (List Char)
  | [], _ => some []
  | .literal c :: ps, args => (codeOutput ps args).map (c :: ·)
  | .conversion s :: ps, args =>
    (shown codeSigned s.long s.letter args).bind fun r =>
      (codeOutput ps r.2).map (s.codeText r.1 ++ ·)

/-! ## The loop -/

theorem parsePrecision_suffix {s : List Char} : (parsePrecision s).2 <:+ s := by
  unfold parsePrecision
  split
  · exact (List.dropWhile_suffix _).trans (List.suffix_cons _ _)
  · exact List.suffix_refl _

theorem parseLetter_suffix {s : List Char} {l : (Bool × Char) × List Char}
    (h : parseLetter s = some l) : l.2 <:+ s := by
  unfold parseLetter at h
  split at h
  · cases h
  · split at h
    · cases h
    · cases h
      exact (List.suffix_cons _ _).trans (List.suffix_cons _ _)
  · split at h
    · cases h
    · cases h
      exact (List.suffix_cons _ _).trans (List.suffix_cons _ _)
  · cases h
    exact List.suffix_cons _ _

theorem parseSpec_suffix {s rest : List Char} {spec : Spec} (h : parseSpec s = some (spec, rest)) :
    rest <:+ s := by
  obtain ⟨l, hl, heq⟩ := Option.map_eq_some_iff.1 h
  cases heq
  exact ((parseLetter_suffix hl).trans parsePrecision_suffix).trans (List.dropWhile_suffix _)

section Format

variable {S : Type} {push : S → Char → S × Bool} {st : S × Bool} {args : List Arg}

theorem format_of_false {s : List Char} (h : st.2 = false) : format push st (s ++ [NUL]) args = .ok st := by
  cases s with
  | nil => rw [List.nil_append, format, if_pos (.inl rfl)]
  | cons c s => rw [List.cons_append, format, if_pos (.inr h)]

theorem format_literal {c : Char} {s : List Char} (hok : st.2 = true) (hc : c ≠ NUL) (h : c ≠ '%') :
    format push st (c :: s) args = format push (push st.1 c) s args := by
  rw [format, if_neg (by simp [hc, hok]), if_neg h]

theorem format_conversion {s : List Char} {c : Conversion} (hok : st.2 = true)
    (h : conversion s args = .ok c) :
    format push st ('%' :: s) args = format push (pushConversion push c st) c.fmt c.args := by
  rw [format, if_neg (by simp [hok, NUL]), if_pos rfl]
  split
  · rename_i e he
    rw [h] at he
    cases he
  · rename_i c' hc'
    rw [h] at hc'
    cases hc'
    rfl

/-- What a format of whole conversions pushes. -/
theorem format_eq {s out : List Char} {ps : List Piece} (hnul : NUL ∉ s) (hparse : parse s = some ps)
    (hout : codeOutput ps args = some out) :
    format push st (s ++ [NUL]) args = .ok (pushAll push st out) := by
  induction hn : s.length using Nat.strong_induction_on generalizing s ps args out st with
  | _ n ih =>
    subst hn
    by_cases hok : st.2 = true
    swap
    · rw [format_of_false (by simpa using hok), pushAll_of_false (by simpa using hok)]
    cases s with
    | nil =>
      rw [parse] at hparse
      cases hparse
      cases hout
      rw [List.nil_append, format, if_pos (.inl rfl)]
      rfl
    | cons c s =>
      have hc : c ≠ NUL := fun h => hnul (by rw [h]; exact List.mem_cons_self)
      rw [parse] at hparse
      split_ifs at hparse with hpct
      · subst hpct
        split at hparse
        · cases hparse
        · rename_i spec rest hspec
          obtain ⟨ps, hps, rfl⟩ := Option.map_eq_some_iff.1 hparse
          simp only [codeOutput, Option.bind_eq_some_iff, Option.map_eq_some_iff] at hout
          obtain ⟨⟨sh, args'⟩, hsh, out, hout, rfl⟩ := hout
          have hrest : NUL ∉ rest := fun h =>
            hnul (List.mem_cons_of_mem _ ((parseSpec_suffix hspec).subset h))
          rw [List.cons_append, format_conversion hok (conversion_eq hspec hsh), pushConversion_eq,
            pushAll_append]
          exact ih rest.length ((parseSpec_length hspec).trans (Nat.lt_succ_self _)) hrest hps hout rfl
      · obtain ⟨ps, hps, rfl⟩ := Option.map_eq_some_iff.1 hparse
        simp only [codeOutput, Option.map_eq_some_iff] at hout
        obtain ⟨out, hout, rfl⟩ := hout
        rw [List.cons_append, format_literal hok hc hpct, pushAll_cons hok]
        exact ih s.length (Nat.lt_succ_self _) (fun h => hnul (List.mem_cons_of_mem _ h)) hps hout rfl

/-- A format that ends in a conversion is read on behind its NUL, if no `push` fails. -/
theorem format_truncated (hpush : ∀ x c, (push x c).2 = true) {s : List Char} (hnul : NUL ∉ s)
    (hparse : parse s = none) (hok : st.2 = true) {r : S × Bool} :
    format push st (s ++ [NUL]) args ≠ .ok r := by
  induction hn : s.length using Nat.strong_induction_on generalizing s args st with
  | _ n ih =>
    subst hn
    cases s with
    | nil =>
      rw [parse] at hparse
      cases hparse
    | cons c s =>
      have hc : c ≠ NUL := fun h => hnul (by rw [h]; exact List.mem_cons_self)
      rw [List.cons_append]
      rw [parse] at hparse
      split_ifs at hparse with hpct
      · subst hpct
        cases hconv : conversion (s ++ [NUL]) args with
        | error e =>
          rw [format, if_neg (by simp [hok, NUL]), if_pos rfl]
          split
          · intro h
            cases h
          · rename_i c hc
            rw [hconv] at hc
            cases hc
        | ok c =>
          obtain ⟨hsome, hnone⟩ := conversion_rest hconv
          rw [format_conversion hok hconv]
          split at hparse
          · rename_i hspec
            rw [hnone hspec, format]
            intro h
            cases h
          · rename_i spec rest hspec
            have hrest : NUL ∉ rest := fun h =>
              hnul (List.mem_cons_of_mem _ ((parseSpec_suffix hspec).subset h))
            have hok' : (pushConversion push c st).2 = true := by
              rw [pushConversion, pushStr_eq, pushPad_eq]
              exact pushAll_ok hpush (pushAll_ok hpush hok)
            rw [hsome spec rest hspec]
            exact ih rest.length ((parseSpec_length hspec).trans (Nat.lt_succ_self _)) hrest
              (Option.map_eq_none_iff.1 hparse) hok' rfl
      · rw [format_literal hok hc hpct]
        exact ih s.length (Nat.lt_succ_self _) (fun h => hnul (List.mem_cons_of_mem _ h))
          (Option.map_eq_none_iff.1 hparse) (hpush _ _) rfl

end Format

/-! ## One conversion -/

/-- What an `int` makes of a number. -/
theorem wrap_nat (n : Nat) : wrap n ≤ n ∧ -2 ^ 31 ≤ wrap n ∧ wrap n < 2 ^ 31 ∧
    (n < 2 ^ 31 → wrap n = n) ∧ (2 ^ 31 ≤ n → wrap n + 2 ^ 32 ≤ n) := by
  simp only [wrap, Int.bmod_def]
  split_ifs <;> omega

theorem wrap_eq {x : Int} (hl : -2 ^ 31 ≤ x) (hu : x < 2 ^ 31) : wrap x = x := by
  rw [wrap, Int.bmod_def]
  split <;> omega

theorem padCount_eq {width : Int} {str : List Char} (hu : width < 2 ^ 31)
    (h : strlen str < 2 ^ 31) : padCount width str = (width - strlen str).toNat := by
  unfold padCount
  split_ifs with hpos
  · rw [wrap_eq (by omega) (by omega)]
  · omega

theorem cut_length {p : Int} {l : List Char} :
    (cut p l).length = if p < 0 then l.length else min p.toNat l.length := by
  unfold cut
  split_ifs
  · rfl
  · rw [List.length_take]

theorem cut_eq_take {p : Int} {l : List Char} : cut p l = l.take (cut p l).length := by
  unfold cut
  split_ifs
  · rw [List.take_length]
  · rw [List.length_take, ← List.take_eq_take_min]

theorem keep_eq_take {p : Option Nat} {l : List Char} : keep p l = l.take (keep p l).length := by
  cases p with
  | none => rw [keep, List.take_length]
  | some p => rw [keep, List.length_take, ← List.take_eq_take_min]

/-- What is to be pushed of what is shown. -/
def Spec.kept (s : Spec) (sh : Shown) : List Char :=
  if sh.isStr then keep s.precision (upToNul sh.chars) else upToNul sh.chars

theorem Spec.kept_eq_take {s : Spec} {sh : Shown} :
    s.kept sh = (upToNul sh.chars).take (s.kept sh).length := by
  unfold Spec.kept
  split_ifs
  · exact keep_eq_take
  · rw [List.take_length]

theorem Spec.text_eq {s : Spec} {sh : Shown} :
    s.text sh = List.replicate (s.width - (s.kept sh).length)
      (if sh.zero || s.zero then '0' else ' ') ++ s.kept sh := rfl

/-- The precision of the code cuts `n` letters. -/
def Cuts (precision : Int) (n : Nat) : Prop := 0 ≤ precision ∧ precision < n

/-- The width is an `int`, the precision cuts nothing but strings, and these as it is written and to no less
than the width. -/
def Spec.Sound (s : Spec) (sh : Shown) : Prop :=
  s.width < 2 ^ 31 ∧
    if sh.isStr then
      ∀ p, s.precision = some p → (Cuts (wrap p) (strlen sh.chars) → p < 2 ^ 31) ∧
        (p < strlen sh.chars → s.width ≤ p)
    else ¬ Cuts (codePrecision s.precision) (strlen sh.chars)

/-- The code pushes no more letters and no more padding than it has to, and all of both exactly if the
conversion is sound. -/
theorem counts {s : Spec} {sh : Shown} (h : strlen sh.chars < 2 ^ 31) :
    padCount (wrap s.width) sh.chars ≤ s.width - (s.kept sh).length ∧
      (cut (codePrecision s.precision) (upToNul sh.chars)).length ≤ (s.kept sh).length ∧
      (padCount (wrap s.width) sh.chars = s.width - (s.kept sh).length ∧
        (cut (codePrecision s.precision) (upToNul sh.chars)).length = (s.kept sh).length ↔
          s.Sound sh) := by
  obtain ⟨hw1, hw2, hw3, hw4, hw5⟩ := wrap_nat s.width
  rw [padCount_eq hw3 h, cut_length, Spec.Sound, Spec.kept]
  have hn : (upToNul sh.chars).length = strlen sh.chars := rfl
  generalize hW : wrap (s.width : Int) = W at *
  by_cases hstr : sh.isStr = true
  · rw [if_pos hstr, if_pos hstr]
    cases hp : s.precision with
    | none =>
      simp only [keep, hn, codePrecision, INT_MAX, reduceCtorEq, false_imp_iff, implies_true, and_true]
      split_ifs <;> omega
    | some p =>
      obtain ⟨hp1, hp2, hp3, hp4, hp5⟩ := wrap_nat p
      simp only [keep, List.length_take, hn, codePrecision, Option.some.injEq, forall_eq', Cuts]
      generalize wrap (p : Int) = P at *
      split_ifs <;> omega
  · rw [if_neg hstr, if_neg hstr, hn]
    have hP : codePrecision s.precision < 2 ^ 31 := by
      cases s.precision with
      | none => decide
      | some p => exact (wrap_nat p).2.2.1
    generalize codePrecision s.precision = P at *
    simp only [Cuts]
    split_ifs <;> omega

theorem codeText_iff {s : Spec} {sh : Shown} (h : strlen sh.chars < 2 ^ 31) :
    (s.codeText sh).length ≤ (s.text sh).length ∧ (s.codeText sh = s.text sh ↔ s.Sound sh) := by
  obtain ⟨hpad, hkept, hiff⟩ := counts (s := s) h
  have hcode : (s.codeText sh).length = padCount (wrap s.width) sh.chars +
      (cut (codePrecision s.precision) (upToNul sh.chars)).length := by
    rw [Spec.codeText, List.length_append, List.length_replicate]
  have href : (s.text sh).length = s.width - (s.kept sh).length + (s.kept sh).length := by
    rw [Spec.text_eq, List.length_append, List.length_replicate]
  refine ⟨by omega, ?_⟩
  rw [← hiff]
  constructor
  · intro heq
    have hlen := congrArg List.length heq
    omega
  · rintro ⟨hp, hk⟩
    rw [Spec.codeText, Spec.text_eq, hp, cut_eq_take, hk, ← Spec.kept_eq_take]

/-- The one number whose numeral the code does not make. -/
theorem codeText_intMin {s : Spec} :
    (s.codeText ⟨false, ['-', '('], false⟩).length ≤
        (s.text ⟨false, signedNumeral intMin, false⟩).length ∧
      s.codeText ⟨false, ['-', '('], false⟩ ≠ s.text ⟨false, signedNumeral intMin, false⟩ := by
  have hnum : signedNumeral intMin = "-2147483648".toList := by
    have hdigits : Nat.digits 10 2147483648 = [8, 4, 6, 3, 8, 4, 7, 4, 1, 2] := by norm_num
    have hval : (-intMin.toInt).toNat = 2147483648 := by decide
    rw [signedNumeral, if_pos (by decide), hval, numeral, if_neg (by decide), hdigits]
    decide
  have hshort : strlen ['-', '('] = 2 := by decide
  have hkept : (s.kept ⟨false, ['-', '('], false⟩).length = 2 := by
    rw [Spec.kept, if_neg (by decide)]
    decide
  have hkept' : s.kept ⟨false, signedNumeral intMin, false⟩ = "-2147483648".toList := by
    rw [Spec.kept, if_neg (by decide), hnum]
    decide
  obtain ⟨hpad, hcut, -⟩ := @counts s ⟨false, ['-', '('], false⟩ (by dsimp only; omega)
  rw [hkept] at hpad hcut
  dsimp only at hpad hcut
  constructor
  · rw [Spec.codeText, Spec.text_eq, hkept']
    simp only [List.length_append, List.length_replicate]
    have hlen : "-2147483648".toList.length = 11 := by decide
    omega
  · intro heq
    have hmem : '2' ∈ s.codeText ⟨false, ['-', '('], false⟩ := by
      rw [heq, Spec.text_eq, hkept']
      exact List.mem_append_right _ (by decide)
    rw [Spec.codeText, cut_eq_take] at hmem
    rcases List.mem_append.1 hmem with h | h
    · have hpad := List.eq_of_mem_replicate h
      split_ifs at hpad <;> cases hpad
    · have htwo : '2' ∈ upToNul ['-', '('] := List.mem_of_mem_take h
      exact absurd htwo (by decide)

/-- Strings have their place in a memory of 32 bits. -/
def Short (args : List Arg) : Prop := ∀ x, .str x ∈ args → x.length < 2 ^ 31

theorem signedNumeral_length {v : BitVec 32} : (signedNumeral v).length ≤ 11 := by
  have hl := BitVec.le_toInt v
  have hu := BitVec.toInt_lt (x := v)
  unfold signedNumeral
  split_ifs
  · have hlen : (numeral 10 (-v.toInt).toNat).length ≤ 10 :=
      numeral_length (by decide) (by decide) (by omega)
    simp only [List.length_cons]
    omega
  · have hlen : (numeral 10 v.toInt.toNat).length ≤ 10 :=
      numeral_length (by decide) (by decide) (by omega)
    omega

theorem strlen_le {l : List Char} : strlen l ≤ l.length := (List.takeWhile_sublist _).length_le

/-- What the code shows is what is to be shown, but for one number. -/
theorem shown_cases {long : Bool} {letter : Char} {args args' : List Arg} {sh : Shown}
    (hargs : Short args) (h : shown signedNumeral long letter args = some (sh, args')) :
    Short args' ∧
      ((letter = 'd' ∧ args.head? = some (.int intMin) ∧ sh = ⟨false, signedNumeral intMin, false⟩ ∧
          shown codeSigned long letter args = some (⟨false, ['-', '('], false⟩, args')) ∨
        (¬ (letter = 'd' ∧ args.head? = some (.int intMin)) ∧ strlen sh.chars < 2 ^ 31 ∧
          shown codeSigned long letter args = some (sh, args'))) := by
  have hnum : ∀ {base : Nat} {v : BitVec 32}, 10 ≤ base → strlen (numeral base v.toNat) < 2 ^ 31 := by
    intro base v hbase
    have hpow : 10 ^ 10 ≤ base ^ 10 := Nat.pow_le_pow_left hbase 10
    have hv := v.isLt
    have hlen : (numeral base v.toNat).length ≤ 10 :=
      numeral_length (by omega) (by decide) (by omega)
    have hle := strlen_le (l := numeral base v.toNat)
    omega
  have htail : ∀ {x : Arg} {args : List Arg}, Short (x :: args) → Short args :=
    fun hs y hy => hs y (List.mem_cons_of_mem _ hy)
  unfold shown at h
  split at h
  · obtain ⟨v, rfl, rfl⟩ := intArg_eq h
    refine ⟨htail hargs, ?_⟩
    by_cases hv : v = intMin
    · subst hv
      exact .inl ⟨rfl, rfl, rfl, by simp [shown, intArg, codeSigned]⟩
    · have hle := strlen_le (l := signedNumeral v)
      have hlen := signedNumeral_length (v := v)
      refine .inr ⟨by simp [hv], by dsimp only; omega, by simp [shown, intArg, codeSigned, hv]⟩
  · obtain ⟨v, rfl, rfl⟩ := intArg_eq h
    exact ⟨htail hargs, .inr ⟨by simp, hnum (by decide), by simp [shown, intArg]⟩⟩
  · obtain ⟨v, rfl, rfl⟩ := intArg_eq h
    exact ⟨htail hargs, .inr ⟨by simp, hnum (by decide), by simp [shown, intArg]⟩⟩
  · obtain ⟨v, rfl, rfl⟩ := intArg_eq h
    exact ⟨htail hargs, .inr ⟨by simp, hnum (by decide), by simp [shown, intArg]⟩⟩
  · obtain ⟨v, rfl, rfl⟩ := intArg_eq h
    have hle := strlen_le (l := [Char.ofNat (v.toNat % 256)])
    exact ⟨htail hargs, .inr ⟨by simp, by simp at hle ⊢; omega, by simp [shown, intArg]⟩⟩
  · obtain ⟨x, rfl, rfl⟩ := strArg_eq h
    have hle := strlen_le (l := x)
    have hx := hargs x List.mem_cons_self
    exact ⟨htail hargs, .inr ⟨by simp, by dsimp only; omega, by simp [shown, strArg]⟩⟩
  · rename_i hd hu hx hX hc hs
    cases h
    have hle := strlen_le (l := [letter])
    refine ⟨hargs, .inr ⟨fun hand => hd hand.1, by simp at hle ⊢; omega, ?_⟩⟩
    simp [shown]
  · rename_i hd hu hx hX
    cases h
    have hle := strlen_le (l := [letter, 'l'])
    refine ⟨hargs, .inr ⟨fun hand => hd hand.1, by simp at hle ⊢; omega, ?_⟩⟩
    simp [shown]

/-! ## The format -/

/-- Every conversion is sound, and no negative number is that without a positive one. -/
def Sound : List Piece → List Arg → Prop
  | [], _ => True
  | .literal _ :: ps, args => Sound ps args
  | .conversion s :: ps, args =>
    ∀ sh args', shown signedNumeral s.long s.letter args = some (sh, args') →
      ¬ (s.letter = 'd' ∧ args.head? = some (.int intMin)) ∧ s.Sound sh ∧ Sound ps args'

theorem append_eq_iff {A : Type} {a b c d : List A} (ha : a.length ≤ c.length)
    (hb : b.length ≤ d.length) : a ++ b = c ++ d ↔ a = c ∧ b = d := by
  constructor
  · intro h
    have hlen := congrArg List.length h
    simp only [List.length_append] at hlen
    exact List.append_inj h (by omega)
  · rintro ⟨rfl, rfl⟩
    rfl

theorem codeOutput_iff {ps : List Piece} {args : List Arg} {out : List Char} (hargs : Short args)
    (h : reference ps args = some out) :
    ∃ out', codeOutput ps args = some out' ∧ out'.length ≤ out.length ∧
      (out' = out ↔ Sound ps args) := by
  induction ps generalizing args out with
  | nil =>
    cases h
    exact ⟨[], rfl, le_refl _, iff_of_true rfl trivial⟩
  | cons p ps ih =>
    cases p with
    | literal c =>
      obtain ⟨out, hout, rfl⟩ := Option.map_eq_some_iff.1 h
      obtain ⟨out', hcode, hlen, hiff⟩ := ih hargs hout
      refine ⟨c :: out', by rw [codeOutput, hcode]; rfl, Nat.succ_le_succ hlen, ?_⟩
      rw [Sound, ← hiff]
      simp
    | conversion s =>
      simp only [reference, Option.bind_eq_some_iff, Option.map_eq_some_iff] at h
      obtain ⟨⟨sh, args'⟩, hsh, out, hout, rfl⟩ := h
      obtain ⟨hargs', hcases⟩ := shown_cases hargs hsh
      obtain ⟨out', hcode, hlen, hiff⟩ := ih hargs' hout
      have hsound : Sound (.conversion s :: ps) args ↔
          ¬ (s.letter = 'd' ∧ args.head? = some (.int intMin)) ∧ s.Sound sh ∧ Sound ps args' := by
        simp only [Sound, hsh, Option.some.injEq, Prod.mk.injEq]
        constructor
        · intro hall
          exact hall sh args' ⟨rfl, rfl⟩
        · rintro hall _ _ ⟨rfl, rfl⟩
          exact hall
      rcases hcases with ⟨hd, hmin, rfl, hshc⟩ | ⟨hmin, hshort, hshc⟩
      · obtain ⟨htext, hne⟩ := codeText_intMin (s := s)
        refine ⟨s.codeText ⟨false, ['-', '('], false⟩ ++ out', ?_, ?_, ?_⟩
        · simp only [codeOutput, hshc, Option.bind_some, hcode, Option.map_some]
        · simp only [List.length_append]
          omega
        · rw [append_eq_iff htext hlen, hsound]
          exact iff_of_false (fun hand => hne hand.1) fun hand => hand.1 ⟨hd, hmin⟩
      · obtain ⟨htext, htextiff⟩ := codeText_iff (s := s) hshort
        refine ⟨s.codeText sh ++ out', ?_, ?_, ?_⟩
        · simp only [codeOutput, hshc, Option.bind_some, hcode, Option.map_some]
        · simp only [List.length_append]
          omega
        · rw [append_eq_iff htext hlen, hsound, htextiff, hiff, and_iff_right hmin]

/-- Whatever `push` does, the letters of `out` are pushed, nothing is read behind the NUL of the format
and nothing is written outside of `tmpbuf`. -/
def Formats (s : List Char) (args : List Arg) (out : List Char) : Prop :=
  ∀ (S : Type) (push : S → Char → S × Bool) (userp : S),
    format push (userp, true) (s ++ [NUL]) args = .ok (pushAll push (userp, true) out)

theorem pushAll_log {l out : List Char} :
    pushAll (fun log c => (log ++ [c], true)) (l, true) out = (l ++ out, true) := by
  induction out generalizing l with
  | nil => rw [List.append_nil]; rfl
  | cons c out ih => rw [pushAll_cons rfl, ih, List.append_assoc]; rfl

/-- For every format, and arguments that match it. -/
theorem format_iff {s : List Char} {args : List Arg} (hnul : NUL ∉ s) (hargs : Short args)
    (hmatch : ∀ ps, parse s = some ps → ∃ out, reference ps args = some out) :
    (∃ out, (∀ ps, parse s = some ps → reference ps args = some out) ∧ Formats s args out) ↔
      ∃ ps, parse s = some ps ∧ Sound ps args := by
  cases hparse : parse s with
  | none =>
    refine iff_of_false ?_ (by simp)
    rintro ⟨out, -, hformats⟩
    exact format_truncated (fun _ _ => rfl) hnul hparse rfl
      (hformats (List Char) (fun log c => (log ++ [c], true)) [])
  | some ps =>
    obtain ⟨out, hout⟩ := hmatch ps hparse
    obtain ⟨out', hcode, -, hiff⟩ := codeOutput_iff hargs hout
    simp only [Option.some.injEq, forall_eq', exists_eq_left', hout, ← hiff]
    constructor
    · intro hformats
      have hlog := hformats (List Char) (fun log c => (log ++ [c], true)) []
      rw [format_eq hnul hparse hcode, pushAll_log, pushAll_log] at hlog
      simpa using hlog
    · rintro rfl S push userp
      exact format_eq hnul hparse hcode

/-- A width, of the number 42. -/
theorem pads_number : ∃ out, (∀ ps, parse "%5d".toList = some ps →
    reference ps [.int 42] = some out) ∧ Formats "%5d".toList [.int 42] out := by
  have hchars : "%5d".toList = ['%', '5', 'd'] := rfl
  have hparse : parse ['%', '5', 'd'] = some [.conversion ⟨false, 5, none, false, 'd'⟩] := by
    rw [parse, if_pos rfl]
    have hspec : parseSpec ['5', 'd'] = some (⟨false, 5, none, false, 'd'⟩, []) := by decide
    split
    · rename_i h
      rw [hspec] at h
      cases h
    · rename_i h
      rw [hspec] at h
      cases h
      rw [parse]
      rfl
  rw [hchars]
  refine (format_iff (by decide) (by simp [Short]) ?_).2 ⟨_, hparse, ?_⟩
  · rw [hparse]
    rintro _ ⟨⟩
    exact ⟨_, rfl⟩
  · rintro sh args' h
    cases h
    refine ⟨by decide, ⟨by decide, ?_⟩, trivial⟩
    rw [if_neg (by decide)]
    rintro ⟨-, hlt⟩
    have hlen := signedNumeral_length (v := 42)
    have hle := strlen_le (l := signedNumeral 42)
    simp only [codePrecision, INT_MAX] at hlt
    omega

/-- A `%` at the end. -/
theorem reads_behind : ¬ ∀ (s : List Char) (args : List Arg), NUL ∉ s → Short args →
    (∀ ps, parse s = some ps → ∃ out, reference ps args = some out) →
    ∃ out, (∀ ps, parse s = some ps → reference ps args = some out) ∧ Formats s args out := by
  intro h
  have hparse : parse ['%'] = none := by
    rw [parse, if_pos rfl]
    rfl
  obtain ⟨out, -, hformats⟩ := h ['%'] [] (by decide) (by simp [Short]) (by simp [hparse])
  exact format_truncated (fun _ _ => rfl) (by decide) hparse rfl
    (hformats (List Char) (fun log c => (log ++ [c], true)) [])

end Printf
end Freemyipod
