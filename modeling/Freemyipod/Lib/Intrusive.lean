import Mathlib.Data.List.Sort
import Mathlib.Logic.Function.Basic

/-!
# Lib.Intrusive

Singly linked lists threaded through their own elements. Every object `a` has a link field
`next a`; a list is named by a head link and ends in the null link `none`.

* `Linked next p l`: following `next` from the link `p` visits exactly `l` and then ends.
* `unlinkLoop`: the usual removal loop, which overwrites the link that leads to `x` and keeps
  walking. It goes one step too far when `x` was the last element: the link just written is
  null, and the loop reads the link field *of the null pointer*. Whether that word happens to
  be null as well is the parameter `nullEnds`. `unlink_iff` says when it is not read.
* `lastLoop`, `walk`: the walk to the last element and the one along all of them.
* `removeAll`: the loops that remove every element with a property, those at the head first. What they
  removed comes back with the new links.
* `insertLoop`: the walk that finds the place of `x` in a list kept in descending order of a
  rank, and links it there.

The loops take fuel; `unlinkLoop_spec`, `removeAll_spec` and `insertLoop_spec` say that the length of
the list is enough.
-/

namespace Intrusive

variable {α : Type}

/-- Following `next` from the link `p` visits `l` in order and ends in the null link. -/
def Linked (next : α → Option α) : Option α → List α → Prop
  | p, [] => p = none
  | p, a :: l => p = some a ∧ Linked next (next a) l

namespace Linked

variable {next next' : α → Option α} {p : Option α} {a x : α} {l l' : List α}

@[simp] theorem nil_iff : Linked next p [] ↔ p = none := Iff.rfl

@[simp] theorem cons_iff : Linked next p (a :: l) ↔ p = some a ∧ Linked next (next a) l := Iff.rfl

@[simp] theorem none_iff : Linked next none l ↔ l = [] := by
  cases l <;> simp

theorem some_iff : Linked next (some a) l ↔ ∃ r, l = a :: r ∧ Linked next (next a) r := by
  cases l with
  | nil => simp
  | cons b r =>
    constructor
    · rintro ⟨hb, hr⟩; cases hb; exact ⟨r, rfl, hr⟩
    · rintro ⟨r', he, hr⟩; cases he; exact ⟨rfl, hr⟩

theorem unique (h : Linked next p l) (h' : Linked next p l') : l = l' := by
  induction l generalizing p l' with
  | nil => rw [nil_iff] at h; subst h; exact (none_iff.mp h').symm
  | cons a l ih =>
    obtain ⟨rfl, hl⟩ := h
    obtain ⟨r, rfl, hr⟩ := some_iff.mp h'
    rw [ih hl hr]

/-- A list is not changed by writing the links of objects outside it. -/
theorem congr (h : Linked next p l) (hn : ∀ b ∈ l, next' b = next b) : Linked next' p l := by
  induction l generalizing p with
  | nil => exact h
  | cons a l ih =>
    refine ⟨h.1, ?_⟩
    rw [hn a List.mem_cons_self]
    exact ih h.2 fun b hb => hn b (List.mem_cons_of_mem _ hb)

/-- Everything behind an element of the list is what its own link leads to. -/
theorem tail_of_append (h : Linked next p (l ++ a :: l')) : Linked next (next a) l' := by
  induction l generalizing p with
  | nil => exact h.2
  | cons b l ih => exact ih h.2

theorem ne_of_mem_tail (h : Linked next (some a) (a :: l)) : a ∉ l := by
  intro ha
  obtain ⟨s, t, rfl⟩ := List.append_of_mem ha
  have h1 : Linked next (next a) t := tail_of_append h.2
  have h2 := h1.unique h.2
  have := congrArg List.length h2
  simp at this
  omega

/-- A list that ends in null visits no object twice. -/
theorem nodup (h : Linked next p l) : l.Nodup := by
  induction l generalizing p with
  | nil => exact List.nodup_nil
  | cons a l ih =>
    obtain ⟨rfl, hl⟩ := h
    exact List.nodup_cons.mpr ⟨ne_of_mem_tail ⟨rfl, hl⟩, ih hl⟩

theorem head_eq (h : Linked next p l) : p = l.head? := by
  cases l with
  | nil => exact h
  | cons a l => exact h.1

/-- The link of an element leads to another element. -/
theorem mem_of_next {b : α} (h : Linked next p l) (ha : a ∈ l) (hb : next a = some b) :
    b ∈ l ∧ b ≠ a := by
  obtain ⟨r, t, rfl⟩ := List.append_of_mem ha
  have ht := h.tail_of_append
  rw [hb] at ht
  obtain ⟨t, rfl, -⟩ := some_iff.mp ht
  refine ⟨by simp, ?_⟩
  rintro rfl
  have hnd := h.nodup.sublist (List.sublist_append_right r _)
  exact (List.nodup_cons.mp hnd).1 List.mem_cons_self

/-- An element whose link is null is the last one. -/
theorem getLast_of_next (h : Linked next p l) (ha : a ∈ l) (hn : next a = none) :
    l.getLast? = some a := by
  obtain ⟨r, t, rfl⟩ := List.append_of_mem ha
  have ht := h.tail_of_append
  rw [hn, none_iff] at ht
  subst ht
  exact List.getLast?_concat

theorem push (h : Linked next p l) (hx : x ∉ l) [DecidableEq α] :
    Linked (Function.update next x p) (some x) (x :: l) := by
  refine ⟨rfl, ?_⟩
  rw [Function.update_self]
  exact h.congr fun b hb => Function.update_of_ne (fun he : b = x => hx (he ▸ hb)) _ _

end Linked

section Unlink

variable [DecidableEq α]

/-- `while (t->next) { if (t->next == x) t->next = x->next; t = t->next; }` from the link `t`.
The result is the new link field, or nothing when the loop does not end: at the null pointer a
word that is not null leads it on through memory that is no list, and back again. -/
@[grind =] def unlinkLoop (nullEnds : Bool) (x : α) :
    Nat → (α → Option α) → Option α → Option (α → Option α)
  | 0, _, _ => none
  | _ + 1, next, none => if nullEnds then some next else none
  | fuel + 1, next, some t =>
    match next t with
    | none => some next
    | some u =>
      let next' := if u = x then Function.update next t (next x) else next
      unlinkLoop nullEnds x fuel next' (next' t)

variable {nullEnds : Bool} {next next' : α → Option α} {t x : α} {l : List α} {fuel : Nat}

theorem unlinkLoop_of_not_mem (h : Linked next (some t) (t :: l)) (hx : x ∉ l)
    (hf : l.length < fuel) : unlinkLoop nullEnds x fuel next (some t) = some next := by
  induction l generalizing t fuel with
  | nil =>
    obtain ⟨fuel, rfl⟩ := Nat.exists_eq_succ_of_ne_zero (Nat.ne_zero_of_lt hf)
    have hn : next t = none := h.2
    simp [unlinkLoop, hn]
  | cons u l ih =>
    obtain ⟨fuel, rfl⟩ := Nat.exists_eq_succ_of_ne_zero (Nat.ne_zero_of_lt hf)
    have hu : u ≠ x := fun he => hx (he ▸ List.mem_cons_self)
    have hn : next t = some u := h.2.1
    have hw := ih ⟨rfl, h.2.2⟩ (fun hm => hx (List.mem_cons_of_mem _ hm))
      (Nat.lt_of_succ_lt_succ hf)
    simpa [unlinkLoop, hn, hu] using hw

/-- When the element behind `t` is the one to remove, the walk goes on from what follows it. -/
theorem unlinkLoop_of_next (h : Linked next (some t) (t :: x :: l)) (hf : l.length + 1 < fuel) :
    unlinkLoop nullEnds x fuel next (some t) =
      if l = [] ∧ nullEnds = false then none else some (Function.update next t (next x)) := by
  obtain ⟨fuel, rfl⟩ := Nat.exists_eq_succ_of_ne_zero (Nat.ne_zero_of_lt hf)
  have hn : next t = some x := h.2.1
  have htl : t ∉ x :: l := h.ne_of_mem_tail
  have hx : Linked next (next x) l := h.2.2
  simp only [unlinkLoop, hn, if_true, Function.update_self]
  cases l with
  | nil =>
    obtain ⟨fuel, rfl⟩ := Nat.exists_eq_succ_of_ne_zero (Nat.ne_zero_of_lt (Nat.lt_of_succ_lt_succ hf))
    rw [Linked.nil_iff.mp hx]
    cases nullEnds <;> simp [unlinkLoop]
  | cons u l =>
    have hu : next x = some u := hx.1
    have hxl : x ∉ u :: l := Linked.ne_of_mem_tail ⟨rfl, hx⟩
    have hl : Linked (Function.update next t (next x)) (some u) (u :: l) := by
      rw [← hu]
      refine Linked.congr hx fun b hb => Function.update_of_ne (fun he : b = t => ?_) _ _
      exact htl (List.mem_cons_of_mem _ (he ▸ hb))
    rw [hu] at hl ⊢
    rw [unlinkLoop_of_not_mem hl (fun hm => hxl (List.mem_cons_of_mem _ hm))
      (by simp only [List.length_cons] at hf; omega)]
    simp

/-- The loop removes `x` and nothing else, and writes no link outside the list. -/
theorem unlinkLoop_spec (h : Linked next (some t) (t :: l)) (hxt : x ≠ t) (hf : l.length < fuel)
    (hr : unlinkLoop nullEnds x fuel next (some t) = some next') :
    Linked next' (some t) (t :: l.erase x) ∧ ∀ b, b = x ∨ b ∉ t :: l → next' b = next b := by
  induction l generalizing t fuel with
  | nil =>
    rw [unlinkLoop_of_not_mem h (by simp) hf] at hr
    cases hr
    exact ⟨by simpa using h, fun _ _ => rfl⟩
  | cons u l ih =>
    have htl : t ∉ u :: l := h.ne_of_mem_tail
    by_cases hu : u = x
    · subst hu
      rw [unlinkLoop_of_next h hf] at hr
      split at hr
      · cases hr
      cases hr
      rw [List.erase_cons_head]
      refine ⟨⟨rfl, ?_⟩, fun b hb => Function.update_of_ne (fun he : b = t => ?_) _ _⟩
      · rw [Function.update_self]
        refine Linked.congr h.2.2 fun b hb => Function.update_of_ne (fun he : b = t => ?_) _ _
        exact htl (List.mem_cons_of_mem _ (he ▸ hb))
      · rcases hb with hb | hb
        · exact hxt (hb ▸ he)
        · exact hb (he ▸ List.mem_cons_self)
    · obtain ⟨fuel, rfl⟩ := Nat.exists_eq_succ_of_ne_zero (Nat.ne_zero_of_lt hf)
      have hn : next t = some u := h.2.1
      simp only [unlinkLoop, hn, if_neg hu] at hr
      obtain ⟨hl, hfr⟩ := ih ⟨rfl, h.2.2⟩ (fun he => hu he.symm) (Nat.lt_of_succ_lt_succ hf) hr
      have ht : next' t = some u := by rw [hfr t (.inr htl), hn]
      rw [List.erase_cons_tail (by simpa using hu)]
      refine ⟨⟨rfl, ht ▸ hl⟩, fun b hb => hfr b (hb.imp_right fun hb hm => hb ?_)⟩
      exact List.mem_cons_of_mem _ hm

/-- The loop comes back unless it removes the last element while the null pointer's link field
is not null. -/
theorem unlinkLoop_isSome (h : Linked next (some t) (t :: l)) (hf : l.length < fuel) :
    (unlinkLoop nullEnds x fuel next (some t)).isSome ↔
      (x ∈ l → next x = none → nullEnds = true) := by
  induction l generalizing t fuel with
  | nil => simp [unlinkLoop_of_not_mem h List.not_mem_nil hf]
  | cons u l ih =>
    by_cases hu : u = x
    · subst hu
      rw [unlinkLoop_of_next h hf]
      have hx : next u = l.head? := (h.2.2 : Linked next (next u) l).head_eq
      by_cases hl : l = [] <;> cases nullEnds <;> simp [hl, hx]
    · obtain ⟨fuel, rfl⟩ := Nat.exists_eq_succ_of_ne_zero (Nat.ne_zero_of_lt hf)
      have hn : next t = some u := h.2.1
      simp only [unlinkLoop, hn, if_neg hu, List.mem_cons, Ne.symm hu, false_or]
      exact ih ⟨rfl, h.2.2⟩ (Nat.lt_of_succ_lt_succ hf)

/-- `if (head == x) head = x->next; else` the removal loop, on a head that may be null. -/
def unlink (nullEnds : Bool) (x : α) (fuel : Nat) (next : α → Option α) :
    Option α → Option ((α → Option α) × Option α)
  | none => some (next, none)
  | some h =>
    if h = x then some (next, next x)
    else (unlinkLoop nullEnds x fuel next (some h)).map fun next' => (next', some h)

variable {p p' : Option α}

theorem unlink_spec (h : Linked next p l) (hf : l.length ≤ fuel)
    (hr : unlink nullEnds x fuel next p = some (next', p')) :
    Linked next' p' (l.erase x) ∧ ∀ b, b = x ∨ b ∉ l → next' b = next b := by
  cases l with
  | nil =>
    cases h
    cases hr
    exact ⟨rfl, fun _ _ => rfl⟩
  | cons t l =>
    obtain ⟨rfl, hl⟩ := h
    simp only [unlink] at hr
    split at hr
    · rename_i ht
      subst ht
      cases hr
      exact ⟨by simpa using hl, fun _ _ => rfl⟩
    · rename_i ht
      obtain ⟨n, hn, he⟩ := Option.map_eq_some_iff.mp hr
      cases he
      rw [List.erase_cons_tail (by simpa using ht)]
      exact unlinkLoop_spec ⟨rfl, hl⟩ (Ne.symm ht) hf hn

theorem unlink_isSome (h : Linked next p l) (hf : l.length ≤ fuel) :
    (unlink nullEnds x fuel next p).isSome ↔
      (x ∈ l.tail → next x = none → nullEnds = true) := by
  cases l with
  | nil => cases h; simp [unlink]
  | cons t l =>
    obtain ⟨rfl, hl⟩ := h
    have hlk : Linked next (some t) (t :: l) := ⟨rfl, hl⟩
    by_cases ht : t = x
    · subst ht
      simp [unlink, hlk.ne_of_mem_tail]
    · simp only [unlink, if_neg ht, Option.isSome_map, List.tail_cons]
      exact unlinkLoop_isSome hlk hf

/-- At the end of a list, with others before it. -/
def LastOfSeveral (x : α) (l : List α) : Prop := l.getLast? = some x ∧ l.head? ≠ some x

omit [DecidableEq α] in
theorem mem_tail_iff (h : Linked next p l) :
    x ∈ l.tail ∧ next x = none ↔ LastOfSeveral x l := by
  cases l with
  | nil => simp [LastOfSeveral]
  | cons t l =>
    have ht : t ∉ l := (List.nodup_cons.1 h.nodup).1
    constructor
    · rintro ⟨hx, hn⟩
      refine ⟨h.getLast_of_next (List.mem_of_mem_tail hx) hn, ?_⟩
      rintro ⟨rfl⟩
      exact ht hx
    · rintro ⟨hlast, hhead⟩
      obtain ⟨l', hl'⟩ := List.getLast?_eq_some_iff.1 hlast
      have hmem : x ∈ t :: l := List.mem_of_getLast? hlast
      refine ⟨(List.mem_cons.1 hmem).resolve_left fun he => hhead (by rw [he]; rfl), ?_⟩
      rw [hl'] at h
      exact Linked.nil_iff.1 (h.tail_of_append)

theorem unlink_of_not_mem (h : Linked next p l) (hf : l.length ≤ fuel) (hx : x ∉ l) :
    unlink nullEnds x fuel next p = some (next, p) := by
  cases l with
  | nil => cases h; rfl
  | cons t l =>
    obtain ⟨rfl, hl⟩ := h
    have ht : t ≠ x := fun he => hx (he ▸ List.mem_cons_self)
    rw [unlink, if_neg ht, unlinkLoop_of_not_mem ⟨rfl, hl⟩
      (fun hm => hx (List.mem_cons_of_mem _ hm)) hf, Option.map_some]

/-- Where the null pointer's link is not read, the loop has a result for all but the last element. -/
theorem unlink_iff (h : Linked next p l) (hf : l.length ≤ fuel) :
    (∃ r, unlink false x fuel next p = some r) ↔ ¬ LastOfSeveral x l := by
  rw [← Option.isSome_iff_exists, unlink_isSome h hf, ← mem_tail_iff h]
  simp

end Unlink

section Remove

variable [DecidableEq α]

/-- `for (h = head; h && h->next; h = h->next);` from the link `h`. -/
def lastLoop : Nat → (α → Option α) → Option α → Option (Option α)
  | 0, _, _ => none
  | _ + 1, _, none => some none
  | fuel + 1, next, some t =>
    match next t with
    | none => some (some t)
    | some u => lastLoop fuel next (some u)

/-- `for (h = head; h; h = h->next)`: the elements it comes to. -/
def walk : Nat → (α → Option α) → Option α → Option (List α)
  | 0, _, _ => none
  | _ + 1, _, none => some []
  | fuel + 1, next, some t => (walk fuel next (next t)).map (t :: ·)

/-- `while (head && p(head)) head = head->next;` -/
def skipLoop (p : α → Bool) : Nat → (α → Option α) → Option α → Option (Option α × List α)
  | 0, _, _ => none
  | _ + 1, _, none => some (none, [])
  | fuel + 1, next, some t =>
    if p t then (skipLoop p fuel next (next t)).map fun r => (r.1, t :: r.2)
    else some (some t, [])

/-- `while (t->next && p(t->next)) t->next = t->next->next;` -/
def sweepBehind (p : α → Bool) (t : α) :
    Nat → (α → Option α) → Option ((α → Option α) × List α)
  | 0, _ => none
  | fuel + 1, next =>
    match next t with
    | none => some (next, [])
    | some u =>
      if p u then
        (sweepBehind p t fuel (Function.update next t (next u))).map fun r => (r.1, u :: r.2)
      else some (next, [])

/-- `for (h = head; h; h = h->next)` with the loop `sweepBehind` in it, from the link `h`. -/
def sweepLoop (p : α → Bool) :
    Nat → (α → Option α) → Option α → Option ((α → Option α) × List α)
  | 0, _, _ => none
  | _ + 1, next, none => some (next, [])
  | fuel + 1, next, some t =>
    (sweepBehind p t (fuel + 1) next).bind fun r =>
      (sweepLoop p fuel r.1 (r.1 t)).map fun r' => (r'.1, r.2 ++ r'.2)

/-- Every element with `p` is removed: the new links and head, and what was removed. -/
def removeAll (p : α → Bool) (fuel : Nat) (next : α → Option α) (q : Option α) :
    Option ((α → Option α) × Option α × List α) :=
  (skipLoop p fuel next q).bind fun r =>
    (sweepLoop p fuel next r.1).map fun r' => (r'.1, r.1, r.2 ++ r'.2)

variable {p : α → Bool} {next : α → Option α} {q : Option α} {t : α} {l : List α} {fuel : Nat}

omit [DecidableEq α] in
theorem lastLoop_spec (h : Linked next q l) (hf : l.length < fuel) :
    lastLoop fuel next q = some l.getLast? := by
  induction l generalizing q fuel with
  | nil =>
    obtain ⟨fuel, rfl⟩ := Nat.exists_eq_succ_of_ne_zero (Nat.ne_zero_of_lt hf)
    cases h
    rfl
  | cons t l ih =>
    obtain ⟨fuel, rfl⟩ := Nat.exists_eq_succ_of_ne_zero (Nat.ne_zero_of_lt hf)
    obtain ⟨rfl, hl⟩ := h
    cases l with
    | nil => simp [lastLoop, Linked.nil_iff.mp hl]
    | cons u l =>
      have hn : next t = some u := hl.1
      rw [hn] at hl
      simp only [lastLoop, hn]
      rw [ih hl (Nat.lt_of_succ_lt_succ hf), List.getLast?_cons_cons]

omit [DecidableEq α] in
theorem walk_spec (h : Linked next q l) (hf : l.length < fuel) : walk fuel next q = some l := by
  induction l generalizing q fuel with
  | nil =>
    obtain ⟨fuel, rfl⟩ := Nat.exists_eq_succ_of_ne_zero (Nat.ne_zero_of_lt hf)
    cases h
    rfl
  | cons t l ih =>
    obtain ⟨fuel, rfl⟩ := Nat.exists_eq_succ_of_ne_zero (Nat.ne_zero_of_lt hf)
    obtain ⟨rfl, hl⟩ := h
    simp [walk, ih hl (Nat.lt_of_succ_lt_succ hf)]

omit [DecidableEq α] in
theorem skipLoop_spec (h : Linked next q l) (hf : l.length < fuel) :
    ∃ q', skipLoop p fuel next q = some (q', l.takeWhile p) ∧ Linked next q' (l.dropWhile p) := by
  induction l generalizing q fuel with
  | nil =>
    obtain ⟨fuel, rfl⟩ := Nat.exists_eq_succ_of_ne_zero (Nat.ne_zero_of_lt hf)
    cases h
    exact ⟨none, rfl, rfl⟩
  | cons t l ih =>
    obtain ⟨fuel, rfl⟩ := Nat.exists_eq_succ_of_ne_zero (Nat.ne_zero_of_lt hf)
    obtain ⟨rfl, hl⟩ := h
    by_cases ht : p t
    · obtain ⟨q', hq, hl'⟩ := ih hl (Nat.lt_of_succ_lt_succ hf)
      exact ⟨q', by simp [skipLoop, ht, hq], by simpa [ht] using hl'⟩
    · exact ⟨some t, by simp [skipLoop, ht], by simpa [ht] using hl⟩

/-- The elements behind `t` up to the first one without `p` are taken out. -/
theorem sweepBehind_spec (h : Linked next (some t) (t :: l)) (hf : l.length < fuel) :
    ∃ next', sweepBehind p t fuel next = some (next', l.takeWhile p) ∧
      Linked next' (some t) (t :: l.dropWhile p) ∧ ∀ b, b ≠ t → next' b = next b := by
  induction l generalizing fuel next with
  | nil =>
    obtain ⟨fuel, rfl⟩ := Nat.exists_eq_succ_of_ne_zero (Nat.ne_zero_of_lt hf)
    have hn : next t = none := h.2
    exact ⟨next, by simp [sweepBehind, hn], h, fun _ _ => rfl⟩
  | cons u l ih =>
    obtain ⟨fuel, rfl⟩ := Nat.exists_eq_succ_of_ne_zero (Nat.ne_zero_of_lt hf)
    have hn : next t = some u := h.2.1
    by_cases hu : p u
    · have htl : t ∉ u :: l := h.ne_of_mem_tail
      have hl : Linked (Function.update next t (next u)) (some t) (t :: l) := by
        refine ⟨rfl, ?_⟩
        rw [Function.update_self]
        refine Linked.congr h.2.2 fun b hb => Function.update_of_ne ?_ _ _
        rintro rfl
        exact htl (List.mem_cons_of_mem _ hb)
      obtain ⟨next', hr, hl', hfr⟩ := ih hl (Nat.lt_of_succ_lt_succ hf)
      refine ⟨next', by simp [sweepBehind, hn, hu, hr], by simpa [hu] using hl', ?_⟩
      intro b hb
      rw [hfr b hb, Function.update_of_ne hb]
    · exact ⟨next, by simp [sweepBehind, hn, hu], by simpa [hu] using h, fun _ _ => rfl⟩

omit [DecidableEq α] in
theorem filter_eq_takeWhile_append (p : α → Bool) (l : List α) :
    l.filter p = l.takeWhile p ++ (l.dropWhile p).filter p := by
  induction l with
  | nil => rfl
  | cons a l ih => by_cases ha : p a <;> simp [ha, ih]

omit [DecidableEq α] in
theorem filter_not_dropWhile (p : α → Bool) (l : List α) :
    (l.filter fun a => !p a) = (l.dropWhile p).filter fun a => !p a := by
  induction l with
  | nil => rfl
  | cons a l ih => by_cases ha : p a <;> simp [ha, ih]

omit [DecidableEq α] in
/-- What is left behind the first elements with `p` is part of the list and starts without `p`. -/
theorem dropWhile_cons {u : α} {rest : List α} (hd : l.dropWhile p = u :: rest) :
    p u = false ∧ rest.length < l.length ∧ ∀ b ∈ u :: rest, b ∈ l := by
  have hsuf : (u :: rest) <:+ l := hd ▸ List.dropWhile_suffix p
  refine ⟨?_, hsuf.length_le, fun b hb => hsuf.subset hb⟩
  induction l with
  | nil => cases hd
  | cons a l ih =>
    by_cases ha : p a
    · rw [List.dropWhile_cons_of_pos ha] at hd
      exact ih hd (hd ▸ List.dropWhile_suffix p)
    · rw [List.dropWhile_cons_of_neg ha] at hd
      cases hd
      simpa using ha

/-- Behind an element without `p` the loop leaves exactly the elements without `p`. -/
theorem sweepLoop_spec (h : Linked next (some t) (t :: l)) (hf : l.length + 1 < fuel) :
    ∃ next', sweepLoop p fuel next (some t) = some (next', l.filter p) ∧
      Linked next' (some t) (t :: l.filter fun a => !p a) ∧
      ∀ b, b ∉ t :: l → next' b = next b := by
  induction hn : l.length using Nat.strong_induction_on generalizing t l next fuel with
  | _ n ih =>
    obtain ⟨fuel, rfl⟩ := Nat.exists_eq_succ_of_ne_zero (Nat.ne_zero_of_lt hf)
    obtain ⟨next₁, hr, hl, hfr⟩ :=
      sweepBehind_spec (p := p) h (show l.length < fuel + 1 by omega)
    rw [filter_eq_takeWhile_append, filter_not_dropWhile]
    cases hd : l.dropWhile p with
    | nil =>
      -- Nothing is left behind `t`, and the loop ends.
      rw [hd] at hl
      have hnone : next₁ t = none := hl.2
      obtain ⟨fuel, rfl⟩ :=
        Nat.exists_eq_succ_of_ne_zero (Nat.ne_zero_of_lt (Nat.lt_of_succ_lt_succ hf))
      refine ⟨next₁, ?_, hl, fun b hb => hfr b fun he => hb (he ▸ List.mem_cons_self)⟩
      simp [sweepLoop, hr, hnone]
    | cons u rest =>
      rw [hd] at hl
      obtain ⟨hu, hlen, hsub⟩ := dropWhile_cons hd
      have hun : next₁ t = some u := hl.2.1
      have hul : Linked next₁ (some u) (u :: rest) := ⟨rfl, hl.2.2⟩
      obtain ⟨next', hr', hl', hfr'⟩ := ih rest.length (by omega) hul (show rest.length + 1 < fuel by omega) rfl
      have htl : t ∉ u :: rest := hl.ne_of_mem_tail
      rw [List.filter_cons_of_neg (by simp [hu]), List.filter_cons_of_pos (by simp [hu])]
      refine ⟨next', ?_, ⟨rfl, ?_⟩, ?_⟩
      · simp [sweepLoop, hr, hun, hr']
      · rw [hfr' t htl, hun]
        exact hl'
      · intro b hb
        have hbt : b ≠ t := fun he => hb (he ▸ List.mem_cons_self)
        rw [hfr' b fun hm => hb (List.mem_cons_of_mem _ (hsub b hm)), hfr b hbt]

/-- The loops leave exactly the elements without `p`, in their order, and write no link outside the
list. -/
theorem removeAll_spec (p : α → Bool) (h : Linked next q l) (hf : l.length < fuel) :
    ∃ next' q', removeAll p fuel next q = some (next', q', l.filter p) ∧
      Linked next' q' (l.filter fun a => !p a) ∧ ∀ b, b ∉ l → next' b = next b := by
  obtain ⟨q', hq, hl⟩ := skipLoop_spec (p := p) h hf
  rw [filter_eq_takeWhile_append, filter_not_dropWhile]
  rw [removeAll, hq, Option.bind_some]
  cases hd : l.dropWhile p with
  | nil =>
    rw [hd] at hl
    cases hl
    obtain ⟨fuel, rfl⟩ := Nat.exists_eq_succ_of_ne_zero (Nat.ne_zero_of_lt hf)
    exact ⟨next, none, by simp [sweepLoop], rfl, fun _ _ => rfl⟩
  | cons u rest =>
    rw [hd] at hl
    obtain ⟨hu, hlen, hsub⟩ := dropWhile_cons hd
    obtain ⟨rfl, hlu⟩ := hl
    obtain ⟨next', hr, hl', hfr⟩ := sweepLoop_spec (p := p) ⟨rfl, hlu⟩ (show rest.length + 1 < fuel by omega)
    rw [List.filter_cons_of_neg (by simp [hu]), List.filter_cons_of_pos (by simp [hu])]
    refine ⟨next', some u, by rw [hr]; rfl, hl', fun b hb => hfr b fun hm => hb (hsub b hm)⟩

end Remove

section Insert

variable [DecidableEq α]

/-- `while (t->next && rank(t->next) > rank(x)) t = t->next;` and then `x` linked behind `t`. -/
def insertLoop (rank : α → Nat) (x : α) :
    Nat → (α → Option α) → α → Option (α → Option α)
  | 0, _, _ => none
  | fuel + 1, next, t =>
    match next t with
    | some u =>
      if rank x < rank u then insertLoop rank x fuel next u
      else some (Function.update (Function.update next x (some u)) t (some x))
    | none => some (Function.update (Function.update next x none) t (some x))

/-- `x` goes to the front of an empty list or of one whose first rank is not above its own. -/
def insert (rank : α → Nat) (x : α) (fuel : Nat) (next : α → Option α) :
    Option α → Option ((α → Option α) × Option α)
  | none => some (Function.update next x none, some x)
  | some h =>
    if rank h ≤ rank x then some (Function.update next x (some h), some x)
    else (insertLoop rank x fuel next h).map fun next' => (next', some h)

variable {rank : α → Nat} {next : α → Option α} {t x : α} {l : List α} {fuel : Nat}

/-- Linking `x` between `t` and the list behind it. -/
theorem Linked.insert_after (h : Linked next (some t) (t :: l)) (hx : x ∉ t :: l) :
    Linked (Function.update (Function.update next x (next t)) t (some x)) (some t) (t :: x :: l) := by
  have htx : t ≠ x := fun he => hx (he ▸ List.mem_cons_self)
  refine ⟨rfl, ?_⟩
  rw [Function.update_self]
  refine ⟨rfl, ?_⟩
  rw [Function.update_of_ne (Ne.symm htx), Function.update_self]
  refine Linked.congr h.2 fun b hb => ?_
  rw [Function.update_of_ne fun he : b = t => h.ne_of_mem_tail (he ▸ hb),
    Function.update_of_ne fun he : b = x => hx (List.mem_cons_of_mem _ (he ▸ hb))]

theorem insertLoop_spec (rank : α → Nat) (h : Linked next (some t) (t :: l)) (hx : x ∉ t :: l)
    (hf : l.length < fuel) :
    ∃ next', insertLoop rank x fuel next t = some next' ∧
      Linked next' (some t) (t :: l.orderedInsert (fun a b => rank b ≤ rank a) x) ∧
      ∀ b, b ≠ x → b ∉ t :: l → next' b = next b := by
  obtain ⟨fuel, rfl⟩ := Nat.exists_eq_succ_of_ne_zero (Nat.ne_zero_of_lt hf)
  have here : ∀ b, b ≠ x → b ∉ t :: l →
      Function.update (Function.update next x (next t)) t (some x) b = next b := by
    intro b hb hbl
    rw [Function.update_of_ne fun he : b = t => hbl (he ▸ List.mem_cons_self),
      Function.update_of_ne hb]
  induction l generalizing t fuel with
  | nil =>
    have hn : next t = none := h.2
    rw [hn] at here
    exact ⟨_, by simp only [insertLoop, hn], hn ▸ h.insert_after hx, here⟩
  | cons u l ih =>
    have hn : next t = some u := h.2.1
    by_cases hu : rank u ≤ rank x
    · refine ⟨_, by simp only [insertLoop, hn, if_neg (Nat.not_lt.mpr hu)], ?_, hn ▸ here⟩
      rw [List.orderedInsert_cons_of_le (r := fun a b => rank b ≤ rank a) l hu]
      exact hn ▸ h.insert_after hx
    · obtain ⟨fuel, rfl⟩ :=
        Nat.exists_eq_succ_of_ne_zero (Nat.ne_zero_of_lt (Nat.lt_of_succ_lt_succ hf))
      have hxu : x ∉ u :: l := fun hm => hx (List.mem_cons_of_mem _ hm)
      obtain ⟨next', hr, hl, hfr⟩ := ih ⟨rfl, h.2.2⟩ hxu _ (Nat.lt_of_succ_lt_succ hf)
        (by
          intro b hb hbl
          rw [Function.update_of_ne fun he : b = u => hbl (he ▸ List.mem_cons_self),
            Function.update_of_ne hb])
      have ht : next' t = some u := by
        rw [hfr t (fun he => hx (he ▸ List.mem_cons_self)) h.ne_of_mem_tail, hn]
      refine ⟨next', ?_, ?_, fun b hb hbl => hfr b hb fun hm => hbl (List.mem_cons_of_mem _ hm)⟩
      · rw [insertLoop, hn]
        simpa only [if_pos (Nat.lt_of_not_le hu)] using hr
      · rw [List.orderedInsert_of_not_le (r := fun a b => rank b ≤ rank a) l hu]
        exact ⟨rfl, ht ▸ hl⟩

theorem insert_spec (rank : α → Nat) {p : Option α} (h : Linked next p l) (hx : x ∉ l) (hf : l.length ≤ fuel) :
    ∃ next' p', insert rank x fuel next p = some (next', p') ∧
      Linked next' p' (l.orderedInsert (fun a b => rank b ≤ rank a) x) ∧
      ∀ b, b ≠ x → b ∉ l → next' b = next b := by
  cases l with
  | nil =>
    cases h
    refine ⟨_, _, rfl, ⟨rfl, Function.update_self ..⟩, fun b hb _ => Function.update_of_ne hb _ _⟩
  | cons t l =>
    obtain ⟨rfl, hl⟩ := h
    have hlk : Linked next (some t) (t :: l) := ⟨rfl, hl⟩
    by_cases ht : rank t ≤ rank x
    · refine ⟨Function.update next x (some t), some x, by simp only [insert, if_pos ht], ?_,
        fun b hb _ => Function.update_of_ne hb _ _⟩
      rw [List.orderedInsert_cons_of_le (r := fun a b => rank b ≤ rank a) l ht]
      exact hlk.push hx
    · obtain ⟨next', hr, hl', hfr⟩ := insertLoop_spec rank hlk hx hf
      refine ⟨next', some t, by simp only [insert, if_neg ht, hr, Option.map_some], ?_, hfr⟩
      rwa [List.orderedInsert_of_not_le (r := fun a b => rank b ≤ rank a) l ht]

end Insert

end Intrusive
