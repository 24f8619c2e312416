import Mathlib.Init

/-!
# Lib.Runs

Runs of a transition system whose step is a partial function of the state and an action, and
gives an output besides the next state.

* `Runs step ok s es s'`: from `s`, taking steps that meet the condition `ok`, the system gets
  to `s'`; `es` lists the states left, the actions taken and the outputs, oldest first.
* `Runs.invariant`: what holds at the start and is kept by one step holds at the end.
* `Runs.forall_iff`, `Runs.forall_iff_of`: the same for a property that exactly the steps with `P` keep.
* `exec` takes a list of actions, as far as they are possible; `Meets` says that each of them meets
  a condition, and `exec_isSome_iff` when that is what makes them possible.
* `Runs.split`: a run passes through the state recorded at each of its entries.
-/

namespace Lts

variable {S A O : Type}

/-- From `s` by steps that meet `ok` to `s'`, with the entries `es`. -/
inductive Runs (step : S → A → Option (S × O)) (ok : S → A → Prop) (s : S) :
    List (S × A × O) → S → Prop
  | refl : Runs step ok s [] s
  | tail {es : List (S × A × O)} {t u : S} {a : A} {o : O} :
      Runs step ok s es t → ok t a → step t a = some (u, o) →
      Runs step ok s (es ++ [(t, a, o)]) u

/-- What holds of each entry and those before it, when one entry more comes. -/
theorem forall_splits_append {E : Type} {P : List E → E → Prop} {es : List E} {y : E} :
    (∀ pre x post, es ++ [y] = pre ++ x :: post → P pre x) ↔
      (∀ pre x post, es = pre ++ x :: post → P pre x) ∧ P es y := by
  constructor
  · intro h
    refine ⟨fun pre x post heq => h pre x (post ++ [y]) ?_, h es y [] rfl⟩
    rw [heq, List.append_assoc, List.cons_append]
  · rintro ⟨h, hy⟩ pre x post heq
    rcases List.eq_nil_or_concat post with rfl | ⟨post, z, rfl⟩
    · obtain ⟨rfl, hlast⟩ := List.append_inj' heq rfl
      cases hlast
      exact hy
    · rw [List.concat_eq_append, ← List.cons_append, ← List.append_assoc] at heq
      exact h pre x post (List.append_inj' heq rfl).1

namespace Runs

variable {step : S → A → Option (S × O)} {ok ok' : S → A → Prop} {s t u : S} {a : A} {o : O}
  {es es' : List (S × A × O)}

theorem single (hok : ok s a) (h : step s a = some (t, o)) :
    Runs step ok s [(s, a, o)] t := .tail .refl hok h

theorem trans (h : Runs step ok s es t) (h' : Runs step ok t es' u) :
    Runs step ok s (es ++ es') u := by
  induction h' with
  | refl => rw [List.append_nil]; exact h
  | tail _ hok hs ih => rw [← List.append_assoc]; exact .tail ih hok hs

theorem mono (h : Runs step ok s es t) (hw : ∀ x b, ok x b → ok' x b) :
    Runs step ok' s es t := by
  induction h with
  | refl => exact .refl
  | tail _ hok hs ih => exact .tail ih (hw _ _ hok) hs

theorem of_forall (h : Runs step ok s es t) (hall : ∀ e ∈ es, ok e.1 e.2.1 → ok' e.1 e.2.1) :
    Runs step ok' s es t := by
  induction h with
  | refl => exact .refl
  | tail _ hok hs ih =>
    exact .tail (ih fun e he => hall e (List.mem_append_left _ he))
      (hall _ (List.mem_append_right _ List.mem_cons_self) hok) hs

/-- A run starts in the first state it records, or ends where it starts. -/
theorem start {P : S → Prop} (h : Runs step ok s es t) (hall : ∀ e ∈ es, P e.1) (ht : P t) :
    P s := by
  induction h with
  | refl => exact ht
  | tail _ _ _ ih =>
    exact ih (fun e he => hall e (List.mem_append_left _ he))
      (hall _ (List.mem_append_right _ List.mem_cons_self))

/-- What holds at the start and is kept by every step that meets the condition holds at the
end. -/
theorem invariant {I : S → Prop} (h : Runs step ok s es t) (h0 : I s)
    (hstep : ∀ x b y p, I x → ok x b → step x b = some (y, p) → I y) : I t := by
  induction h with
  | refl => exact h0
  | tail _ hok hs ih => exact hstep _ _ _ _ ih hok hs

/-- The same for an invariant that speaks of the entries so far. -/
theorem invariant_trace {I : List (S × A × O) → S → Prop} (h : Runs step ok s es t)
    (h0 : I [] s)
    (hstep : ∀ l x b y p, I l x → ok x b → step x b = some (y, p) → I (l ++ [(x, b, p)]) y) :
    I es t := by
  induction h with
  | refl => exact h0
  | tail _ hok hs ih => exact hstep _ _ _ _ _ ih hok hs

/-- If a step gets to a good state exactly when it meets `P`, and then to one with `F` again, which it
needs, all states of a run are good exactly when all its steps meet `P`. -/
theorem forall_iff_of {I F G : S → Prop} {P : S → A → Prop} (h : Runs step ok s es t) (hI : I s)
    (hF : F s) (hG : G s) (hstep : ∀ x b y p, I x → step x b = some (y, p) →
      I y ∧ (F x → (G y ↔ P x b) ∧ (P x b → F y))) :
    ((∀ e ∈ es, G e.1) ∧ G t) ↔ ∀ e ∈ es, P e.1 e.2.1 := by
  have hboth : (((∀ e ∈ es, G e.1) ∧ G t) ↔ ∀ e ∈ es, P e.1 e.2.1) ∧
      ((∀ e ∈ es, P e.1 e.2.1) → F t) := by
    induction h with
    | refl => simp [hF, hG]
    | @tail es t u a o hr _ hs ih =>
      have hIt : I t := hr.invariant hI fun x b y p hx _ hs => (hstep x b y p hx hs).1
      have hlast := (hstep t a u o hIt hs).2
      simp only [List.forall_mem_append, List.forall_mem_singleton]
      constructor
      · constructor
        · rintro ⟨⟨hes, ht⟩, hu⟩
          have hP := ih.1.1 ⟨hes, ht⟩
          exact ⟨hP, (hlast (ih.2 hP)).1.1 hu⟩
        · rintro ⟨hP, ha⟩
          exact ⟨ih.1.2 hP, (hlast (ih.2 hP)).1.2 ha⟩
      · rintro ⟨hP, ha⟩
        exact (hlast (ih.2 hP)).2 ha
  exact hboth.1

/-- If a step from a good state gets to a good state exactly when it meets `P`, all states of a run
are good exactly when all its steps do. -/
theorem forall_iff {I G : S → Prop} {P : S → A → Prop} (h : Runs step ok s es t) (hI : I s)
    (hG : G s) (hstep : ∀ x b y p, I x → step x b = some (y, p) → I y ∧ (G x → (G y ↔ P x b))) :
    ((∀ e ∈ es, G e.1) ∧ G t) ↔ ∀ e ∈ es, P e.1 e.2.1 := by
  refine h.forall_iff_of hI hG hG fun x b y p hx hs => ?_
  obtain ⟨hy, hiff⟩ := hstep x b y p hx hs
  exact ⟨hy, fun hg => ⟨hiff hg, (hiff hg).2⟩⟩

/-- If a step from a good state is right exactly when it meets `P`, and then gets to a good state, the
steps of a run are all right exactly when all of them meet `P`. -/
theorem forall_entries_iff {I G : S → Prop} {R : S × A × O → Prop} {P : S → A → Prop}
    (h : Runs step ok s es t) (hI : I s) (hG : G s)
    (hstep : ∀ x b y p, I x → step x b = some (y, p) →
      I y ∧ (G x → (R (x, b, p) ↔ P x b) ∧ (P x b → G y))) :
    (∀ e ∈ es, R e) ↔ ∀ e ∈ es, P e.1 e.2.1 := by
  have hboth : ((∀ e ∈ es, R e) ↔ ∀ e ∈ es, P e.1 e.2.1) ∧
      ((∀ e ∈ es, P e.1 e.2.1) → G t) := by
    induction h with
    | refl => simp [hG]
    | @tail es t u a o hr _ hs ih =>
      have hIt : I t := hr.invariant hI fun x b y p hx _ hs => (hstep x b y p hx hs).1
      have hlast := (hstep t a u o hIt hs).2
      simp only [List.forall_mem_append, List.forall_mem_singleton]
      constructor
      · constructor
        · rintro ⟨hes, ha⟩
          have hP := ih.1.1 hes
          exact ⟨hP, (hlast (ih.2 hP)).1.1 ha⟩
        · rintro ⟨hP, ha⟩
          exact ⟨ih.1.2 hP, (hlast (ih.2 hP)).1.2 ha⟩
      · rintro ⟨hP, ha⟩
        exact (hlast (ih.2 hP)).2 ha
  exact hboth.1

/-- If only steps that meet `P` get to a good state, the steps of a run through good states do. -/
theorem forall_steps {G : S → Prop} {P : S → A → Prop} (h : Runs step ok s es t)
    (hstep : ∀ x b y p, step x b = some (y, p) → G y → P x b) (hes : ∀ e ∈ es, G e.1) (ht : G t) :
    ∀ e ∈ es, P e.1 e.2.1 := by
  induction h with
  | refl => exact fun e he => absurd he List.not_mem_nil
  | tail hr _ hs ih =>
    simp only [List.forall_mem_append, List.forall_mem_singleton] at hes ⊢
    exact ⟨ih hes.1 hes.2, hstep _ _ _ _ hs ht⟩

/-- A run passes through every state it records. -/
theorem split (h : Runs step ok s es u) {pre post : List (S × A × O)}
    (he : es = pre ++ (t, a, o) :: post) :
    Runs step ok s pre t ∧ ok t a ∧
      ∃ v, step t a = some (v, o) ∧ Runs step ok v post u := by
  induction h generalizing post with
  | refl => exact absurd he (by simp)
  | @tail es x y b p hr hok hs ih =>
    rcases List.eq_nil_or_concat post with rfl | ⟨post, e, rfl⟩
    · obtain ⟨h1, h2⟩ := List.append_inj' he rfl
      cases h2
      subst h1
      exact ⟨hr, hok, y, hs, .refl⟩
    · rw [List.concat_eq_append, ← List.cons_append, ← List.append_assoc] at he
      obtain ⟨h1, h2⟩ := List.append_inj' he rfl
      cases h2
      obtain ⟨h3, h4, v, h5, h6⟩ := ih h1
      refine ⟨h3, h4, v, h5, ?_⟩
      rw [List.concat_eq_append]
      exact .tail h6 hok hs

end Runs

/-- The state after the actions `as`, if each of them is possible. -/
@[grind =] def exec (step : S → A → Option (S × O)) : S → List A → Option S
  | s, [] => some s
  | s, a :: as => (step s a).bind fun r => exec step r.1 as

theorem exec_runs {step : S → A → Option (S × O)} {s t : S} {as : List A}
    (h : exec step s as = some t) :
    ∃ es, es.map (fun e => e.2.1) = as ∧ Runs step (fun _ _ => True) s es t := by
  induction as generalizing s with
  | nil => cases h; exact ⟨[], rfl, .refl⟩
  | cons a as ih =>
    simp only [exec, Option.bind_eq_some_iff] at h
    obtain ⟨⟨u, o⟩, hu, h⟩ := h
    obtain ⟨es, hes, hr⟩ := ih h
    exact ⟨[(s, a, o)] ++ es, by simp [hes], (Runs.single trivial hu).trans hr⟩

theorem exec_append {step : S → A → Option (S × O)} {s : S} {as bs : List A} :
    exec step s (as ++ bs) = (exec step s as).bind fun t => exec step t bs := by
  induction as generalizing s with
  | nil => rfl
  | cons a as ih =>
    simp only [List.cons_append, exec, ih, Option.bind_assoc]

theorem exec_of_runs {step : S → A → Option (S × O)} {ok : S → A → Prop} {s t : S}
    {es : List (S × A × O)} (h : Runs step ok s es t) :
    exec step s (es.map fun e => e.2.1) = some t := by
  induction h with
  | refl => rfl
  | tail _ _ hs ih => simp [List.map_append, exec_append, ih, exec, hs]

/-- The entries of the run of the actions `as`, and the state it ends in. -/
@[grind =] def trace (step : S → A → Option (S × O)) : S → List A → Option (List (S × A × O) × S)
  | s, [] => some ([], s)
  | s, a :: as =>
    (step s a).bind fun r => (trace step r.1 as).map fun q => ((s, a, r.2) :: q.1, q.2)

theorem trace_runs {step : S → A → Option (S × O)} {ok : S → A → Prop} {s t : S} {as : List A}
    {es : List (S × A × O)} (h : trace step s as = some (es, t))
    (hok : ∀ x, ∀ a ∈ as, ok x a) : Runs step ok s es t := by
  induction as generalizing s es with
  | nil =>
    cases h
    exact .refl
  | cons a as ih =>
    simp only [trace, Option.bind_eq_some_iff, Option.map_eq_some_iff] at h
    obtain ⟨⟨u, o⟩, hu, ⟨es', t'⟩, ht, he⟩ := h
    cases he
    have hfirst : Runs step ok s [(s, a, o)] u := .single (hok s a List.mem_cons_self) hu
    exact hfirst.trans (ih ht fun x b hb => hok x b (List.mem_cons_of_mem _ hb))

/-- Each action meets `ok` in the state it is taken in, as far as those before it are possible. -/
@[grind =] def Meets (step : S → A → Option (S × O)) (ok : S → A → Prop) : S → List A → Prop
  | _, [] => True
  | s, a :: as => ok s a ∧ ∀ t o, step s a = some (t, o) → Meets step ok t as

/-- If exactly the steps that meet `ok` are possible, so are exactly the runs of such steps. -/
theorem exec_isSome_iff {step : S → A → Option (S × O)} {ok : S → A → Prop} {I : S → Prop}
    (hok : ∀ x b, I x → ((∃ y p, step x b = some (y, p)) ↔ ok x b))
    (hinv : ∀ x b y p, I x → step x b = some (y, p) → I y) {s : S} (hs : I s) {as : List A} :
    (∃ t, exec step s as = some t) ↔ Meets step ok s as := by
  induction as generalizing s with
  | nil => simp [exec, Meets]
  | cons a as ih =>
    rw [Meets, ← hok s a hs]
    constructor
    · rintro ⟨t, ht⟩
      simp only [exec, Option.bind_eq_some_iff] at ht
      obtain ⟨⟨u, o⟩, hu, ht⟩ := ht
      refine ⟨⟨u, o, hu⟩, fun u' o' hu' => ?_⟩
      rw [hu] at hu'
      cases hu'
      exact (ih (hinv s a u o hs hu)).1 ⟨t, ht⟩
    · rintro ⟨⟨u, o, hu⟩, hrest⟩
      obtain ⟨t, ht⟩ := (ih (hinv s a u o hs hu)).2 (hrest u o hu)
      exact ⟨t, by simpa only [exec, hu, Option.bind_some] using ht⟩

end Lts
