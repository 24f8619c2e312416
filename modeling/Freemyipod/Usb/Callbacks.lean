import Freemyipod.Usb.Model

/-!
# Usb.Callbacks

The order in which a device's callbacks are called.

* `Alternates`: a list of marks in which each `set` is followed by an `unset` of the same thing.
* `Tracks log conf alts`: in `log` the callbacks alternate, and at its end configuration `conf`
  and the altsettings `alts` of its interfaces are set.
* `Tracks.setConfiguration`, `Tracks.unsetAltsetting`, ...: what one more callback does.
-/

namespace Freemyipod
namespace Usb

/-! ## Alternation -/

inductive Mark (β : Type)
  | set (b : β)
  | unset (b : β)
deriving DecidableEq

def Mark.val {β : Type} : Mark β → β
  | .set b => b
  | .unset b => b

/-- `set` and `unset` take turns, `set` first, and each `unset` names what was set last; the
second argument is what is set at the end. -/
inductive Alternates {β : Type} : List (Mark β) → Option β → Prop
  | nil : Alternates [] none
  | set {l : List (Mark β)} (b : β) : Alternates l none → Alternates (l ++ [.set b]) (some b)
  | unset {l : List (Mark β)} {b : β} : Alternates l (some b) → Alternates (l ++ [.unset b]) none

namespace Alternates

variable {β : Type} {l : List (Mark β)} {o : Option β}

theorem getLast? {b : β} (h : Alternates l (some b)) : l.getLast? = some (.set b) := by
  cases h with
  | set _ _ => simp

/-- Dropping every mark of some values leaves an alternation. -/
theorem filter (h : Alternates l o) (p : β → Bool) :
    Alternates (l.filter fun m => p m.val) (o.filter p) := by
  induction h with
  | nil => exact .nil
  | set b h ih =>
    rw [List.filter_append]
    cases hp : p b with
    | true => simpa [hp, Mark.val, Option.filter] using Alternates.set b ih
    | false => simpa [hp, Mark.val, Option.filter] using ih
  | @unset l b h ih =>
    rw [List.filter_append]
    cases hp : p b with
    | true =>
      have ih : Alternates (l.filter fun m => p m.val) (some b) := by
        simpa [hp, Option.filter] using ih
      simpa [hp, Mark.val] using Alternates.unset ih
    | false => simpa [hp, Mark.val, Option.filter] using ih

end Alternates

/-! ## Marks of the callbacks -/

namespace Callback

/-- The marks of the configurations. -/
@[grind =] def configuration : Callback → Option (Mark Nat)
  | .setConfiguration c => some (.set c)
  | .unsetConfiguration c => some (.unset c)
  | _ => none

/-- The marks of interface `i` of configuration `c`. -/
@[grind =] def ofInterface (c i : Nat) : Callback → Option (Mark Nat)
  | .setAltsetting c' i' a => if c' = c ∧ i' = i then some (.set a) else none
  | .unsetAltsetting c' i' a => if c' = c ∧ i' = i then some (.unset a) else none
  | _ => none

/-- The configuration to which the altsetting belongs. -/
def owner : Callback → Option Nat
  | .setAltsetting c _ _ => some c
  | .unsetAltsetting c _ _ => some c
  | _ => none

end Callback

theorem filterMap_concat {β γ : Type} (f : β → Option γ) (l : List β) (x : β) :
    (l ++ [x]).filterMap f = l.filterMap f ++ (f x).toList := by
  cases h : f x <;> simp [h]

/-- Before each callback of an altsetting, its configuration is the last that was set. -/
def Within (log : List Callback) : Prop :=
  ∀ pre x post c, log = pre ++ x :: post → x.owner = some c →
    (pre.filterMap Callback.configuration).getLast? = some (.set c)

theorem Within.append {log : List Callback} {x : Callback} (h : Within log)
    (hx : ∀ c, x.owner = some c →
      (log.filterMap Callback.configuration).getLast? = some (.set c)) :
    Within (log ++ [x]) := by
  intro pre y post c he hy
  rcases List.eq_nil_or_concat post with rfl | ⟨post, z, rfl⟩
  · obtain ⟨h1, h2⟩ := List.append_inj' he rfl
    cases h2
    rw [← h1]
    exact hx c hy
  · rw [List.concat_eq_append, ← List.cons_append, ← List.append_assoc] at he
    exact h pre y post c (List.append_inj' he rfl).1 hy

structure Tracks (log : List Callback) (conf : Option Nat) (alts : Nat → Option Nat) : Prop where
  configuration : Alternates (log.filterMap Callback.configuration) conf
  interface : ∀ c i, Alternates (log.filterMap (Callback.ofInterface c i))
    (if conf = some c then alts i else none)
  within : Within log

namespace Tracks

variable {log : List Callback} {conf : Option Nat} {alts : Nat → Option Nat} {c i a : Nat}

theorem nil : Tracks [] none fun _ => none := by
  refine ⟨.nil, fun c i => ?_, fun pre x post c he => ?_⟩
  · exact .nil
  · simp at he

/-- Without a configuration no altsettings are set. -/
theorem congr_none {alts' : Nat → Option Nat} (h : Tracks log none alts) :
    Tracks log none alts' := ⟨h.configuration, h.interface, h.within⟩

theorem setConfiguration (h : Tracks log none alts) (c : Nat) :
    Tracks (log ++ [.setConfiguration c]) (some c) fun _ => none := by
  refine ⟨?_, fun c' i => ?_, h.within.append fun c' hc => by simp [Callback.owner] at hc⟩
  · simpa [filterMap_concat, -List.filterMap_append, Callback.configuration] using h.configuration.set c
  · have hi := h.interface c' i
    simp only [reduceCtorEq, ↓reduceIte] at hi
    simpa [filterMap_concat, -List.filterMap_append, Callback.ofInterface] using hi

theorem unsetConfiguration (h : Tracks log (some c) alts) (hnone : ∀ i, alts i = none) :
    Tracks (log ++ [.unsetConfiguration c]) none fun _ => none := by
  refine ⟨?_, fun c' i => ?_, h.within.append fun c' hc => by simp [Callback.owner] at hc⟩
  · simpa [filterMap_concat, -List.filterMap_append, Callback.configuration] using h.configuration.unset
  · have hi := h.interface c' i
    rw [hnone, ite_self] at hi
    simpa [filterMap_concat, -List.filterMap_append, Callback.ofInterface] using hi

theorem setAltsetting (h : Tracks log (some c) alts) (hi : alts i = none) (a : Nat) :
    Tracks (log ++ [.setAltsetting c i a]) (some c) (Function.update alts i (some a)) := by
  refine ⟨?_, fun c' i' => ?_, h.within.append fun c' hc => ?_⟩
  · simpa [filterMap_concat, -List.filterMap_append, Callback.configuration] using h.configuration
  · have hi' := h.interface c' i'
    by_cases he : c = c' ∧ i = i'
    · obtain ⟨rfl, rfl⟩ := he
      rw [if_pos rfl, hi] at hi'
      simpa [filterMap_concat, -List.filterMap_append, Callback.ofInterface] using hi'.set a
    · by_cases hc : c = c'
      · have hne : i' ≠ i := fun hii => he ⟨hc, hii.symm⟩
        simpa [filterMap_concat, -List.filterMap_append, Callback.ofInterface, hc, hne.symm, Function.update_of_ne hne]
          using hi'
      · simpa [filterMap_concat, -List.filterMap_append, Callback.ofInterface, he, hc] using hi'
  · cases hc
    exact h.configuration.getLast?

theorem unsetAltsetting (h : Tracks log (some c) alts) (hi : alts i = some a) :
    Tracks (log ++ [.unsetAltsetting c i a]) (some c) (Function.update alts i none) := by
  refine ⟨?_, fun c' i' => ?_, h.within.append fun c' hc => ?_⟩
  · simpa [filterMap_concat, -List.filterMap_append, Callback.configuration] using h.configuration
  · have hi' := h.interface c' i'
    by_cases he : c = c' ∧ i = i'
    · obtain ⟨rfl, rfl⟩ := he
      rw [if_pos rfl, hi] at hi'
      simpa [filterMap_concat, -List.filterMap_append, Callback.ofInterface] using hi'.unset
    · by_cases hc : c = c'
      · have hne : i' ≠ i := fun hii => he ⟨hc, hii.symm⟩
        simpa [filterMap_concat, -List.filterMap_append, Callback.ofInterface, hc, hne.symm, Function.update_of_ne hne]
          using hi'
      · simpa [filterMap_concat, -List.filterMap_append, Callback.ofInterface, he, hc] using hi'
  · cases hc
    exact h.configuration.getLast?

end Tracks

end Usb
end Freemyipod
