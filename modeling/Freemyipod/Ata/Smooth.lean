import Freemyipod.Ata.Transfer

/-!
# Ata.Smooth

What the functions do when every step of the hardware, the heap and the console goes well.

* `Works p`: then `p` returns 0, and the steps behind it go well too. It is closed under the ways to
  build a function.
* `works_ataPowerUp`, `works_ataReset`, `ataRwSectorsInternal_works`: power, resets and transfers.
-/

namespace Freemyipod
namespace Ata

open Effect

/-- Every step that is left goes well. -/
def State.Smooth (s : State) : Prop := ∀ e ∈ s.script, e.answer.ok = true

variable {α β : Type} {dev : Device} {s : State}

/-- The steps behind `p` go well if all do. -/
abbrev Calm (p : M α) : Prop := Keeps (fun _ => True) State.Smooth p

/-- When every step goes well, `p` returns 0. -/
def Works (p : M Rc) : Prop :=
  ∀ s, s.Smooth → Ends (fun _ => True) p s fun rc t => rc = 0 ∧ t.Smooth

theorem Works.calm {p : M Rc} (h : Works p) : Calm p := fun s hs => (h s hs).mono fun _ _ ht => ht.2

theorem works_zero : Works (pure 0) := fun _ hs => (ends_pure _).2 ⟨rfl, hs⟩

theorem Works.after {p : M α} {f : α → M Rc} (hp : Calm p) (hf : ∀ a, Works (f a)) :
    Works (p >>= f) := by
  intro s hs
  rw [ends_bind]
  exact (hp s hs).mono fun a t ht => hf a t ht

theorem Works.seq {p : M Rc} {f : Rc → M Rc} (hp : Works p) (hf : Works (f 0)) :
    Works (p >>= f) := by
  intro s hs
  rw [ends_bind]
  refine (hp s hs).mono ?_
  rintro rc t ⟨rfl, ht⟩
  exact hf t ht

theorem Works.ite {c : Prop} [Decidable c] {p q : M Rc} (hp : Works p) (hq : Works q) :
    Works (if c then p else q) := by
  split
  · exact hp
  · exact hq

theorem Works.passRc {p k : M Rc} {bits : Nat} {val : Rc} (hp : Works p) (hk : Works k) :
    Works (passRc p bits val k) := by
  refine hp.seq ?_
  rw [if_neg (by decide)]
  exact hk

theorem calm_modify {f : State → State} (hf : ∀ s, (f s).script = s.script) :
    Calm (modify f : M PUnit) :=
  .modify fun s hs => by
    unfold State.Smooth
    rw [hf]
    exact hs

theorem calm_get : Calm (get : M State) := fun _ hs => ends_get.2 hs

theorem calm_lock : Calm lock := calm_modify fun _ => rfl

theorem calm_unlock : Calm unlock :=
  .get fun _ _ => .ite (fun _ => .throw trivial) fun _ => calm_modify fun _ => rfl

theorem works_return : Works (do
    unlock
    pure 0) := .after calm_unlock fun _ => works_zero

/-- A step that goes well -/
theorem ask_smooth (step : Step) (hs : s.Smooth) :
    Ends (fun _ => True) (ask step) s fun a t => a.ok = true ∧ t.Smooth := by
  simp only [ask, ends_bind, ends_get]
  cases hscript : s.script with
  | nil =>
    rw [ends_throw]
    trivial
  | cons e script =>
    have he : e.answer.ok = true := hs e (by simp [hscript])
    have hrest : ∀ e ∈ script, e.answer.ok = true := fun e he => hs e (by simp [hscript, he])
    simp only [ends_ite, ends_bind, ends_modify, ends_pure, ends_throw]
    exact ⟨fun _ => ⟨he, hrest⟩, fun _ => trivial⟩

theorem works_perform (step : Step) : Works (perform step) := by
  intro s hs
  simp only [perform, ends_bind, ends_pure]
  refine (ask_smooth step hs).mono ?_
  rintro a t ⟨ha, ht⟩
  exact ⟨if_pos ha, ht⟩

/-! ## Power and resets -/

theorem works_ataPowerUp (c : Caller) : Works (ataPowerUp dev c) := by
  have hconf : Works (configure dev c) := by
    refine .after calm_get fun s => .passRc (.ite (works_perform _) works_zero)
      (.passRc (.ite (works_perform _) works_zero) ?_)
    exact .after (calm_modify fun _ => rfl) fun _ => works_zero
  have hset : ∀ b b', Calm (modify fun s => { s with lba48 := b, dma := b' } : M PUnit) :=
    fun _ _ => calm_modify fun _ => rfl
  refine .ite (.after (hset true true) fun _ => ?_) ?_
  · exact .passRc (works_perform _) (.passRc (works_perform _) (.passRc (works_perform _) hconf))
  · exact .passRc (works_perform _) (.after (hset _ _) fun _ => .passRc (works_perform _) hconf)

theorem works_powerUpIfOff (c : Caller) : Works (powerUpIfOff dev c) :=
  .after calm_get fun _ => .ite works_zero (works_ataPowerUp c)

theorem works_ataSoftReset : Works (ataSoftReset dev) :=
  .after calm_lock fun _ => .passRc (works_powerUpIfOff _) (.seq (works_perform _)
    (.after calm_unlock fun _ => .passRc works_zero works_zero))

theorem works_ataReset : Works (ataReset dev) := by
  refine .after calm_lock fun _ => .passRc (works_powerUpIfOff _) (works_ataSoftReset.seq ?_)
  rw [if_neg (by decide)]
  exact works_zero.seq works_return

theorem calm_resetIf (c : Bool) : Calm (resetIf dev c) :=
  .ite (fun _ => works_ataReset.calm.bind fun _ => .pure ()) fun _ => .pure ()

/-! ## Transfers -/

variable {place : Place} {write : Bool} {sector cnt count pos n : Nat}

theorem works_ataRwChunk : Works (ataRwChunk sector cnt place pos write) := by
  refine .after calm_get fun s => ?_
  split
  · intro t ht
    rw [ends_bind]
    refine (ask_smooth _ ht).mono ?_
    rintro a u ⟨ha, hu⟩
    rw [ends_bind, ends_modify, ends_pure]
    refine ⟨if_pos ha, ?_⟩
    cases write <;> exact hu
  · exact fun _ _ => ends_throw.2 trivial

theorem works_rwCommand : Works (rwCommand dev sector cnt place pos write) := by
  refine works_ataRwChunk.seq (.after (.bind calm_get fun s => calm_resetIf _) fun _ =>
    .after calm_get fun s => ?_)
  rw [if_neg (fun h => h.1 rfl)]
  exact works_zero

theorem works_rwCommands (n : Nat) : Works (rwCommands dev place write n sector count pos) := by
  induction n generalizing sector count pos with
  | zero => exact works_zero
  | succ n ih =>
    exact .ite works_zero (.after calm_get fun s => .passRc works_rwCommand ih)

/-- A transfer that stays on the disk -/
theorem ataRwSectorsInternal_works (hs : s.Smooth) (hdisk : sector + count ≤ s.totalSectors) :
    Ends (fun _ => True) (ataRwSectorsInternal dev sector count place pos write) s
      fun rc t => rc = 0 ∧ t.Smooth := by
  simp only [ataRwSectorsInternal, ends_bind, ends_get]
  rw [if_neg (by omega)]
  exact Works.passRc (works_powerUpIfOff _) (works_rwCommands count) s hs

theorem ataBbtReadSectors_works (hs : s.Smooth) (hsize : s.totalSectors = dev.totalSectors)
    (hdisk : sector + count ≤ dev.totalSectors) :
    Ends (fun _ => True) (ataBbtReadSectors dev sector count place pos) s
      fun rc t => rc = 0 ∧ t.Smooth := by
  simp only [ataBbtReadSectors, ends_bind, ends_get]
  refine ((calm_resetIf _ s hs).and ((silent_resetIf dev _).ends s (Nat.zero_le _))).mono ?_
  rintro _ t ⟨ht, hquiet⟩
  have htotal : t.totalSectors = dev.totalSectors := by
    obtain h | h := hquiet.totalSectors
    · exact h.trans hsize
    · exact h
  refine (ataRwSectorsInternal_works ht (by omega)).mono ?_
  rintro rc u ⟨rfl, hu⟩
  rw [if_neg (by decide), ends_pure, ends_modify, if_neg (by decide), ends_pure]
  exact ⟨rfl, hu⟩

end Ata
end Freemyipod
