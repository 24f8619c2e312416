import Freemyipod.Ata.Mutex
import Freemyipod.Bbt.Translate

/-!
# Ata.Transfer

What a transfer moves. `Quiet` is what power-ups and resets keep, `Copied` what a transfer does to
the disk and the memory.

* `ataRwSectorsInternal_spec`: a transfer of physical sectors moves them all, or fails.
* `ataRwSectors_translated`: a transfer of virtual sectors is one of single sectors, each where the
  table has it.
-/

namespace Freemyipod
namespace Ata

open Effect

/-- The only way to stop. -/
def OutOfScript (e : Exit) : Prop := e = .mismatch

/-- A step that only the loading of a table takes. -/
def Step.tells : Step → Bool
  | .report .table | .memalign .table _ | .setFeature .bbtReload _ _ => true
  | _ => false

/-- What the script has of the loading of a table. -/
def State.told (s : State) : List Entry := s.script.filter (·.step.tells)

/-- `t` is `s` but for the power, the script and the size of the disk; at most `d` locks are gone, and
no table was loaded. -/
structure Quiet (dev : Device) (d : Nat) (s t : State) : Prop where
  virtualSectors : t.virtualSectors = s.virtualSectors
  bbt : t.bbt = s.bbt
  retries : t.retries = s.retries
  held : s.held ≤ t.held + d
  totalSectors : t.totalSectors = s.totalSectors ∨ t.totalSectors = dev.totalSectors
  medium : t.medium = s.medium
  mem : t.mem = s.mem
  told : t.told = s.told

variable {dev : Device} {α β : Type} {d n : Nat} {s t u : State}

theorem Quiet.refl (s : State) : Quiet dev 0 s s :=
  ⟨rfl, rfl, rfl, le_rfl, Or.inl rfl, rfl, rfl, rfl⟩

theorem Quiet.mono (h : Quiet dev 0 s t) : Quiet dev d s t :=
  { h with held := h.held.trans (by omega) }

theorem Quiet.trans (h : Quiet dev d s t) (h' : Quiet dev n t u) : Quiet dev (d + n) s u where
  virtualSectors := h'.virtualSectors.trans h.virtualSectors
  bbt := h'.bbt.trans h.bbt
  retries := h'.retries.trans h.retries
  held := by
    have h1 := h.held
    have h2 := h'.held
    omega
  totalSectors := by
    rcases h'.totalSectors with ht | ht
    · rw [ht]
      exact h.totalSectors
    · exact Or.inr ht
  medium := h'.medium.trans h.medium
  mem := h'.mem.trans h.mem
  told := h'.told.trans h.told

/-- `p` is quiet, and unlocks `d` of the locks held. -/
structure Silent (dev : Device) (d : Nat) (p : M α) : Prop where
  ends : ∀ s, d ≤ s.held → Ends OutOfScript p s fun _ t => Quiet dev d s t

theorem silent_pure (a : α) : Silent dev d (pure a : M α) := by
  constructor
  intro s _
  rw [ends_pure]
  exact (Quiet.refl s).mono

theorem Silent.bind {p : M α} {f : α → M β} (hp : Silent dev d p) (hf : ∀ a, Silent dev n (f a)) :
    Silent dev (d + n) (p >>= f) := by
  constructor
  intro s hs
  rw [ends_bind]
  refine (hp.ends s (by omega)).mono fun a t ht => ?_
  have hheld := ht.held
  exact ((hf a).ends t (by omega)).mono fun b u hu => ht.trans hu

theorem Silent.seq {p : M α} {f : α → M β} (hp : Silent dev 0 p) (hf : ∀ a, Silent dev d (f a)) :
    Silent dev d (p >>= f) := by
  have h := hp.bind hf
  rwa [Nat.zero_add] at h

theorem silent_get : Silent dev 0 (get : M State) := by
  constructor
  intro s _
  rw [ends_get]
  exact Quiet.refl s

theorem silent_modify {f : State → State} (hf : ∀ s, Quiet dev 0 s (f s)) :
    Silent dev 0 (modify f : M PUnit) := by
  constructor
  intro s _
  rw [ends_modify]
  exact hf s

theorem Silent.ite {c : Prop} [Decidable c] {p q : M α} (hp : Silent dev d p)
    (hq : Silent dev d q) : Silent dev d (if c then p else q) := by
  split
  · exact hp
  · exact hq

theorem Silent.locked {f : PUnit → M α} (hf : ∀ v, Silent dev 1 (f v)) :
    Silent dev 0 (lock >>= f) := by
  constructor
  intro s _
  simp only [lock, ends_bind, ends_modify]
  refine ((hf _).ends _ (by simp)).mono fun a t ht => ?_
  exact { ht with held := by have := ht.held; simp only at this; omega }

theorem silent_unlock : Silent dev 1 unlock := by
  constructor
  intro s hs
  simp only [unlock, ends_bind, ends_get, ends_ite, ends_throw, ends_modify]
  exact ⟨fun h0 => by omega, fun _ => ⟨rfl, rfl, rfl, by simp only; omega, Or.inl rfl, rfl, rfl, rfl⟩⟩

theorem silent_return (rc : Rc) : Silent dev 1 (do
    unlock
    pure rc) :=
  silent_unlock.bind fun _ => silent_pure (d := 0) rc

theorem Silent.passRc {p k : M Rc} {bits : Nat} {val : Rc} (hp : Silent dev 0 p)
    (hk : Silent dev d k) : Silent dev d (passRc p bits val k) :=
  hp.seq fun _ => .ite (silent_pure _) hk

/-! ## Power and resets -/

theorem silent_ask (dev : Device) {step : Step} (h : step.tells = false) :
    Silent dev 0 (ask step) := by
  constructor
  intro s _
  simp only [ask, ends_bind, ends_get]
  cases hs : s.script with
  | nil =>
    rw [ends_throw]
    rfl
  | cons e script =>
    simp only [ends_ite, ends_bind, ends_modify, ends_pure, ends_throw]
    refine ⟨?_, fun _ => rfl⟩
    rintro rfl
    refine ⟨rfl, rfl, rfl, le_rfl, Or.inl rfl, rfl, rfl, ?_⟩
    simp [State.told, hs, h]

theorem silent_perform {step : Step} (h : step.tells = false) : Silent dev 0 (perform step) :=
  (silent_ask dev h).seq fun _ => silent_pure _

theorem silent_ataPowerUp (dev : Device) {c : Caller} (h : c ≠ .bbtReload) : Silent dev 0 (ataPowerUp dev c) := by
  have hfeature : ∀ feature param, Silent dev 0 (perform (.setFeature c feature param)) := by
    intro feature param
    refine silent_perform ?_
    cases c <;> first | rfl | exact absurd rfl h
  have hconf : Silent dev 0 (configure dev c) := by
    refine silent_get.seq fun s => ?_
    refine .passRc (.ite (hfeature _ _) (silent_pure 0)) (.passRc (.ite (hfeature _ _)
      (silent_pure 0)) ?_)
    exact .seq (silent_modify fun s => ⟨rfl, rfl, rfl, le_rfl, Or.inr rfl, rfl, rfl, rfl⟩)
      fun _ => silent_pure 0
  have hset : ∀ b b', Silent dev 0 (modify fun s => { s with lba48 := b, dma := b' } : M PUnit) :=
    fun _ _ => silent_modify fun s => ⟨rfl, rfl, rfl, le_rfl, Or.inl rfl, rfl, rfl, rfl⟩
  refine .ite (.seq (hset true true) fun _ => ?_) ?_
  · exact .passRc (silent_perform rfl) (.passRc (silent_perform rfl)
      (.passRc (silent_perform rfl) hconf))
  · exact .passRc (silent_perform rfl) (.seq (hset _ _) fun _ => .passRc (hfeature _ _) hconf)

theorem silent_powerUpIfOff {c : Caller} (h : c ≠ .bbtReload) :
    Silent dev 0 (powerUpIfOff dev c) :=
  silent_get.seq fun _ => .ite (silent_pure 0) (silent_ataPowerUp dev h)

theorem silent_ataSoftReset : Silent dev 0 (ataSoftReset dev) := by
  refine .locked fun _ => .passRc (silent_powerUpIfOff (by decide)) (.seq (silent_perform rfl) fun rc => ?_)
  exact silent_unlock.bind fun _ => Silent.passRc (d := 0) (silent_pure rc) (silent_pure 0)

theorem silent_ataHardReset : Silent dev 0 (ataHardReset dev) :=
  .locked fun _ => .passRc (silent_ataPowerUp dev (by decide)) (silent_return 0)

theorem silent_ataReset : Silent dev 0 (ataReset dev) := by
  have hharder : Silent dev 0 (resetHarder dev) := by
    refine silent_ataHardReset.seq fun rc => .ite ?_ (silent_pure 1)
    exact .seq (silent_modify fun s => ⟨rfl, rfl, rfl, le_rfl, Or.inl rfl, rfl, rfl, rfl⟩) fun _ =>
      (silent_ataPowerUp dev (by decide)).seq fun rc2 => silent_pure _
  refine .locked fun _ => .passRc (silent_powerUpIfOff (by decide)) ?_
  exact silent_ataSoftReset.seq fun rc =>
    (Silent.ite hharder (silent_pure rc)).seq fun rc => silent_return rc

theorem silent_resetIf (dev : Device) (c : Bool) : Silent dev 0 (resetIf dev c) :=
  .ite (silent_ataReset.seq fun _ => silent_pure ()) (silent_pure ())

theorem silent_resetAfter (dev : Device) (rc : Rc) : Silent dev 0 (resetAfter dev rc) :=
  silent_get.seq fun _ => silent_resetIf dev _

/-! ## Copies -/

/-- Where the data of a transfer comes from. -/
def State.source (s : State) (place : Place) (write : Bool) : Nat → Sector :=
  if write then s.mem place else s.medium

/-- Where it goes to. -/
def State.target (s : State) (place : Place) (write : Bool) : Nat → Sector :=
  if write then s.medium else s.mem place

/-- Only the `cnt` target sectors from `dst` on have changed; if `done`, they are the source sectors
from `src` on. -/
structure Copied (s t : State) (place : Place) (write : Bool) (dst src cnt : Nat) (done : Prop) :
    Prop where
  medium : write = false → t.medium = s.medium
  mem : ∀ p, write = true ∨ p ≠ place → t.mem p = s.mem p
  outside : ∀ x, x < dst ∨ dst + cnt ≤ x → t.target place write x = s.target place write x
  inside : done → ∀ i < cnt, t.target place write (dst + i) = s.source place write (src + i)

/-- What no transfer changes. -/
structure Kept (dev : Device) (s t : State) : Prop where
  virtualSectors : t.virtualSectors = s.virtualSectors
  bbt : t.bbt = s.bbt
  retries : t.retries = s.retries
  held : s.held ≤ t.held
  totalSectors : t.totalSectors = s.totalSectors ∨ t.totalSectors = dev.totalSectors
  told : t.told = s.told

/-- A transfer that returns `rc`. -/
structure Moved (dev : Device) (place : Place) (write : Bool) (dst src cnt : Nat) (s t : State)
    (rc : Rc) : Prop where
  kept : Kept dev s t
  copied : Copied s t place write dst src cnt (rc = 0)
  rc_cases : rc = 0 ∨ isErr rc = true

section

variable {place : Place} {write : Bool} {dst src cnt a b : Nat} {D D' : Prop} {rc rc' : Rc}

theorem Kept.trans (h : Kept dev s t) (h' : Kept dev t u) : Kept dev s u where
  virtualSectors := h'.virtualSectors.trans h.virtualSectors
  bbt := h'.bbt.trans h.bbt
  retries := h'.retries.trans h.retries
  held := h.held.trans h'.held
  totalSectors := by
    rcases h'.totalSectors with ht | ht
    · rw [ht]
      exact h.totalSectors
    · exact Or.inr ht
  told := h'.told.trans h.told

theorem Quiet.kept (h : Quiet dev 0 s t) : Kept dev s t :=
  ⟨h.virtualSectors, h.bbt, h.retries, h.held, h.totalSectors, h.told⟩

theorem Kept.hasRoom (h : Kept dev s t) (top : Nat) (place : Place) :
    t.hasRoom top place = s.hasRoom top place := by
  cases place with
  | user => rfl
  | header => rfl
  | table => simp only [State.hasRoom, h.bbt]

theorem hasRoom_mono {top : Nat} (h : s.hasRoom top place = true) (hle : a ≤ top) :
    s.hasRoom a place = true := by
  cases place with
  | user => rfl
  | header =>
    simp only [State.hasRoom, decide_eq_true_eq] at h ⊢
    omega
  | table =>
    cases hb : s.bbt with
    | none => simp [State.hasRoom, hb] at h
    | some p =>
      simp only [State.hasRoom, hb, Bool.and_eq_true, decide_eq_true_eq] at h ⊢
      exact ⟨h.1, hle.trans h.2⟩

namespace Copied

theorem source_eq (h : Copied s t place write dst src cnt D) :
    t.source place write = s.source place write := by
  cases hw : write with
  | true => exact h.mem place (Or.inl hw)
  | false => exact h.medium hw

theorem none (h : Quiet dev d s t) : Copied s t place write dst src 0 D where
  medium _ := h.medium
  mem p _ := by rw [h.mem]
  outside x _ := by
    unfold State.target
    rw [h.medium, h.mem]
  inside _ i hi := absurd hi (Nat.not_lt_zero i)

/-- Something that was copied only in part, or not at all. -/
theorem fail (h : Copied s t place write dst src a D) (hle : a ≤ b) (hd : ¬ D') :
    Copied s t place write dst src b D' where
  medium := h.medium
  mem := h.mem
  outside x hx := h.outside x (by omega)
  inside hd' := absurd hd' hd

/-- The same sectors are copied once more. -/
theorem again (h : Copied s t place write dst src cnt D) (h' : Copied t u place write dst src cnt D') :
    Copied s u place write dst src cnt D' where
  medium hw := (h'.medium hw).trans (h.medium hw)
  mem p hp := (h'.mem p hp).trans (h.mem p hp)
  outside x hx := (h'.outside x hx).trans (h.outside x hx)
  inside hd i hi := (h'.inside hd i hi).trans (congrFun h.source_eq _)

/-- The sectors behind those that were copied are copied. -/
theorem append (h : Copied s t place write dst src a D) (hd : D)
    (h' : Copied t u place write (dst + a) (src + a) b D') :
    Copied s u place write dst src (a + b) D' where
  medium hw := (h'.medium hw).trans (h.medium hw)
  mem p hp := (h'.mem p hp).trans (h.mem p hp)
  outside x hx := (h'.outside x (by omega)).trans (h.outside x (by omega))
  inside hd' i hi := by
    rcases Nat.lt_or_ge i a with hlt | hge
    · rw [h'.outside (dst + i) (by omega)]
      exact h.inside hd i hlt
    · have hin := h'.inside hd' (i - a) (by omega)
      rw [h.source_eq, show dst + a + (i - a) = dst + i by omega,
        show src + a + (i - a) = src + i by omega] at hin
      exact hin

end Copied

namespace Moved

theorem quiet (h : Moved dev place write dst src cnt s t rc) (h' : Quiet dev 0 t u) :
    Moved dev place write dst src cnt s u rc := by
  refine ⟨h.kept.trans h'.kept, ?_, h.rc_cases⟩
  by_cases hz : rc = 0
  · have hnone : Copied t u place write (dst + cnt) (src + cnt) 0 (rc = 0) := .none h'
    exact h.copied.append hz hnone
  · have hnone : Copied t u place write dst src 0 (rc = 0) := .none h'
    exact h.copied.again (hnone.fail (Nat.zero_le _) hz)

theorem again (h : Moved dev place write dst src cnt s t rc)
    (h' : Moved dev place write dst src cnt t u rc') : Moved dev place write dst src cnt s u rc' :=
  ⟨h.kept.trans h'.kept, h.copied.again h'.copied, h'.rc_cases⟩

theorem append (h : Moved dev place write dst src a s t 0)
    (h' : Moved dev place write (dst + a) (src + a) b t u rc') :
    Moved dev place write dst src (a + b) s u rc' :=
  ⟨h.kept.trans h'.kept, h.copied.append rfl h'.copied, h'.rc_cases⟩

theorem fail (h : Moved dev place write dst src a s t rc) (hle : a ≤ b)
    (herr : isErr rc' = true) : Moved dev place write dst src b s t rc' := by
  refine ⟨h.kept, h.copied.fail hle ?_, Or.inr herr⟩
  rintro rfl
  cases herr

theorem of_quiet (h : Quiet dev 0 s t) (hrc : rc = 0 ∨ isErr rc = true) :
    Moved dev place write dst src 0 s t rc :=
  ⟨h.kept, .none h, hrc⟩

end Moved

end

/-! ## Commands -/

section

variable {sector cnt pos count : Nat} {place : Place} {write : Bool}

/-- The target of a transfer of disk sectors from `sector` on and memory from `pos` on. -/
def dstOf (write : Bool) (sector pos : Nat) : Nat := if write then sector else pos

def srcOf (write : Bool) (sector pos : Nat) : Nat := if write then pos else sector

theorem dstOf_add (write : Bool) (sector pos n : Nat) :
    dstOf write (sector + n) (pos + n) = dstOf write sector pos + n := by
  cases write <;> rfl

theorem srcOf_add (write : Bool) (sector pos n : Nat) :
    srcOf write (sector + n) (pos + n) = srcOf write sector pos + n := by
  cases write <;> rfl

theorem ataRwChunk_spec (dev : Device) (hroom : s.hasRoom (pos + cnt) place = true) :
    Ends OutOfScript (ataRwChunk sector cnt place pos write) s fun rc t =>
      Moved dev place write (dstOf write sector pos) (srcOf write sector pos) cnt s t rc := by
  simp only [ataRwChunk, ends_bind, ends_get, hroom, if_true]
  refine ((silent_ask dev rfl).ends s (Nat.zero_le _)).mono fun ans t ht => ?_
  rw [ends_modify, ends_pure]
  have hrc : ans.rc = 0 ↔ ans.ok = true := by
    have := ans.isErr_rc
    constructor
    · intro h0
      rw [h0] at this
      simpa [isErr] using this.symm
    · intro hok
      simp [Answer.rc, hok]
  have hcases : ans.rc = 0 ∨ isErr ans.rc = true := by
    rw [ans.isErr_rc, hrc]
    cases ans.ok <;> simp
  cases write with
  | true =>
    refine ⟨⟨ht.virtualSectors, ht.bbt, ht.retries, ht.held, ht.totalSectors, ht.told⟩,
      ⟨(fun h => by cases h), fun p _ => congrFun ht.mem p, fun x hx => ?_, fun h0 i hi => ?_⟩, hcases⟩
    · have hout : ¬ (sector ≤ x ∧ x < sector + cnt) := fun h => by
        rcases hx with hx | hx <;> simp only [dstOf, if_true] at hx <;> omega
      simp only [State.target, if_true, splice, if_neg hout, ht.medium]
    · have hin : sector ≤ sector + i ∧ sector + i < sector + cnt := by omega
      simp only [State.target, State.source, dstOf, srcOf, splice, if_pos hin, hrc.1 h0, if_true,
        ht.mem, Nat.add_sub_cancel_left]
  | false =>
    refine ⟨⟨ht.virtualSectors, ht.bbt, ht.retries, ht.held, ht.totalSectors, ht.told⟩,
      ⟨fun _ => ht.medium, fun p hp => ?_, fun x hx => ?_, fun h0 i hi => ?_⟩, hcases⟩
    · have hne : p ≠ place := by simpa using hp
      simp only [Bool.false_eq_true, if_false, Function.update_of_ne hne, ht.mem]
    · have hout : ¬ (pos ≤ x ∧ x < pos + cnt) := fun h => by
        rcases hx with hx | hx <;> simp only [dstOf, Bool.false_eq_true, if_false] at hx <;> omega
      simp only [State.target, Bool.false_eq_true, if_false, Function.update_self, splice,
        if_neg hout, ht.mem]
    · have hin : pos ≤ pos + i ∧ pos + i < pos + cnt := by omega
      simp only [State.target, State.source, dstOf, srcOf, splice, Bool.false_eq_true, if_false,
        Function.update_self, if_pos hin, hrc.1 h0, if_true, ht.medium, Nat.add_sub_cancel_left]

theorem retry_spec (n : Nat) (hroom : s.hasRoom (pos + 1) place = true) {rc : Rc}
    (hrc : isErr rc = true) :
    Ends OutOfScript (retry dev sector place pos write n rc) s fun rc' t =>
      Moved dev place write (dstOf write sector pos) (srcOf write sector pos) 1 s t rc' := by
  induction n generalizing s rc with
  | zero =>
    rw [retry, ends_pure]
    have h0 : Moved dev place write (dstOf write sector pos) (srcOf write sector pos) 0 s s rc :=
      .of_quiet (Quiet.refl s) (Or.inr hrc)
    exact h0.fail (Nat.zero_le _) hrc
  | succ n ih =>
    have hne : rc ≠ 0 := by
      rintro rfl
      cases hrc
    simp only [retry, if_neg hne, ends_bind]
    refine (ataRwChunk_spec dev hroom).mono fun rc₁ t ht => ?_
    refine ((silent_resetAfter dev rc₁).ends t (Nat.zero_le _)).mono fun _ u hu => ?_
    have hmoved := ht.quiet hu
    rcases hmoved.rc_cases with rfl | herr
    · cases n <;> simpa [retry] using hmoved
    · refine (ih (by rw [hmoved.kept.hasRoom]; exact hroom) herr).mono fun rc' v hv => ?_
      exact hmoved.again hv

theorem retrySectors_spec (n : Nat) (hroom : s.hasRoom (pos + n) place = true) :
    Ends OutOfScript (retrySectors dev place write n sector pos) s fun rc t =>
      Moved dev place write (dstOf write sector pos) (srcOf write sector pos) n s t rc := by
  induction n generalizing s sector pos with
  | zero =>
    rw [retrySectors, ends_pure]
    exact .of_quiet (Quiet.refl s) (Or.inl rfl)
  | succ n ih =>
    simp only [retrySectors, ends_bind, ends_get]
    refine (retry_spec s.retries (hasRoom_mono hroom (by omega)) (by decide)).mono fun rc t ht => ?_
    refine ends_ite.2 ⟨?_, fun hne => ?_⟩
    · rintro rfl
      refine (ih ?_).mono fun rc u hu => ?_
      · rw [ht.kept.hasRoom, Nat.add_assoc, Nat.add_comm 1 n]
        exact hroom
      · rw [dstOf_add, srcOf_add] at hu
        rw [Nat.add_comm n 1]
        exact ht.append hu
    · rw [ends_pure]
      exact ht.fail (by omega) (ht.rc_cases.resolve_left hne)

/-- How a transfer may stop: the memory ends before `top`. -/
def Overruns (s : State) (top : Nat) (place : Place) (e : Exit) : Prop :=
  e = .mismatch ∨ e = .fault ∧ s.hasRoom top place = false

theorem rwCommand_spec :
    Ends (Overruns s (pos + cnt) place) (rwCommand dev sector cnt place pos write) s fun rc t =>
      Moved dev place write (dstOf write sector pos) (srcOf write sector pos) cnt s t rc ∧
        s.hasRoom (pos + cnt) place = true := by
  cases hroom : s.hasRoom (pos + cnt) place with
  | false =>
    simp only [rwCommand, ataRwChunk, ends_bind, ends_get, hroom, Bool.false_eq_true, if_false,
      ends_throw]
    exact Or.inr ⟨rfl, hroom⟩
  | true =>
    suffices h : Ends OutOfScript (rwCommand dev sector cnt place pos write) s fun rc t =>
        Moved dev place write (dstOf write sector pos) (srcOf write sector pos) cnt s t rc from
      (h.mono fun rc t ht => ⟨ht, rfl⟩).faults fun e he => Or.inl he
    simp only [rwCommand, ends_bind, ends_get]
    refine (ataRwChunk_spec dev hroom).mono fun rc t ht => ?_
    refine ((silent_resetAfter dev rc).ends t (Nat.zero_le _)).mono fun _ u hu => ?_
    have hmoved := ht.quiet hu
    refine ends_ite.2 ⟨fun _ => ?_, fun _ => (ends_pure _).2 hmoved⟩
    refine (retrySectors_spec cnt (by rw [hmoved.kept.hasRoom]; exact hroom)).mono fun rc' v hv => ?_
    exact hmoved.again hv

theorem Moved.rc_eq {dst src : Nat} {rc : Rc} (h : Moved dev place write dst src cnt s t rc)
    (he : isErr rc ≠ true) : rc = 0 :=
  h.rc_cases.resolve_right he

theorem Overruns.mono {e : Exit} (h : Overruns t a place e) (hroom : t.hasRoom a place = s.hasRoom a place)
    (hle : a ≤ b) : Overruns s b place e := by
  rcases h with rfl | ⟨rfl, h⟩
  · exact Or.inl rfl
  · refine Or.inr ⟨rfl, ?_⟩
    rw [hroom] at h
    by_contra hnot
    rw [hasRoom_mono (by simpa using hnot) hle] at h
    cases h

theorem rwCommands_spec (n : Nat) (hn : count ≤ n) :
    Ends (Overruns s (pos + count) place) (rwCommands dev place write n sector count pos) s
      fun rc t => Moved dev place write (dstOf write sector pos) (srcOf write sector pos) count s t rc ∧
        (rc = 0 → 0 < count → s.hasRoom (pos + count) place = true) := by
  induction n generalizing s sector count pos with
  | zero =>
    obtain rfl : count = 0 := by omega
    rw [rwCommands, ends_pure]
    exact ⟨.of_quiet (Quiet.refl s) (Or.inl rfl), fun _ h => absurd h (Nat.lt_irrefl 0)⟩
  | succ n ih =>
    rw [rwCommands]
    refine ends_ite.2 ⟨?_, fun hne => ?_⟩
    · rintro rfl
      rw [ends_pure]
      exact ⟨.of_quiet (Quiet.refl s) (Or.inl rfl), fun _ h => absurd h (Nat.lt_irrefl 0)⟩
    simp only [passRc, ends_bind, ends_get]
    generalize hcnt : min (if s.lba48 = true then 8192 else 32) count = cnt
    have hpos : 0 < cnt ∧ cnt ≤ count := by
      subst hcnt
      split <;> omega
    refine (rwCommand_spec.faults fun e he => he.mono rfl (by omega)).mono ?_
    rintro rc t ⟨ht, hroom⟩
    refine ends_ite.2 ⟨fun he => ?_, fun he => ?_⟩
    · rw [ends_pure]
      refine ⟨ht.fail hpos.2 (isErr_errRc _), fun h0 => ?_⟩
      have herr := isErr_errRc (rc <<< 2 ||| 2)
      rw [h0] at herr
      cases herr
    · obtain rfl := ht.rc_eq he
      have hrest : Ends (Overruns t (pos + cnt + (count - cnt)) place)
          (rwCommands dev place write n (sector + cnt) (count - cnt) (pos + cnt)) t _ :=
        ih (by omega)
      rw [show pos + cnt + (count - cnt) = pos + count by omega] at hrest
      refine (hrest.faults fun e he => he.mono (ht.kept.hasRoom _ _) le_rfl).mono ?_
      rintro rc u ⟨hu, hroom'⟩
      rw [dstOf_add, srcOf_add] at hu
      have hall := ht.append hu
      rw [show cnt + (count - cnt) = count by omega] at hall
      refine ⟨hall, fun h0 _ => ?_⟩
      rcases Nat.lt_or_ge cnt count with hlt | hge
      · rw [← ht.kept.hasRoom]
        exact hroom' h0 (by omega)
      · rwa [show cnt = count by omega] at hroom

/-- What a transfer of physical sectors does when there is no error. -/
structure Fitting (s : State) (sector count : Nat) (place : Place) (pos : Nat) : Prop where
  disk : sector + count ≤ s.totalSectors
  room : 0 < count → s.hasRoom (pos + count) place = true

/-- A transfer of physical sectors moves all of them, or fails. -/
theorem ataRwSectorsInternal_spec (dev : Device) (s : State) (sector count : Nat) (place : Place)
    (pos : Nat) (write : Bool) :
    Ends (Overruns s (pos + count) place) (ataRwSectorsInternal dev sector count place pos write) s
      fun rc t => Moved dev place write (dstOf write sector pos) (srcOf write sector pos) count s t rc ∧
        (rc = 0 → Fitting s sector count place pos) := by
  have hzero : ∀ {t} {rc : Rc}, Quiet dev 0 s t → isErr rc = true →
      Moved dev place write (dstOf write sector pos) (srcOf write sector pos) count s t rc ∧
        (rc = 0 → Fitting s sector count place pos) := by
    intro t rc ht he
    refine ⟨(Moved.of_quiet ht (Or.inr he)).fail (Nat.zero_le _) he, ?_⟩
    rintro rfl
    cases he
  simp only [ataRwSectorsInternal, passRc, ends_bind, ends_get]
  refine ends_ite.2 ⟨fun _ => ?_, fun hdisk => ?_⟩
  · rw [ends_pure]
    exact hzero (Quiet.refl s) (isErr_errRc _)
  rw [ends_bind]
  refine (((silent_powerUpIfOff (by decide)).ends s (Nat.zero_le _)).faults
    fun e he => Or.inl he).mono fun rc t ht => ?_
  refine ends_ite.2 ⟨fun _ => ?_, fun _ => ?_⟩
  · rw [ends_pure]
    exact hzero ht (isErr_errRc _)
  · have h0 : Moved dev place write (dstOf write sector pos) (srcOf write sector pos) 0 s t 0 :=
      .of_quiet ht (Or.inl rfl)
    refine ((rwCommands_spec count le_rfl).faults
      fun e he => he.mono (h0.kept.hasRoom _ _) le_rfl).mono ?_
    rintro rc u ⟨hu, hroom⟩
    have hall := h0.append hu
    rw [Nat.zero_add] at hall
    refine ⟨hall, fun hrc => ⟨by omega, fun hpos => ?_⟩⟩
    rw [← h0.kept.hasRoom]
    exact hroom hrc hpos

end

/-! ## Virtual sectors -/

/-- The data that a transfer may change. -/
structure Data where
  medium : Nat → Sector
  buffer : Nat → Sector

def State.data (s : State) : Data := ⟨s.medium, s.mem .user⟩

/-- Where a virtual sector is: `ata_bbt_translate` for it alone. -/
def State.physical (s : State) (sector : Nat) : Option Nat :=
  match s.bbt with
  | none => some sector
  | some b => (Bbt.ataBbtTranslate (s.table b) sector 1).map Prod.fst

/-- The transfer of one sector. -/
def Data.move (d : Data) (write : Bool) (phys pos : Nat) : Data :=
  if write then { d with medium := Function.update d.medium phys (d.buffer pos) }
  else { d with buffer := Function.update d.buffer pos (d.medium phys) }

/-- `count` transfers of one sector each. -/
@[grind =] def Data.moveEach (physical : Nat → Option Nat) (write : Bool) : Nat → Nat → Nat → Data → Option Data
  | 0, _, _, d => some d
  | count + 1, sector, pos, d => do
    let phys ← physical sector
    moveEach physical write count (sector + 1) (pos + 1) (d.move write phys pos)

/-- A transfer of `count` sectors at once. -/
def Data.moveRange (d : Data) (write : Bool) (phys pos count : Nat) : Data :=
  if write then { d with medium := splice d.medium phys count fun x => d.buffer (pos + (x - phys)) }
  else { d with buffer := splice d.buffer pos count fun x => d.medium (phys + (x - pos)) }

section

variable {physical : Nat → Option Nat} {write : Bool} {sector count pos phys a b : Nat} {d : Data}

theorem splice_succ (f g : Nat → Sector) (at_ n : Nat) :
    splice (Function.update f at_ (g at_)) (at_ + 1) n g = splice f at_ (n + 1) g := by
  funext x
  unfold splice
  rcases Nat.lt_trichotomy x at_ with hlt | rfl | hgt
  · rw [if_neg (by omega), if_neg (by omega), Function.update_of_ne (by omega)]
  · rw [if_neg (by omega), if_pos (by omega), Function.update_self]
  · rw [Function.update_of_ne (by omega)]
    by_cases hin : x < at_ + 1 + n
    · rw [if_pos (by omega), if_pos (by omega)]
    · rw [if_neg (by omega), if_neg (by omega)]

theorem splice_congr {f g g' : Nat → Sector} {at_ n : Nat}
    (h : ∀ x, at_ ≤ x → x < at_ + n → g x = g' x) : splice f at_ n g = splice f at_ n g' := by
  funext x
  unfold splice
  split
  · rename_i hin
    exact h x hin.1 hin.2
  · rfl

namespace Data

theorem move_moveRange (d : Data) :
    (d.move write phys pos).moveRange write (phys + 1) (pos + 1) count =
      d.moveRange write phys pos (count + 1) := by
  cases write with
  | true =>
    simp only [move, moveRange, if_true, mk.injEq, and_true]
    have hsucc := splice_succ d.medium (fun x => d.buffer (pos + (x - phys))) phys count
    rw [Nat.sub_self, Nat.add_zero] at hsucc
    rw [← hsucc]
    refine splice_congr fun x hx _ => ?_
    rw [show pos + 1 + (x - (phys + 1)) = pos + (x - phys) by omega]
  | false =>
    simp only [move, moveRange, Bool.false_eq_true, if_false, mk.injEq, true_and]
    have hsucc := splice_succ d.buffer (fun x => d.medium (phys + (x - pos))) pos count
    rw [Nat.sub_self, Nat.add_zero] at hsucc
    rw [← hsucc]
    refine splice_congr fun x hx _ => ?_
    rw [show phys + 1 + (x - (pos + 1)) = phys + (x - pos) by omega]

/-- Sectors that are next to each other can be transferred at once. -/
theorem moveEach_run (h : ∀ i < count, physical (sector + i) = some (phys + i)) :
    moveEach physical write count sector pos d = some (d.moveRange write phys pos count) := by
  induction count generalizing sector phys pos d with
  | zero =>
    have hnone : ∀ (f g : Nat → Sector) (x : Nat), splice f x 0 g = f := fun f g x => by
      funext y
      exact if_neg (by omega)
    cases write <;> simp [moveEach, moveRange, hnone]
  | succ count ih =>
    have hfirst : physical sector = some phys := h 0 (by omega)
    rw [moveEach, hfirst, Option.bind_eq_bind, Option.bind_some]
    have hrest : ∀ i < count, physical (sector + 1 + i) = some (phys + 1 + i) := by
      intro i hi
      have hnext := h (i + 1) (by omega)
      rwa [show sector + (i + 1) = sector + 1 + i by omega,
        show phys + (i + 1) = phys + 1 + i by omega] at hnext
    rw [ih hrest, move_moveRange]

theorem moveEach_add (d : Data) : moveEach physical write (a + b) sector pos d =
    (moveEach physical write a sector pos d).bind
      (moveEach physical write b (sector + a) (pos + a)) := by
  induction a generalizing sector pos d with
  | zero =>
    rw [Nat.zero_add]
    rfl
  | succ a ih =>
    rw [show a + 1 + b = a + b + 1 by omega, moveEach, moveEach]
    cases physical sector with
    | none => rfl
    | some phys =>
      simp only [Option.bind_eq_bind, Option.bind_some]
      rw [ih, show sector + 1 + a = sector + (a + 1) by omega, show pos + 1 + a = pos + (a + 1) by omega]

end Data

end

/-- A transfer of virtual sectors that returns `rc`. -/
structure Served (dev : Device) (write : Bool) (sector count pos : Nat) (s t : State) (rc : Rc) :
    Prop where
  kept : Kept dev s t
  rc_cases : rc = 0 ∨ isErr rc = true
  done : rc = 0 → s.data.moveEach s.physical write count sector pos = some t.data
  medium : ∀ x, (write = true → ∀ i < count, s.physical (sector + i) ≠ some x) →
    t.medium x = s.medium x
  buffer : ∀ x, (write = false → x < pos ∨ pos + count ≤ x) → t.mem .user x = s.mem .user x
  mem : ∀ p, p ≠ .user → t.mem p = s.mem p

/-- How a transfer may stop: a sector is nowhere in the table. -/
def Unmapped (s : State) (sector count : Nat) (e : Exit) : Prop :=
  e = .mismatch ∨ e = .fault ∧ ∃ i < count, s.physical (sector + i) = none

section

variable {write : Bool} {sector count pos phys a b : Nat} {rc : Rc} {e : Exit}

theorem physical_congr (h : Kept dev s t) (hmem : t.mem .table = s.mem .table) :
    t.physical = s.physical := by
  funext x
  simp only [State.physical, h.bbt, State.table, h.virtualSectors, hmem]

theorem OutOfScript.unmapped (h : OutOfScript e) : Unmapped s sector count e := Or.inl h

theorem Overruns.unmapped {top : Nat} (h : Overruns t top .user e) : Unmapped s sector count e := by
  rcases h with rfl | ⟨-, hroom⟩
  · exact Or.inl rfl
  · cases hroom

namespace Served

theorem physical (h : Served dev write sector count pos s t rc) : t.physical = s.physical :=
  physical_congr h.kept (h.mem .table (by decide))

theorem of_quiet (h : Quiet dev 0 s t) (hrc : rc = 0 ∨ isErr rc = true) :
    Served dev write sector 0 pos s t rc where
  kept := h.kept
  rc_cases := hrc
  done _ := by rw [Data.moveEach, State.data, State.data, h.medium, h.mem]
  medium x _ := by rw [h.medium]
  buffer x _ := by rw [h.mem]
  mem p _ := by rw [h.mem]

theorem of_moved (h : Moved dev .user write (dstOf write phys pos) (srcOf write phys pos) count s t rc)
    (hrun : ∀ i < count, s.physical (sector + i) = some (phys + i)) :
    Served dev write sector count pos s t rc := by
  have hcopied := h.copied
  have hout := hcopied.outside
  refine ⟨h.kept, h.rc_cases, fun h0 => ?_, fun x hx => ?_, fun x hx => ?_,
    fun p hp => hcopied.mem p (Or.inr hp)⟩
  · have hin := hcopied.inside h0
    rw [Data.moveEach_run hrun]
    cases write with
    | true =>
      simp only [dstOf, srcOf, State.target, State.source, if_true] at hout hin
      simp only [Data.moveRange, if_true, State.data, Option.some.injEq, Data.mk.injEq]
      refine ⟨?_, (hcopied.mem _ (Or.inl rfl)).symm⟩
      funext x
      unfold splice
      split
      · have := hin (x - phys) (by omega)
        rwa [show phys + (x - phys) = x by omega, eq_comm] at this
      · exact (hout x (by omega)).symm
    | false =>
      simp only [dstOf, srcOf, State.target, State.source, Bool.false_eq_true, if_false] at hout hin
      simp only [Data.moveRange, Bool.false_eq_true, if_false, State.data, Option.some.injEq,
        Data.mk.injEq]
      refine ⟨(hcopied.medium rfl).symm, ?_⟩
      funext x
      unfold splice
      split
      · have := hin (x - pos) (by omega)
        rwa [show pos + (x - pos) = x by omega, eq_comm] at this
      · exact (hout x (by omega)).symm
  · cases write with
    | true =>
      refine hout x ?_
      by_contra hnot
      simp only [dstOf, if_true] at hnot
      refine hx rfl (x - phys) (by omega) ?_
      rw [hrun _ (by omega), show phys + (x - phys) = x by omega]
    | false => rw [hcopied.medium rfl]
  · cases write with
    | true => rw [hcopied.mem _ (Or.inl rfl)]
    | false => exact hout x (hx rfl)

theorem append (h : Served dev write sector a pos s t 0)
    (h' : Served dev write (sector + a) b (pos + a) t u rc) :
    Served dev write sector (a + b) pos s u rc where
  kept := h.kept.trans h'.kept
  rc_cases := h'.rc_cases
  done h0 := by
    have hrest := h'.done h0
    rw [h.physical] at hrest
    rw [Data.moveEach_add, h.done rfl, Option.bind_some, hrest]
  medium x hx := by
    rw [h'.medium x, h.medium x]
    · exact fun hw i hi => hx hw i (by omega)
    · intro hw i hi
      have := hx hw (a + i) (by omega)
      rwa [h.physical, Nat.add_assoc]
  buffer x hx := by
    rw [h'.buffer x, h.buffer x]
    · intro hw
      have := hx hw
      omega
    · intro hw
      have := hx hw
      omega
  mem p hp := (h'.mem p hp).trans (h.mem p hp)

theorem fail {rc' : Rc} (h : Served dev write sector a pos s t rc) (hle : a ≤ b)
    (herr : isErr rc' = true) : Served dev write sector b pos s t rc' where
  kept := h.kept
  rc_cases := Or.inr herr
  done h0 := by
    rw [h0] at herr
    cases herr
  medium x hx := h.medium x fun hw i hi => hx hw i (by omega)
  buffer x hx := h.buffer x fun hw => by
    have := hx hw
    omega
  mem := h.mem

end Served

/-- What translation returns for `count` sectors from `sector` on: `n` of them are at `phys` and
behind it. -/
structure IsRun (s : State) (sector count phys n : Nat) : Prop where
  pos : 0 < n
  le : n ≤ count
  single : ∀ i < n, s.physical (sector + i) = some (phys + i)

theorem ataBbtTranslate_spec (hlive : s.bbt.all (·.live)) (h0 : 0 < count)
    (hs : sector + count ≤ s.virtualSectors) :
    Ends (Unmapped s sector count) (ataBbtTranslate sector count) s fun r t =>
      t = s ∧ ∃ phys n, r = some (phys, n) ∧ IsRun s sector count phys n := by
  simp only [ataBbtTranslate, ends_bind, ends_get, if_neg (Nat.not_lt.2 hs)]
  cases hb : s.bbt with
  | none =>
    rw [ends_pure]
    exact ⟨rfl, sector, count, rfl, h0, le_rfl, fun i _ => by simp only [State.physical, hb]⟩
  | some b =>
    have hb' : b.live = true := by simpa [hb] using hlive
    have hphys : ∀ x, s.physical x = (Bbt.ataBbtTranslate (s.table b) x 1).map Prod.fst :=
      fun x => by simp only [State.physical, hb]
    simp only [hb', if_true]
    cases hr : Bbt.ataBbtTranslate (s.table b) sector count with
    | none =>
      rw [ends_throw]
      obtain ⟨i, hi, hnone⟩ := Bbt.translate_none hr h0 hs
      exact Or.inr ⟨rfl, i, hi, by rw [hphys, hnone, Option.map_none]⟩
    | some r =>
      rw [ends_pure]
      have hrun := Bbt.translate_isRun (show _ = some (r.1, r.2) from hr) h0
      refine ⟨rfl, r.1, r.2, rfl, hrun.pos, hrun.le, fun i hi => ?_⟩
      rw [hphys, hrun.single i hi, Option.map_some]

theorem Unmapped.append (h : Unmapped t (sector + a) b e) (hle : a + b ≤ count)
    (hphys : t.physical = s.physical) : Unmapped s sector count e := by
  rw [Unmapped, hphys] at h
  rcases h with rfl | ⟨rfl, i, hi, hnone⟩
  · exact Or.inl rfl
  · exact Or.inr ⟨rfl, a + i, by omega, by rwa [← Nat.add_assoc]⟩

theorem rwRuns_spec (n : Nat) (hn : count ≤ n) (hlive : s.bbt.all (·.live))
    (hs : sector + count ≤ s.virtualSectors) :
    Ends (Unmapped s sector count) (rwRuns dev write n sector count pos) s fun rc t =>
      Served dev write sector count pos s t rc := by
  induction n generalizing s sector count pos with
  | zero =>
    obtain rfl : count = 0 := by omega
    rw [rwRuns, ends_pure]
    exact .of_quiet (Quiet.refl s) (Or.inl rfl)
  | succ n ih =>
    rw [rwRuns]
    refine ends_ite.2 ⟨?_, fun hne => ?_⟩
    · rintro rfl
      rw [ends_pure]
      exact .of_quiet (Quiet.refl s) (Or.inl rfl)
    rw [ends_bind]
    refine (ataBbtTranslate_spec hlive (by omega) hs).mono ?_
    rintro r t ⟨rfl, phys, cnt, rfl, hpos, hle, hrun⟩
    simp only [ends_bind, ends_get, passRc]
    refine (((silent_resetIf dev _).ends t (Nat.zero_le _)).faults
      fun _ he => OutOfScript.unmapped he).mono fun _ u hu => ?_
    rw [ends_modify]
    -- the offset and the last sector are for the next transfer
    generalize hv : ({ u with lastOffset := _, lastPhys := _ } : State) = v
    have hv0 : Quiet dev 0 t v := by
      subst hv
      exact { hu with }
    have hphys : v.physical = t.physical := physical_congr hv0.kept (by rw [hv0.mem])
    refine ((ataRwSectorsInternal_spec dev v phys cnt .user pos write).faults
      fun _ he => he.unmapped).mono fun rc w hmoved => ?_
    have hw := hmoved.1
    have hrun' : ∀ i < cnt, v.physical (sector + i) = some (phys + i) := by
      rw [hphys]
      exact hrun
    have hserved : Served dev write sector cnt pos t w rc := by
      have h0 : Served dev write sector 0 pos t v 0 := .of_quiet hv0 (Or.inl rfl)
      have hall := h0.append (Served.of_moved hw hrun')
      rwa [Nat.zero_add] at hall
    refine ends_ite.2 ⟨fun _ => ?_, fun he => ?_⟩
    · rw [ends_pure]
      exact hserved.fail hle (isErr_errRc _)
    · obtain rfl := hserved.rc_cases.resolve_right he
      have hlive' : w.bbt.all (·.live) = true := by rwa [hserved.kept.bbt]
      have hs' : sector + cnt + (count - cnt) ≤ w.virtualSectors := by
        rw [hserved.kept.virtualSectors]
        omega
      refine ((ih (by omega) hlive' hs').faults fun e he => ?_).mono fun rc x hx => ?_
      · exact he.append (by omega) hserved.physical
      · have hall := hserved.append hx
        rwa [show cnt + (count - cnt) = count by omega] at hall

/-! ## Requests -/

/-- A transfer of virtual sectors does what transfers of its sectors one by one would do, whichever
commands it needs; and translation returns runs. -/
theorem ataRwSectors_translated (dev : Device) (hlive : s.bbt.all (·.live)) (sector count : Nat) :
    (∀ write, Ends (Unmapped s sector count) (ataRwSectors dev sector count write) s fun rc t =>
      Served dev write sector count 0 s t rc) ∧
    (0 < count → sector + count ≤ s.virtualSectors →
      Ends (Unmapped s sector count) (ataBbtTranslate sector count) s fun r t =>
        t = s ∧ ∃ phys n, r = some (phys, n) ∧ IsRun s sector count phys n) := by
  refine ⟨fun write => ?_, fun h0 hs => ataBbtTranslate_spec hlive h0 hs⟩
  simp only [ataRwSectors, ends_bind, ends_get]
  refine ends_ite.2 ⟨fun _ => ?_, fun hs => ?_⟩
  · rw [ends_pure]
    have h0 : Served dev write sector 0 0 s s (errRc 0) :=
      .of_quiet (Quiet.refl s) (Or.inr (isErr_errRc _))
    exact h0.fail (Nat.zero_le _) (isErr_errRc _)
  refine ends_ite.2 ⟨fun _ => rwRuns_spec count le_rfl hlive (by omega), fun hb => ?_⟩
  have hphys : ∀ i < count, s.physical (sector + i) = some (sector + i) := by
    intro i _
    cases hbbt : s.bbt with
    | none => simp only [State.physical, hbbt]
    | some b => simp [hbbt] at hb
  simp only [passRc, ends_bind]
  refine ((ataRwSectorsInternal_spec dev s sector count .user 0 write).faults
    fun _ he => he.unmapped).mono fun rc t ht => ?_
  have hserved := Served.of_moved ht.1 hphys
  refine ends_ite.2 ⟨fun _ => ?_, fun he => ?_⟩
  · rw [ends_pure]
    exact hserved.fail le_rfl (isErr_errRc _)
  · rw [ends_pure]
    obtain rfl := hserved.rc_cases.resolve_right he
    exact hserved

/-- Four virtual sectors that are five sectors behind; the hardware reads two of them one by one. -/
def shifted : State :=
  { fresh [⟨.rwChunk 6 2 false, { ok := false }⟩, ⟨.rwChunk 6 1 false, { ok := true }⟩,
      ⟨.rwChunk 7 1 false, { ok := true }⟩] with
    powered := true
    totalSectors := 9
    virtualSectors := 4
    lastOffset := 5
    errorSrst := false
    bbt := some ⟨true, [9]⟩
    mem := fun p x k => if p = .table ∧ x = 0 ∧ k = 0 then 5 else 0 }

theorem shifted_read :
    ∃ t, (ataRwSectors pata 1 2 false).run shifted = .ok (0, t) ∧
      shifted.data.moveEach shifted.physical false 2 1 0 = some t.data ∧
      (ataBbtTranslate 1 2).run shifted = .ok (some (6, 2), shifted) ∧
      IsRun shifted 1 2 6 2 := by
  have hall := ataRwSectors_translated (s := shifted) pata rfl 1 2
  have hrun : (ataBbtTranslate 1 2).run shifted = .ok (some (6, 2), shifted) := rfl
  have hrc : ((ataRwSectors pata 1 2 false).run shifted).toOption.map Prod.fst = some 0 := by
    decide
  cases hread : (ataRwSectors pata 1 2 false).run shifted with
  | error e => simp [hread, Except.toOption] at hrc
  | ok r =>
    obtain ⟨rc, t⟩ := r
    obtain rfl : rc = 0 := by simpa [hread, Except.toOption] using hrc
    refine ⟨t, rfl, ((hall.1 false).ok hread).done rfl, hrun, ?_⟩
    obtain ⟨-, phys, n, heq, hn⟩ := (hall.2 (by decide) (by decide)).ok hrun
    cases heq
    exact hn

/-- A request for no sectors gets a run of none. -/
theorem translate_nothing :
    ¬ ∀ (s : State) (sector count : Nat), s.bbt.all (·.live) → sector + count ≤ s.virtualSectors →
      Ends (Unmapped s sector count) (ataBbtTranslate sector count) s fun r t =>
        t = s ∧ ∃ phys n, r = some (phys, n) ∧ IsRun s sector count phys n := by
  intro h
  obtain ⟨-, phys, n, heq, hn⟩ := (h shifted 0 0 rfl (by decide)).ok (a := some (0, 0)) rfl
  have hpos := hn.pos
  have hle := hn.le
  omega

end

end Ata
end Freemyipod
