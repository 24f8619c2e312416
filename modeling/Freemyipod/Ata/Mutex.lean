import Freemyipod.Ata.Model

/-!
# Ata.Mutex

How often the calling thread holds `ata_mutex`. A function that fails through `PASS_RC` while it
holds the mutex returns without unlocking it. `held_after_call` counts these failures.
-/

namespace Freemyipod
namespace Ata

open Effect

/-- If the step fails, the function returns through `PASS_RC` with the mutex locked. -/
def Caller.leaks : Caller → Bool
  | .resetAgain | .rwSectors => false
  | _ => true

def Step.leaks : Step → Bool
  | .mmcInit c | .ceataInit c | .identify c | .setFeature c _ _ => c.leaks
  | _ => false

def Entry.leaks (e : Entry) : Bool := !e.answer.ok && e.step.leaks

/-- The locks held, and those that the rest of the script is going to leave behind. -/
@[grind =] def State.account (s : State) : Int := s.held + s.script.countP Entry.leaks

/-- `p` changes the account by `d`. -/
structure Delta {α : Type} (d : Int) (p : M α) : Prop where
  ends : ∀ s, Ends (fun _ => True) p s fun _ t => t.account = s.account + d

/-- If `p` returns an error, it takes `n` off the account, and else nothing. -/
structure Costs (n : Int) (p : M Rc) : Prop where
  ends : ∀ s, Ends (fun _ => True) p s fun rc t => t.account = s.account - if isErr rc then n else 0

variable {α β : Type} {d d' n : Int} {dev : Device}

theorem delta_pure (a : α) : Delta 0 (pure a : M α) := by
  constructor
  intro s
  simp

theorem delta_throw (e : Exit) : Delta d (throw e : M α) := by
  constructor
  intro s
  simp

theorem Delta.bind {p : M α} {f : α → M β} (hp : Delta d p) (hf : ∀ a, Delta d' (f a)) :
    Delta (d + d') (p >>= f) := by
  constructor
  intro s
  rw [ends_bind]
  refine (hp.ends s).mono fun a t ht => ((hf a).ends t).mono fun b u hu => ?_
  rw [hu, ht]
  omega

theorem Delta.seq {p : M α} {f : α → M β} (hp : Delta 0 p) (hf : ∀ a, Delta d (f a)) :
    Delta d (p >>= f) := by
  have h := hp.bind hf
  rwa [Int.zero_add] at h

theorem delta_get : Delta 0 (get : M State) := by
  constructor
  intro s
  simp

theorem delta_modify {f : State → State} (hh : ∀ s, (f s).held = s.held)
    (hs : ∀ s, (f s).script = s.script) : Delta 0 (modify f : M PUnit) := by
  constructor
  intro s
  simp [State.account, hh, hs]

theorem Delta.ite {c : Prop} [Decidable c] {p q : M α} (hp : Delta d p) (hq : Delta d q) :
    Delta d (if c then p else q) := by
  split
  · exact hp
  · exact hq

theorem Delta.locked {f : PUnit → M α} (hf : ∀ u, Delta (-1) (f u)) : Delta 0 (lock >>= f) := by
  have hlock : Delta 1 lock := by
    constructor
    intro s
    simp only [lock, ends_modify, State.account]
    omega
  exact hlock.bind hf

theorem delta_unlock : Delta (-1) unlock := by
  constructor
  intro s
  simp only [unlock, ends_bind, ends_get, ends_ite, ends_throw, ends_modify]
  refine ⟨fun _ => trivial, fun hs => ?_⟩
  simp only [State.account]
  omega

theorem delta_return (rc : Rc) : Delta (-1) (do
    unlock
    pure rc) :=
  delta_unlock.bind fun _ => delta_pure rc

/-! ## Steps -/

/-- A step that fails and leaves a lock behind is taken off the script. -/
theorem ask_account (step : Step) (s : State) :
    Ends (fun _ => True) (ask step) s fun a t =>
      t.account = s.account - if !a.ok && step.leaks then 1 else 0 := by
  simp only [ask, ends_bind, ends_get]
  cases hs : s.script with
  | nil => simp
  | cons e script =>
    simp only [ends_ite, ends_bind, ends_modify, ends_pure, ends_throw]
    refine ⟨?_, fun _ => trivial⟩
    rintro rfl
    have hleaks : (!e.answer.ok && e.step.leaks) = e.leaks := rfl
    rw [State.account, State.account, hs, List.countP_cons, hleaks]
    split <;> push_cast <;> omega

theorem Answer.isErr_rc (a : Answer) : isErr a.rc = !a.ok := by
  unfold Answer.rc
  cases a.ok with
  | true => simp [isErr]
  | false => exact isErr_errRc _

theorem delta_ask {step : Step} (h : step.leaks = false) : Delta 0 (ask step) := by
  constructor
  intro s
  refine (ask_account step s).mono fun a t ht => ?_
  simpa [h] using ht

theorem costs_perform (step : Step) : Costs (if step.leaks then 1 else 0) (perform step) := by
  constructor
  intro s
  simp only [perform, ends_bind, ends_pure]
  refine (ask_account step s).mono fun a t ht => ?_
  rw [ht, a.isErr_rc]
  cases a.ok <;> cases step.leaks <;> rfl

theorem delta_perform {step : Step} (h : step.leaks = false) : Delta 0 (perform step) :=
  (delta_ask h).seq fun _ => delta_pure _

theorem costs_zero : Costs n (pure 0) := by
  constructor
  intro s
  simp [isErr]

theorem Delta.costs {p : M Rc} (h : Delta 0 p) : Costs 0 p := by
  constructor
  intro s
  refine (h.ends s).mono fun rc t ht => ?_
  rw [ht]
  simp

theorem Costs.ite {c : Prop} [Decidable c] {p q : M Rc} (hp : Costs n p) (hq : Costs n q) :
    Costs n (if c then p else q) := by
  split
  · exact hp
  · exact hq

theorem Costs.after {p : M α} {f : α → M Rc} (hp : Delta 0 p) (hf : ∀ a, Costs n (f a)) :
    Costs n (p >>= f) := by
  constructor
  intro s
  rw [ends_bind]
  refine (hp.ends s).mono fun a t ht => ((hf a).ends t).mono fun rc u hu => ?_
  rw [hu, ht]
  omega

theorem Costs.passRc {p k : M Rc} {bits : Nat} {val : Rc} (hp : Costs n p) (hk : Costs n k) :
    Costs n (passRc p bits val k) := by
  constructor
  intro s
  simp only [Ata.passRc, ends_bind]
  refine (hp.ends s).mono fun rc t ht => ends_ite.2 ⟨fun he => ?_, fun he => ?_⟩
  · rw [ends_pure, ht, isErr_errRc, if_pos he, if_pos rfl]
  · refine (hk.ends t).mono fun rc' u hu => ?_
    rw [hu, ht, if_neg he]
    omega

/-- A function that fails through `PASS_RC` leaves what it has locked. -/
theorem Delta.passRc {p k : M Rc} {bits : Nat} {val : Rc} (hp : Costs n p) (hk : Delta (-n) k) :
    Delta (-n) (passRc p bits val k) := by
  constructor
  intro s
  simp only [Ata.passRc, ends_bind]
  refine (hp.ends s).mono fun rc t ht => ends_ite.2 ⟨fun he => ?_, fun he => ?_⟩
  · rw [ends_pure, ht, if_pos he]
    omega
  · refine (hk.ends t).mono fun rc' u hu => ?_
    rw [hu, ht, if_neg he]
    omega

/-- A function that fails through `PASS_RC_MTX` unlocks the mutex. -/
theorem Delta.passRcMtx {p k : M Rc} {bits : Nat} {val : Rc} (hp : Delta 0 p)
    (hk : Delta (-1) k) : Delta (-1) (passRcMtx p bits val k) :=
  hp.seq fun _ => .ite (delta_return _) hk

/-! ## Power and resets -/

/-- What a failure costs in a function that returns through `PASS_RC`. -/
def Caller.cost (c : Caller) : Int := if c.leaks then 1 else 0

theorem costs_configure (c : Caller) : Costs c.cost (configure dev c) := by
  refine .after delta_get fun s => ?_
  have hset : ∀ feature, Costs c.cost (perform (.setFeature c feature 0)) := fun feature =>
    costs_perform (.setFeature c feature 0)
  refine .passRc (.ite (hset _) costs_zero) (.passRc (.ite (hset _) costs_zero) ?_)
  exact .after (delta_modify (fun _ => rfl) fun _ => rfl) fun _ => costs_zero

theorem costs_ataPowerUp (c : Caller) : Costs c.cost (ataPowerUp dev c) := by
  have hset : ∀ b b', Delta 0 (modify fun s => { s with lba48 := b, dma := b' } : M PUnit) :=
    fun _ _ => delta_modify (fun _ => rfl) fun _ => rfl
  refine .ite (.after (hset true true) fun _ => ?_) ?_
  · exact .passRc (costs_perform (.mmcInit c)) (.passRc (costs_perform (.ceataInit c))
      (.passRc (costs_perform (.identify c)) (costs_configure c)))
  · refine .passRc (costs_perform (.identify c)) (.after (hset _ _) fun _ => ?_)
    exact .passRc (costs_perform (.setFeature c _ _)) (costs_configure c)

theorem costs_powerUpIfOff (c : Caller) : Costs c.cost (powerUpIfOff dev c) :=
  .after delta_get fun _ => .ite costs_zero (costs_ataPowerUp c)

/-- A power-up that does not leak, whatever it returns. -/
theorem delta_ataPowerUp {c : Caller} (h : c.leaks = false) : Delta 0 (ataPowerUp dev c) := by
  constructor
  intro s
  refine ((costs_ataPowerUp c).ends s).mono fun rc t ht => ?_
  simpa [Caller.cost, h] using ht

theorem delta_ataSoftReset : Delta 0 (ataSoftReset dev) := by
  have hrest : Delta (-1) (do
      let rc ← perform .softReset
      unlock
      passRc (pure rc) 1 1 <| pure 0) :=
    .seq (delta_perform rfl) fun rc => delta_unlock.bind fun _ =>
      Delta.passRc (n := 0) (Delta.costs (delta_pure rc)) (delta_pure 0)
  exact Delta.locked fun _ => .passRc (costs_powerUpIfOff .softReset) hrest

theorem delta_ataHardReset : Delta 0 (ataHardReset dev) :=
  Delta.locked fun _ => .passRc (costs_ataPowerUp .hardReset)
    (delta_return 0)

theorem delta_resetHarder : Delta 0 (resetHarder dev) := by
  have hdown : Delta 0 ataPowerDown := delta_modify (fun _ => rfl) fun _ => rfl
  refine delta_ataHardReset.seq fun rc => .ite ?_ (delta_pure 1)
  exact hdown.seq fun _ => (delta_ataPowerUp rfl).seq fun rc2 => delta_pure _

theorem delta_ataReset : Delta 0 (ataReset dev) := by
  refine Delta.locked fun _ => .passRc (costs_powerUpIfOff .reset) ?_
  exact delta_ataSoftReset.seq fun rc =>
    (Delta.ite delta_resetHarder (delta_pure rc)).seq fun rc => delta_return rc

/-! ## Raw commands -/

theorem delta_ataReadTaskfile : Delta 0 (ataReadTaskfile dev) := by
  have hcmd : ∀ f : RawCmd → RawCmd, Delta 0 (modify fun s => { s with cmd := f s.cmd } : M PUnit) :=
    fun _ => delta_modify (fun _ => rfl) fun _ => rfl
  refine Delta.locked fun _ => .passRc (costs_powerUpIfOff .readTaskfile) ?_
  refine (hcmd fun cmd => { cmd with resultValid := false }).seq fun _ =>
    .seq (delta_ask rfl) fun a => .passRcMtx (delta_pure _) ?_
  exact (hcmd fun cmd => cmd.result a.registers).seq fun _ => delta_return 0

theorem delta_pioTransfer (n : Nat) : Delta 0 (pioTransfer n) := by
  induction n with
  | zero => exact .seq (delta_modify (fun _ => rfl) fun _ => rfl) fun _ => delta_pure 0
  | succ n ih =>
    exact .seq (delta_modify (fun _ => rfl) fun _ => rfl) fun _ => .seq (delta_perform rfl) fun rc => .ite (delta_pure _) ih

theorem delta_rawPata : Delta 0 rawPata := by
  have hdma : Delta 0 dmaTransfer :=
    .seq (delta_perform rfl) fun rc => .ite (delta_pure _)
      (.seq (delta_perform rfl) fun rc => delta_pure _)
  refine delta_get.seq fun s => .ite ?_ (.seq (delta_perform rfl) fun rc => delta_pure _)
  refine (Delta.ite hdma (delta_pioTransfer _)).seq fun rc => .ite (delta_pure rc) ?_
  exact .seq (delta_perform rfl) fun rc => delta_pure _

theorem delta_rawCeata : Delta 0 (rawCeata dev) := by
  refine delta_get.seq fun s => (Delta.ite (delta_perform rfl) (delta_perform rfl)).seq fun rc => ?_
  exact delta_ataReadTaskfile.seq fun rc2 => delta_pure _

theorem delta_ataRawCmd : Delta 0 (ataRawCmd dev) := by
  have hcmd : Delta 0 (modify fun s =>
      { s with cmd := { s.cmd with resultValid := false } } : M PUnit) :=
    delta_modify (fun _ => rfl) fun _ => rfl
  refine Delta.locked fun _ => .passRc (costs_powerUpIfOff .rawCmd) ?_
  refine hcmd.seq fun _ => .ite ?_ ?_
  · exact .passRcMtx (delta_perform rfl) (.passRcMtx (delta_perform rfl)
      (delta_rawCeata.seq fun rc => delta_return rc))
  · exact .passRcMtx (delta_perform rfl)
      (delta_rawPata.seq fun rc => delta_ataReadTaskfile.seq fun _ => delta_return rc)

/-! ## Transfers -/

theorem delta_ataRwChunk (sector cnt : Nat) (place : Place) (pos : Nat) (write : Bool) :
    Delta 0 (ataRwChunk sector cnt place pos write) := by
  refine delta_get.seq fun s => .ite (.seq (delta_ask rfl) fun a => ?_) (delta_throw _)
  exact (delta_modify (fun s => by split <;> rfl) fun s => by split <;> rfl).seq
    fun _ => delta_pure a.rc

theorem delta_resetIf (c : Bool) : Delta 0 (resetIf dev c) :=
  .ite (delta_ataReset.seq fun _ => delta_pure ()) (delta_pure ())

theorem delta_resetAfter (rc : Rc) : Delta 0 (resetAfter dev rc) :=
  delta_get.seq fun _ => delta_resetIf _

theorem delta_retry (sect : Nat) (place : Place) (pos : Nat) (write : Bool) (n : Nat) (rc : Rc) :
    Delta 0 (retry dev sect place pos write n rc) := by
  induction n generalizing rc with
  | zero => exact delta_pure rc
  | succ n ih =>
    refine .ite (delta_pure rc) ((delta_ataRwChunk _ _ _ _ _).seq fun rc => ?_)
    exact (delta_resetAfter rc).seq fun _ => ih rc

theorem delta_retrySectors (place : Place) (write : Bool) (n sect pos : Nat) :
    Delta 0 (retrySectors dev place write n sect pos) := by
  induction n generalizing sect pos with
  | zero => exact delta_pure 0
  | succ n ih =>
    exact delta_get.seq fun s => (delta_retry _ _ _ _ _ _).seq fun rc => .ite (ih _ _) (delta_pure rc)

theorem delta_rwCommand (sector cnt : Nat) (place : Place) (pos : Nat) (write : Bool) :
    Delta 0 (rwCommand dev sector cnt place pos write) :=
  (delta_ataRwChunk _ _ _ _ _).seq fun rc => (delta_resetAfter rc).seq fun _ =>
    delta_get.seq fun _ => .ite (delta_retrySectors _ _ _ _ _) (delta_pure rc)

theorem delta_rwCommands (place : Place) (write : Bool) (n sector count pos : Nat) :
    Delta 0 (rwCommands dev place write n sector count pos) := by
  induction n generalizing sector count pos with
  | zero => exact delta_pure 0
  | succ n ih =>
    refine .ite (delta_pure 0) (delta_get.seq fun s => ?_)
    exact .passRc (Delta.costs (delta_rwCommand _ _ _ _ _)) (ih _ _ _)

theorem delta_ataRwSectorsInternal (sector count : Nat) (place : Place) (pos : Nat) (write : Bool) :
    Delta 0 (ataRwSectorsInternal dev sector count place pos write) :=
  delta_get.seq fun _ => .ite (delta_pure _)
    (.passRc (costs_powerUpIfOff .rwSectors) (delta_rwCommands _ _ _ _ _ _))

/-! ## The bad block table -/

theorem delta_ataBbtReadSectors (sector count : Nat) (place : Place) (pos : Nat) :
    Delta 0 (ataBbtReadSectors dev sector count place pos) := by
  refine delta_get.seq fun s => ?_
  refine (delta_resetIf _).seq fun _ => ?_
  refine (delta_ataRwSectorsInternal _ _ _ _ _).seq fun rc => ?_
  refine (Delta.ite (delta_ataRwSectorsInternal _ _ _ _ _) (delta_pure rc)).seq fun rc => ?_
  refine .seq (delta_modify (fun _ => rfl) fun _ => rfl) fun _ => .ite ?_ (delta_pure rc)
  exact .seq (delta_ask rfl) fun _ => delta_pure rc

theorem delta_ataBbtDisable : Delta 0 ataBbtDisable := by
  refine Delta.locked fun _ => delta_get.seq fun s => .ite ?_ (delta_throw _)
  exact .seq (delta_modify (fun _ => rfl) fun _ => rfl) fun _ => delta_unlock

theorem delta_headerWord (k : Nat) : Delta 0 (headerWord k) :=
  .ite (delta_get.seq fun _ => delta_pure _) (delta_throw _)

theorem delta_runLength (count i : Nat) (phys : BitVec 32) (n cnt : Nat) :
    Delta 0 (runLength count i phys n cnt) := by
  induction n generalizing cnt with
  | zero => exact delta_pure cnt
  | succ n ih =>
    exact .ite ((delta_headerWord _).seq fun w => .ite (delta_pure cnt) (ih _)) (delta_pure cnt)

theorem delta_loadRuns (count n i : Nat) : Delta 0 (loadRuns dev count n i) := by
  induction n generalizing i with
  | zero => exact delta_pure ()
  | succ n ih =>
    refine .ite ?_ (delta_pure ())
    refine (delta_headerWord _).seq fun phys => (delta_runLength _ _ _ _ _).seq fun cnt =>
      (delta_ataBbtReadSectors _ _ _ _).seq fun rc => .ite ?_ (ih _)
    exact delta_modify (fun _ => rfl) fun _ => rfl

theorem delta_loadTable : Delta 0 (loadTable dev) := by
  refine delta_get.seq fun s => ?_
  refine .seq (delta_modify (fun _ => rfl) fun _ => rfl) fun _ => .seq (delta_ask rfl) fun a => ?_
  refine .ite ?_ (delta_modify (fun _ => rfl) fun _ => rfl)
  exact .seq (delta_modify (fun _ => rfl) fun _ => rfl) fun _ => delta_loadRuns _ _ _

theorem delta_ataBbtReload : Delta 0 (ataBbtReload dev) := by
  have hnone : Delta (-1) (do
      modify fun s => { s with virtualSectors := s.totalSectors }
      unlock
      pure 0 : M Rc) :=
    .seq (delta_modify (fun _ => rfl) fun _ => rfl) fun _ => delta_return 0
  refine Delta.locked fun _ => delta_ataBbtDisable.seq fun _ =>
    .passRc (costs_ataPowerUp .bbtPowerUp) ?_
  refine .seq (delta_ask rfl) fun a => .ite ?_ hnone
  refine .seq (delta_modify (fun _ => rfl) fun _ => rfl) fun _ =>
    (delta_ataBbtReadSectors _ _ _ _).seq fun rc => delta_get.seq fun s => .ite hnone (.ite ?_ hnone)
  refine .passRc (.ite (costs_perform (.setFeature .bbtReload 0x02 0)) costs_zero) ?_
  exact delta_loadTable.seq fun _ => delta_return 0

/-! ## Calls -/

theorem delta_call (c : Call) : Delta 0 (call dev c) := by
  cases c with
  | softReset => exact delta_ataSoftReset
  | hardReset => exact delta_ataHardReset
  | reset => exact delta_ataReset
  | readTaskfile => exact delta_ataReadTaskfile
  | rawCmd => exact delta_ataRawCmd
  | bbtReload => exact delta_ataBbtReload

/-- From `s`, the call takes the steps of the script of `s`, one after the other. -/
def Plays (dev : Device) (c : Call) (s : State) (rc : Rc) (t : State) : Prop :=
  (call dev c).run s = .ok (rc, t) ∧ t.script = []

/-- A call leaves one lock behind for each failure through `PASS_RC`. -/
theorem held_after_call {c : Call} {s t : State} {rc : Rc} (h : Plays dev c s rc t) :
    t.held = s.held + s.script.countP Entry.leaks := by
  have hc := ((delta_call c).ends s).ok h.1
  simp only [State.account, h.2, List.countP_nil] at hc
  omega

/-- A call keeps the balance of the mutex exactly if no power-up of it fails, other than those of a
transfer and the last one of `ata_reset`, nor the command before the loading of a table. -/
theorem balanced_iff {c : Call} {s t : State} {rc : Rc} (h : Plays dev c s rc t) :
    t.held = s.held ↔ ∀ e ∈ s.script, e.leaks = false := by
  have hheld := held_after_call h
  have hzero : t.held = s.held ↔ s.script.countP Entry.leaks = 0 := by omega
  rw [hzero, List.countP_eq_zero]
  simp only [Bool.not_eq_true]

/-- A PATA disk of 16 sectors. -/
def pata : Device where
  ceata := false
  lba48 := true
  dma := true
  mode := 0x44
  totalSectors := 16
  writeCache := false
  lookahead := false

/-- `ata_init` has set its variables, and the hardware goes on with `script`. -/
def fresh (script : List Entry) : State where
  powered := false
  lba48 := false
  dma := false
  totalSectors := 0
  virtualSectors := 0
  bbt := none
  lastOffset := 0
  lastPhys := 0
  retries := 3
  errorSrst := true
  held := 0
  cmd := ⟨false, false, false, false, 0, 0, 0, 0, 0, 0, 0, 0, false⟩
  medium := fun _ _ => 0
  mem := fun _ _ _ => 0
  script

/-- A reset that goes well is balanced. -/
theorem hardReset_balanced :
    let s := fresh [⟨.identify .hardReset, { ok := true }⟩,
      ⟨.setFeature .hardReset 0x03 0x44, { ok := true }⟩]
    ∃ rc t, Plays pata .hardReset s rc t ∧
      (t.held = s.held ↔ ∀ e ∈ s.script, e.leaks = false) := by
  intro s
  have hplays : Plays pata .hardReset s _ _ := ⟨rfl, rfl⟩
  exact ⟨_, _, hplays, balanced_iff hplays⟩

/-- The disk does not identify itself, and `ata_hard_reset` returns with the mutex locked. -/
theorem hardReset_unbalanced :
    ¬ ∀ dev c s rc t, Plays dev c s rc t → t.held = s.held := by
  intro h
  have hplays : Plays pata .hardReset
      (fresh [⟨.identify .hardReset, { ok := false }⟩]) _ _ := ⟨rfl, rfl⟩
  exact absurd (h _ _ _ _ _ hplays) (by decide)

end Ata
end Freemyipod
