import Freemyipod.Fat.Slots

/-!
# Fat.Stable

What the threads that use the cache for the FAT can rely on while they take turns.

* `Inv`: the invariant of the cache, the threads and what they have stored.
* `stable_of_undisturbed`: threads that do not disturb each other access their own sectors, and a
  flush writes what they have stored.
-/

namespace Freemyipod
namespace Fat
namespace Caching

variable {b : Volume} {c c' : Cache} {i : Nat}

/-! ## Threads -/

/-- The sector that a thread may access: `cache_fat_sector` has returned, and `unlock_fat_sector` is
not done. -/
def Doing.sector (b : Volume) : Doing → Option Nat
  | .readLoad e | .readUnlock e _ | .updateLoad e _ | .updateAssign e _ | .updateAnd e _
  | .updateOr e _ | .updateUnlock e => some (b.sectorOf e)
  | .findLoad s i _ | .findUnlock s i _ => some (State.findSector b s i)
  | .idle | .readCache _ | .updateCache _ _ | .findCache _ _ | .flushLock | .flushSlot _ => none

/-- The entry that a thread is about to store to, in the sector that it has. -/
def Doing.storesTo : Doing → Option Nat
  | .updateLoad e _ | .updateAssign e _ | .updateAnd e _ | .updateOr e _ => some e
  | _ => none

/-- The sectors that it is about to access are in the FAT, and its stores are those for the kind of
FAT. -/
def Doing.Ok (b : Volume) : Doing → Prop
  | .readCache e | .readLoad e | .readUnlock e _ | .updateCache e _ | .updateLoad e _
  | .updateUnlock e => b.sectorOf e < b.fatsize
  | .updateAssign e _ => b.sectorOf e < b.fatsize ∧ b.isFat16 = true
  | .updateAnd e _ | .updateOr e _ => b.sectorOf e < b.fatsize ∧ b.isFat16 = false
  | .findCache _ _ | .findUnlock _ _ _ => 0 < b.fatsize
  | .findLoad _ _ _ => 0 < b.fatsize ∧ 0 < b.perSector
  | .idle | .flushLock | .flushSlot _ => True

/-- The entry that it is about to read in the sector that it has. -/
def Doing.reads (b : Volume) : Doing → Option Nat
  | .readLoad e | .updateLoad e _ | .updateAnd e _ | .updateOr e _ => some e
  | .findLoad s i j => some (State.findEntry b s i j)
  | _ => none

variable {T : Type} [DecidableEq T]

/-- No thread that has a sector loses it to sector `s`. -/
def State.FreeFor (b : Volume) (σ : State T) (s : Nat) : Prop :=
  ∀ t x, (σ.threads t).sector b = some x → Cache.index b x = Cache.index b s → x = s

/-- A step does not do what the code does not guard against: `cache_fat_sector` replaces no sector
that is locked, `flush_fat` writes no sector that is locked for a store still to come, and
`update_fat_entry` clears no entry that another one has cleared to set it. -/
def Undisturbed (b : Volume) (σ : State T) : Action T → Prop
  | .call _ _ => True
  | .step t _ =>
    match σ.threads t with
    | .readCache e | .updateCache e _ => σ.FreeFor b (b.sectorOf e)
    | .findCache s i => σ.FreeFor b (State.findSector b s i)
    | .updateAnd e _ => ∀ t' v, σ.threads t' ≠ .updateOr e v
    | .flushSlot i =>
      ∀ t' e, (σ.threads t').storesTo = some e → Cache.index b (b.sectorOf e) ≠ i
    | _ => True

/-- Calls are for entries of the FAT. -/
def Action.InFat (b : Volume) : Action T → Prop
  | .call _ c => c.InFat b
  | .step _ _ => True

/-- The value that the step stores in entry `e`. -/
def Output.storedIn (e : Nat) : Output → Option Nat
  | .stored e' v => if e' = e then some v else none
  | _ => none

/-- The value that `update_fat_entry` has stored in an entry last. -/
def lastStored (e : Nat) : List (State T × Action T × Output) → Option Nat
  | [] => none
  | (_, _, o) :: es => (lastStored e es).or (o.storedIn e)

/-! ## The invariant -/

/-- The cache, the threads, and what was stored so far. -/
structure Inv (b : Volume) (es : List (State T × Action T × Output)) (σ : State T) : Prop where
  ok : σ.cache.Ok b
  threads : ∀ t, (σ.threads t).Ok b
  holds : ∀ t s, (σ.threads t).sector b = some s → σ.cache.Holds b s
  pending : ∀ t e, (σ.threads t).storesTo = some e →
    (σ.cache.slots (Cache.index b (b.sectorOf e))).dirty = true
  alone : ∀ t t' e v v', σ.threads t = .updateOr e v → σ.threads t' = .updateOr e v' → t' = t
  cleared : ∀ t e v, σ.threads t = .updateOr e v →
    σ.cache.view b (b.sectorOf e) (b.offsetOf e) &&& b.bits = 0
  stored : ∀ e v, lastStored e es = some v → b.sectorOf e < b.fatsize ∧
    σ.cache.Safe b (b.sectorOf e) ∧ ((∀ t w, σ.threads t ≠ .updateOr e w) →
      σ.cache.view b (b.sectorOf e) (b.offsetOf e) &&& b.bits = BitVec.ofNat 32 v &&& b.bits)

section

variable {es : List (State T × Action T × Output)} {σ σ' : State T} {t : T} {d : Doing}
  {a : Action T} {o : Output} {e : Nat}

omit [DecidableEq T] in
theorem lastStored_append :
    lastStored e (es ++ [(σ, a, o)]) = (o.storedIn e).or (lastStored e es) := by
  induction es with
  | nil => simp [lastStored]
  | cons x es ih => rw [List.cons_append, lastStored, ih, lastStored, Option.or_assoc]

omit [DecidableEq T] in
theorem lastStored_stored {e' v : Nat} :
    lastStored e (es ++ [(σ, a, .stored e' v)]) =
      if e' = e then some v else lastStored e es := by
  rw [lastStored_append, Output.storedIn]
  split <;> rfl

/-- A step that stores nothing. -/
def Output.Silent (o : Output) : Prop := ∀ e v, o ≠ .stored e v

omit [DecidableEq T] in
theorem lastStored_silent (ho : o.Silent) :
    lastStored e (es ++ [(σ, a, o)]) = lastStored e es := by
  have hnone : o.storedIn e = none := by
    cases o with
    | stored e' v => exact absurd rfl (ho e' v)
    | _ => rfl
  rw [lastStored_append, hnone, Option.none_or]

/-- Thread `t` goes to `d`; it does not store to the FAT. -/
theorem Inv.move (h : Inv b es σ) (hk : Cache.Keeps b σ.cache σ'.cache)
    (hthreads : σ'.threads = Function.update σ.threads t d) (ho : o.Silent) (hd : d.Ok b)
    (hheld : ∀ t' ≠ t, ∀ s, (σ.threads t').sector b = some s → σ'.cache.Holds b s)
    (hself : ∀ s, d.sector b = some s → σ'.cache.Holds b s)
    (hpending : ∀ t' ≠ t, ∀ e, (σ.threads t').storesTo = some e →
      (σ'.cache.slots (Cache.index b (b.sectorOf e))).dirty = true)
    (hstores : ∀ e, d.storesTo = some e →
      (σ'.cache.slots (Cache.index b (b.sectorOf e))).dirty = true)
    (hold : ∀ e v, σ.threads t ≠ .updateOr e v) (hnew : ∀ e v, d ≠ .updateOr e v) :
    Inv b (es ++ [(σ, a, o)]) σ' := by
  have hor : ∀ t' e v, σ'.threads t' = .updateOr e v ↔ σ.threads t' = .updateOr e v := by
    intro t' e v
    rw [hthreads]
    by_cases ht : t' = t
    · subst ht
      rw [Function.update_self]
      exact iff_of_false (hnew e v) (hold e v)
    · rw [Function.update_of_ne ht]
  have hfat : ∀ t' e v, σ.threads t' = .updateOr e v → b.sectorOf e < b.fatsize := by
    intro t' e v ht
    have := h.threads t'
    rw [ht] at this
    exact this.1
  refine ⟨hk.ok, fun t' => ?_, fun t' s hs => ?_, fun t' e he => ?_, fun t₁ t₂ e v v' h1 h2 => ?_,
    fun t' e v ht => ?_, fun e v he => ?_⟩
  · rw [hthreads]
    by_cases ht : t' = t
    · subst ht
      rwa [Function.update_self]
    · rw [Function.update_of_ne ht]
      exact h.threads t'
  · rw [hthreads] at hs
    by_cases ht : t' = t
    · subst ht
      rw [Function.update_self] at hs
      exact hself s hs
    · rw [Function.update_of_ne ht] at hs
      exact hheld t' ht s hs
  · rw [hthreads] at he
    by_cases ht : t' = t
    · subst ht
      rw [Function.update_self] at he
      exact hstores e he
    · rw [Function.update_of_ne ht] at he
      exact hpending t' ht e he
  · exact h.alone t₁ t₂ e v v' ((hor _ _ _).1 h1) ((hor _ _ _).1 h2)
  · have ht' := (hor _ _ _).1 ht
    rw [hk.view _ (hfat _ _ _ ht')]
    exact h.cleared t' e v ht'
  · rw [lastStored_silent ho] at he
    obtain ⟨hs, hsafe, hval⟩ := h.stored e v he
    refine ⟨hs, hk.safe _ hs hsafe, fun hno => ?_⟩
    rw [hk.view _ hs]
    exact hval fun t' w ht => hno t' w ((hor _ _ _).2 ht)

/-- The cache stays as it is, and the thread keeps its sector or has none. -/
theorem Inv.goto (h : Inv b es σ) (hcache : σ'.cache = σ.cache)
    (hthreads : σ'.threads = Function.update σ.threads t d) (ho : o.Silent) (hd : d.Ok b)
    (hsector : ∀ s, d.sector b = some s → (σ.threads t).sector b = some s)
    (hstores : ∀ e, d.storesTo = some e → (σ.threads t).storesTo = some e)
    (hold : ∀ e v, σ.threads t ≠ .updateOr e v) (hnew : ∀ e v, d ≠ .updateOr e v) :
    Inv b (es ++ [(σ, a, o)]) σ' := by
  refine h.move ?_ hthreads ho hd (fun t' _ s hs => ?_) (fun s hs => ?_) (fun t' _ e he => ?_)
    (fun e he => ?_) hold hnew
  · rw [hcache]
    exact .refl h.ok
  · rw [hcache]
    exact h.holds t' s hs
  · rw [hcache]
    exact h.holds t s (hsector s hs)
  · rw [hcache]
    exact h.pending t' e he
  · rw [hcache]
    exact h.pending t e (hstores e he)

/-- The thread gives its sector back. -/
theorem Inv.unlock (h : Inv b es σ) {s : Nat} (hcache : σ'.cache = σ.cache.unlockFatSector b s)
    (hthreads : σ'.threads = Function.update σ.threads t d) (ho : o.Silent) (hd : d.Ok b)
    (hsector : d.sector b = none) (hstores : d.storesTo = none)
    (hold : ∀ e v, σ.threads t ≠ .updateOr e v) : Inv b (es ++ [(σ, a, o)]) σ' := by
  obtain ⟨hk, hholds, hdirty⟩ := Cache.unlock_spec h.ok s
  rw [← hcache] at hk hholds hdirty
  refine h.move hk hthreads ho hd (fun t' _ s hs => ?_) (fun s hs => ?_) (fun t' _ e he => ?_)
    (fun e he => ?_) hold (fun e v hev => ?_)
  · exact (hholds s).2 (h.holds t' s hs)
  · rw [hsector] at hs
    cases hs
  · rw [hdirty]
    exact h.pending t' e he
  · rw [hstores] at he
    cases he
  · rw [hev] at hsector
    cases hsector

theorem entry_eq {e' : Nat} (hs : b.sectorOf e' = b.sectorOf e)
    (ho : b.offsetOf e' = b.offsetOf e) : e' = e := by
  unfold Volume.sectorOf at hs
  unfold Volume.offsetOf at ho
  rw [← Nat.div_add_mod e' b.perSector, ← Nat.div_add_mod e b.perSector, hs, ho]

theorem Cache.Stored.view_ne {v : BitVec 32} {e' : Nat} (h : Cache.Stored b c c' e v)
    (hne : e' ≠ e) :
    c'.view b (b.sectorOf e') (b.offsetOf e') = c.view b (b.sectorOf e') (b.offsetOf e') := by
  by_cases hs : b.sectorOf e' = b.sectorOf e
  · have ho : b.offsetOf e' ≠ b.offsetOf e := fun ho => hne (entry_eq hs ho)
    rw [hs, h.self, Function.update_of_ne ho]
  · rw [h.other _ hs]

theorem Cache.Stored.view_self {v : BitVec 32} (h : Cache.Stored b c c' e v) :
    c'.view b (b.sectorOf e) (b.offsetOf e) = v := by
  rw [h.self, Function.update_self]

/-- The sector of the entry is to be written, and the others stay as they are. -/
theorem Cache.Stored.safe {x : BitVec 32} (h : Cache.Stored b c c' e x)
    (hh : c.Holds b (b.sectorOf e)) (hd : (c.slots (Cache.index b (b.sectorOf e))).dirty = true)
    {s : Nat} (hsafe : c.Safe b s) : c'.Safe b s := by
  by_cases hss : s = b.sectorOf e
  · rw [hss]
    refine Or.inl ⟨(h.holds _).2 hh, ?_⟩
    rw [h.dirty]
    exact hd
  · rcases hsafe with ⟨hhs, hds⟩ | hsync
    · refine Or.inl ⟨(h.holds _).2 hhs, ?_⟩
      rw [h.dirty]
      exact hds
    · refine Or.inr fun k hk => ?_
      rw [h.other _ hss, h.disk]
      exact hsync k hk

/-- A thread that has entry `e` stores to it, and goes to `d`. -/
theorem Inv.store (h : Inv b es σ) {x : BitVec 32} (hstored : Cache.Stored b σ.cache σ'.cache e x)
    (hthreads : σ'.threads = Function.update σ.threads t d) (hd : d.Ok b)
    (hmine : (σ.threads t).sector b = some (b.sectorOf e))
    (hto : (σ.threads t).storesTo = some e)
    (hsector : d.sector b = some (b.sectorOf e)) (hstores : ∀ e', d.storesTo = some e' → e' = e)
    (halone : ∀ t' ≠ t, ∀ w, σ.threads t' ≠ .updateOr e w)
    (hclear : ∀ e' w, d = .updateOr e' w → x &&& b.bits = 0)
    (hlast : ∀ e' ≠ e, lastStored e' (es ++ [(σ, a, o)]) = lastStored e' es)
    (hvalue : (∀ w, d ≠ .updateOr e w) → ∀ v, lastStored e (es ++ [(σ, a, o)]) = some v →
      x &&& b.bits = BitVec.ofNat 32 v &&& b.bits) : Inv b (es ++ [(σ, a, o)]) σ' := by
  have hheld := h.holds t _ hmine
  have hdirty := h.pending t e hto
  have hthread : ∀ t' ≠ t, σ'.threads t' = σ.threads t' := fun t' ht => by
    rw [hthreads, Function.update_of_ne ht]
  have hself : σ'.threads t = d := by rw [hthreads, Function.update_self]
  have hfat : b.sectorOf e < b.fatsize := by
    have hok := h.threads t
    revert hmine hto hok
    cases σ.threads t <;> intro hmine hto hok <;> cases hto <;> first | exact hok | exact hok.1
  have hor : ∀ e' w, d = .updateOr e' w → e' = e := by
    rintro e' w rfl
    exact hstores e' rfl
  refine ⟨hstored.ok, fun t' => ?_, fun t' s hs => ?_, fun t' e' he => ?_,
    fun t₁ t₂ e' v v' h1 h2 => ?_, fun t' e' v ht => ?_, fun e' v he => ?_⟩
  · by_cases ht : t' = t
    · rw [ht, hself]
      exact hd
    · rw [hthread t' ht]
      exact h.threads t'
  · rw [hstored.holds]
    by_cases ht : t' = t
    · rw [ht, hself, hsector] at hs
      cases hs
      exact hheld
    · rw [hthread t' ht] at hs
      exact h.holds t' s hs
  · rw [hstored.dirty]
    by_cases ht : t' = t
    · rw [ht, hself] at he
      rw [hstores e' he]
      exact hdirty
    · rw [hthread t' ht] at he
      exact h.pending t' e' he
  · by_cases ht₁ : t₁ = t <;> by_cases ht₂ : t₂ = t
    · rw [ht₁, ht₂]
    · rw [ht₁, hself] at h1
      rw [hthread t₂ ht₂, hor e' v h1] at h2
      exact absurd h2 (halone t₂ ht₂ v')
    · rw [ht₂, hself] at h2
      rw [hthread t₁ ht₁, hor e' v' h2] at h1
      exact absurd h1 (halone t₁ ht₁ v)
    · rw [hthread _ ht₁] at h1
      rw [hthread _ ht₂] at h2
      exact h.alone t₁ t₂ e' v v' h1 h2
  · by_cases htt : t' = t
    · rw [htt, hself] at ht
      rw [hor e' v ht, hstored.view_self]
      exact hclear e' v ht
    · rw [hthread t' htt] at ht
      have hne : e' ≠ e := by
        rintro rfl
        exact halone t' htt v ht
      rw [hstored.view_ne hne]
      exact h.cleared t' e' v ht
  · by_cases hee : e' = e
    · subst hee
      refine ⟨hfat, Or.inl ⟨(hstored.holds _).2 hheld, ?_⟩, fun hno => ?_⟩
      · rw [hstored.dirty]
        exact hdirty
      · rw [hstored.view_self]
        exact hvalue (fun w hw => hno t w (hself.trans hw)) v he
    · rw [hlast e' hee] at he
      obtain ⟨hs, hsafe, hval⟩ := h.stored e' v he
      refine ⟨hs, hstored.safe hheld hdirty hsafe, fun hno => ?_⟩
      rw [hstored.view_ne hee]
      refine hval fun t' w ht => ?_
      by_cases htt : t' = t
      · rw [htt] at ht
        rw [ht] at hto
        cases hto
        exact hee rfl
      · exact hno t' w ((hthread t' htt).trans ht)

theorem bits_or (b : Volume) {x y : BitVec 32} (hx : x &&& b.bits = 0) :
    (x ||| y &&& b.bits) &&& b.bits = y &&& b.bits := by
  simp [BitVec.and_or_distrib_right, hx, BitVec.and_assoc]

/-! ## Steps -/

/-- `cache_fat_sector` -/
theorem Inv.enter {s : Nat} {dirty : Bool} {io : Io} {failed : Output} (h : Inv b es σ)
    (hstep : σ.enter b t s dirty io d failed = some (σ', o)) (hb : b.numfats ≤ 2)
    (hs : s < b.fatsize) (hfree : σ.FreeFor b s)
    (hmine : (σ.threads t).sector b = none) (hd : d.Ok b) (hsector : d.sector b = some s)
    (hstores : ∀ e, d.storesTo = some e → b.sectorOf e = s ∧ dirty = true)
    (hnew : ∀ e v, d ≠ .updateOr e v) (ho : failed.Silent) :
    Inv b (es ++ [(σ, a, o)]) σ' := by
  unfold State.enter at hstep
  split at hstep
  · cases hstep
  obtain ⟨⟨c, ok⟩, hcache, hstep⟩ := Option.map_eq_some_iff.1 hstep
  have hent := Cache.cacheFatSector_spec hb h.ok hs hcache
  have hheld : ∀ t' ≠ t, ∀ x, (σ.threads t').sector b = some x → c.Holds b x := by
    intro t' _ x hx
    have hhx := h.holds t' x hx
    by_cases hi : Cache.index b x = Cache.index b s
    · obtain rfl := hfree t' x hx hi
      exact (hent.held (hent.stays hhx).1).1
    · unfold Cache.Holds
      rw [hent.others _ hi]
      exact hhx
  have hpending : ∀ t' ≠ t, ∀ e, (σ.threads t').storesTo = some e →
      (c.slots (Cache.index b (b.sectorOf e))).dirty = true := by
    intro t' _ e he
    have hde := h.pending t' e he
    by_cases hi : Cache.index b (b.sectorOf e) = Cache.index b s
    · have hx : (σ.threads t').sector b = some (b.sectorOf e) := by
        revert he
        cases σ.threads t' <;> intro he <;> cases he <;> rfl
      obtain heq := hfree t' _ hx hi
      rw [heq] at hde hx ⊢
      exact (hent.stays (h.holds t' s hx)).2 hde
    · rw [hent.others _ hi]
      exact hde
  have hold : ∀ e v, σ.threads t ≠ .updateOr e v := by
    intro e v heq
    rw [heq] at hmine
    cases hmine
  cases ok with
  | true =>
    cases hstep
    obtain ⟨hhs, hds⟩ := hent.held rfl
    refine h.move hent.keeps rfl (fun e v => by simp) hd hheld (fun x hx => ?_) hpending
      (fun e he => ?_) hold hnew
    · rw [hsector] at hx
      cases hx
      exact hhs
    · obtain ⟨hes, hdirty⟩ := hstores e he
      rw [hes]
      exact hds hdirty
  | false =>
    cases hstep
    refine h.move hent.keeps rfl ho trivial hheld (fun x hx => ?_) hpending (fun e he => ?_) hold
      (fun e v => by simp)
    · cases hx
    · cases he

theorem Inv.call (h : Inv b es σ) {c : Call} (hfat : c.InFat b)
    (hidle : σ.threads t = .idle) (hstep : σ.call b t c = some (σ', o)) :
    Inv b (es ++ [(σ, a, o)]) σ' := by
  have hold : ∀ e v, σ.threads t ≠ .updateOr e v := by simp [hidle]
  have hsame : Function.update σ.threads t .idle = σ.threads := by
    rw [← hidle, Function.update_eq_self]
  cases c with
  | readFatEntry e =>
    cases hstep
    exact h.goto rfl rfl (fun _ _ => by simp) hfat (fun s hs => by cases hs)
      (fun e he => by cases he) hold (fun _ _ => by simp)
  | updateFatEntry e v =>
    unfold State.call at hstep
    dsimp only at hstep
    generalize (if b.isFat16 = true then v % 0x10000 else v) = w at hstep
    split at hstep
    · cases hstep
    · cases hstep
      exact h.goto rfl rfl (fun _ _ => by simp) hfat (fun s hs => by cases hs)
        (fun e he => by cases he) hold (fun _ _ => by simp)
  | findFreeCluster s =>
    simp only [State.call] at hstep
    split at hstep
    · rename_i hpos
      cases hstep
      exact h.goto rfl rfl (fun _ _ => by simp) hpos (fun s hs => by cases hs)
        (fun e he => by cases he) hold (fun _ _ => by simp)
    · cases hstep
      exact h.goto rfl hsame.symm (fun _ _ => by simp) trivial (fun s hs => by cases hs)
        (fun e he => by cases he) hold (fun _ _ => by simp)
  | flushFat force =>
    simp only [State.call] at hstep
    split at hstep
    · cases hstep
      exact h.goto rfl hsame.symm (fun _ _ => by simp) trivial (fun s hs => by cases hs)
        (fun e he => by cases he) hold (fun _ _ => by simp)
    · cases hstep
      exact h.goto rfl rfl (fun _ _ => by simp) trivial (fun s hs => by cases hs)
        (fun e he => by cases he) hold (fun _ _ => by simp)

theorem Inv.flushSlot (h : Inv b es σ) (hb : b.numfats ≤ 2) {io : Io} {c : Cache}
    (hvalid : (σ.cache.slots i).valid = true)
    (hfree : ∀ t' e, (σ.threads t').storesTo = some e → Cache.index b (b.sectorOf e) ≠ i)
    (hold : ∀ e v, σ.threads t ≠ .updateOr e v)
    (hflush : σ.cache.flushFatSector b i io = some c) (ho : o.Silent) :
    Inv b (es ++ [(σ, a, o)]) (σ.goto t c (.flushSlot (i + 1))) := by
  obtain ⟨s, hs, -⟩ := h.ok.placed i hvalid
  have hf := Cache.flushFatSector_spec (by omega) hflush
  refine h.move (hf.keeps hb h.ok hvalid) rfl ho trivial (fun t' _ x hx => ?_)
    (fun x hx => by cases hx) (fun t' _ e he => ?_) (fun e he => by cases he) hold
    (fun _ _ => by simp)
  · exact hf.holds.2 (h.holds t' x hx)
  · show (c.slots _).dirty = true
    rw [hf.slot_ne (hfree t' e he)]
    exact h.pending t' e he

/-- A thread goes on. -/
theorem Inv.advance (h : Inv b es σ) (hb : b.numfats ≤ 2) {io : Io}
    (hu : Undisturbed b σ (.step t io)) (hstep : σ.advance b t io = some (σ', o)) :
    Inv b (es ++ [(σ, a, o)]) σ' := by
  have hok := h.threads t
  have hholds := h.holds t
  have hpending := h.pending t
  unfold State.advance at hstep
  simp only [Undisturbed] at hu
  cases ht : σ.threads t with
  | idle =>
    rw [ht] at hstep
    cases hstep
  | readCache e =>
    rw [ht] at hstep hu hok
    dsimp only at hstep hu
    exact h.enter hstep hb hok hu (by rw [ht]; rfl) hok rfl (fun e he => by cases he)
      (fun _ _ => by simp) (fun _ _ => by simp)
  | readLoad e =>
    rw [ht] at hstep hok
    cases hstep
    exact h.goto rfl rfl (fun _ _ => by simp) hok (fun s hs => by rw [ht]; exact hs)
      (fun e he => by cases he) (by simp [ht]) (fun _ _ => by simp)
  | readUnlock e v =>
    rw [ht] at hstep
    cases hstep
    exact h.unlock rfl rfl (fun _ _ => by simp) trivial rfl rfl (by simp [ht])
  | updateCache e v =>
    rw [ht] at hstep hu hok
    dsimp only at hstep hu
    exact h.enter hstep hb hok hu (by rw [ht]; rfl) hok rfl (fun e he => by cases he; exact ⟨rfl, rfl⟩)
      (fun _ _ => by simp) (fun _ _ => by simp)
  | updateLoad e v =>
    rw [ht] at hstep hok
    cases hstep
    by_cases h16 : b.isFat16 = true
    · exact h.goto (d := .updateAssign e v) rfl (by rw [State.goto, if_pos h16]) (fun _ _ => by simp) ⟨hok, h16⟩
        (fun s hs => by rw [ht]; exact hs) (fun e he => by rw [ht]; exact he) (by simp [ht])
        (fun _ _ => by simp)
    · exact h.goto (d := .updateAnd e v) rfl (by rw [State.goto, if_neg h16]) (fun _ _ => by simp)
        ⟨hok, by simpa using h16⟩ (fun s hs => by rw [ht]; exact hs)
        (fun e he => by rw [ht]; exact he) (by simp [ht]) (fun _ _ => by simp)
  | updateAssign e v =>
    rw [ht] at hstep hok hholds hpending
    cases hstep
    refine h.store (Cache.set_spec h.ok (hholds _ rfl) (hpending _ rfl) _) rfl hok.1
      (by rw [ht]; rfl) (by rw [ht]; rfl) rfl (fun e' he => by cases he) (fun t' _ w ht' => ?_)
      (fun e' w he => by cases he) (fun e' he => ?_) (fun _ v' hv => ?_)
    · -- there are no two-step stores in a FAT16
      have hok' := h.threads t'
      rw [ht'] at hok'
      have h16 := hok.2
      rw [hok'.2] at h16
      cases h16
    · rw [lastStored_stored, if_neg (Ne.symm he)]
    · rw [lastStored_stored, if_pos rfl] at hv
      cases hv
      rw [BitVec.and_assoc, BitVec.and_self]
  | updateAnd e v =>
    rw [ht] at hstep hok hholds hpending hu
    dsimp only at hu
    cases hstep
    refine h.store (Cache.set_spec h.ok (hholds _ rfl) (hpending _ rfl) _) rfl hok
      (by rw [ht]; rfl) (by rw [ht]; rfl) rfl (fun e' he => by cases he; rfl)
      (fun t' _ w => hu t' w) (fun e' w he => ?_) (fun e' he => ?_) (fun hno => ?_)
    · rw [BitVec.and_assoc, BitVec.and_comm (~~~ b.bits)]
      simp
    · exact lastStored_silent fun _ _ => by simp
    · exact absurd rfl (hno v)
  | updateOr e v =>
    rw [ht] at hstep hok hholds hpending
    cases hstep
    refine h.store (Cache.set_spec h.ok (hholds _ rfl) (hpending _ rfl) _) rfl hok.1
      (by rw [ht]; rfl) (by rw [ht]; rfl) rfl (fun e' he => by cases he) (fun t' hne w ht' => ?_)
      (fun e' w he => by cases he) (fun e' he => ?_) (fun _ v' hv => ?_)
    · exact hne (h.alone t t' e v w ht ht')
    · rw [lastStored_stored, if_neg (Ne.symm he)]
    · rw [lastStored_stored, if_pos rfl] at hv
      cases hv
      refine bits_or b ?_
      rw [Cache.get_eq_view (hholds _ rfl)]
      exact h.cleared t e v ht
  | updateUnlock e =>
    rw [ht] at hstep
    cases hstep
    exact h.unlock rfl rfl (fun _ _ => by simp) trivial rfl rfl (by simp [ht])
  | findCache s i =>
    rw [ht] at hstep hu hok
    dsimp only at hstep hu
    have hfind : State.findSector b s i < b.fatsize := Nat.mod_lt _ hok
    by_cases hper : 0 < b.perSector
    · rw [if_pos hper] at hstep
      exact h.enter hstep hb hfind hu (by rw [ht]; rfl) ⟨hok, hper⟩ rfl (fun e he => by cases he)
        (fun _ _ => by simp) (fun _ _ => by simp)
    · rw [if_neg hper] at hstep
      exact h.enter hstep hb hfind hu (by rw [ht]; rfl) hok rfl (fun e he => by cases he)
        (fun _ _ => by simp) (fun _ _ => by simp)
  | findLoad s i j =>
    rw [ht] at hstep hok
    dsimp only at hstep
    split at hstep
    · cases hstep
      exact h.goto rfl rfl (fun _ _ => by simp) hok.1 (fun s hs => by rw [ht]; exact hs)
        (fun e he => by cases he) (by simp [ht]) (fun _ _ => by simp)
    split at hstep
    · cases hstep
      exact h.goto rfl rfl (fun _ _ => by simp) hok (fun s hs => by rw [ht]; exact hs)
        (fun e he => by cases he) (by simp [ht]) (fun _ _ => by simp)
    · cases hstep
      exact h.goto rfl rfl (fun _ _ => by simp) hok.1 (fun s hs => by rw [ht]; exact hs)
        (fun e he => by cases he) (by simp [ht]) (fun _ _ => by simp)
  | findUnlock s i found =>
    rw [ht] at hstep hok
    cases found with
    | some r =>
      cases hstep
      exact h.unlock rfl rfl (fun _ _ => by simp) trivial rfl rfl (by simp [ht])
    | none =>
      dsimp only at hstep
      split at hstep
      · cases hstep
        exact h.unlock rfl rfl (fun _ _ => by simp) hok rfl rfl (by simp [ht])
      · cases hstep
        exact h.unlock rfl rfl (fun _ _ => by simp) trivial rfl rfl (by simp [ht])
  | flushLock =>
    rw [ht] at hstep
    dsimp only at hstep
    split at hstep
    · cases hstep
    · cases hstep
      exact h.goto rfl rfl (fun _ _ => by simp) trivial (fun s hs => by cases hs)
        (fun e he => by cases he) (by simp [ht]) (fun _ _ => by simp)
  | flushSlot i =>
    rw [ht] at hstep hu
    dsimp only at hstep hu
    split at hstep
    · split at hstep
      · rename_i hvd
        obtain ⟨c, hflush, hstep⟩ := Option.map_eq_some_iff.1 hstep
        cases hstep
        exact h.flushSlot hb hvd.1 hu (by simp [ht]) hflush (fun _ _ => by simp)
      · cases hstep
        exact h.goto rfl rfl (fun _ _ => by simp) trivial (fun s hs => by cases hs)
          (fun e he => by cases he) (by simp [ht]) (fun _ _ => by simp)
    · cases hstep
      exact h.goto rfl rfl (fun _ _ => by simp) trivial (fun s hs => by cases hs)
        (fun e he => by cases he) (by simp [ht]) (fun _ _ => by simp)

theorem Inv.step (h : Inv b es σ) (hb : b.numfats ≤ 2) (hfat : a.InFat b)
    (hu : Undisturbed b σ a) (hstep : step b σ a = some (σ', o)) :
    Inv b (es ++ [(σ, a, o)]) σ' := by
  cases a with
  | call t c =>
    simp only [Caching.step] at hstep
    cases ht : σ.threads t with
    | idle =>
      rw [ht] at hstep
      exact h.call hfat ht hstep
    | _ =>
      rw [ht] at hstep
      cases hstep
  | step t io => exact h.advance hb hu hstep

omit [DecidableEq T] in
theorem inv_init (b : Volume) (disk : Nat → Buf) (freecount nextfree : Nat) (disabled : Bool) :
    Inv b [] (init disk freecount nextfree disabled : State T) := by
  have hok : (init disk freecount nextfree disabled : State T).cache.Ok b := by
    constructor
    · intro i hi
      cases hi
    · intro i hi
      cases hi
    · intro i _
      rfl
  constructor
  · exact hok
  · exact fun _ => trivial
  · intro t s hs
    cases hs
  · intro t e he
    cases he
  · intro t t' e v v' ht
    cases ht
  · intro t e v ht
    cases ht
  · intro e v he
    cases he

/-- What a thread does between `cache_fat_sector` and `unlock_fat_sector` changes no other sector. -/
theorem Inv.view_advance (h : Inv b es σ) {io : Io} {s x : Nat}
    (hs : (σ.threads t).sector b = some s) (hstep : σ.advance b t io = some (σ', o))
    (hx : x < b.fatsize) (hne : x ≠ s) : σ'.cache.view b x = σ.cache.view b x := by
  have hstore : ∀ {e v}, b.sectorOf e = s → (σ.threads t).storesTo = some e →
      (σ.cache.set b e v).view b x = σ.cache.view b x := by
    rintro e v rfl he
    exact (Cache.set_spec h.ok (h.holds t _ hs) (h.pending t e he) v).other x hne
  have hunlock : ∀ y, (σ.cache.unlockFatSector b y).view b x = σ.cache.view b x :=
    fun y => (Cache.unlock_spec h.ok y).1.view x hx
  unfold State.advance at hstep
  cases ht : σ.threads t with
  | readLoad e | updateLoad e v =>
    rw [ht] at hstep
    cases hstep
    rfl
  | readUnlock e v | updateUnlock e =>
    rw [ht] at hstep
    cases hstep
    exact hunlock _
  | updateAssign e v | updateAnd e v | updateOr e v =>
    rw [ht] at hstep hs hstore
    cases hstep
    exact hstore (Option.some.inj hs) rfl
  | findLoad s i j =>
    rw [ht] at hstep
    dsimp only at hstep
    split at hstep
    · cases hstep
      rfl
    split at hstep
    · cases hstep
      rfl
    · cases hstep
      rfl
  | findUnlock s i found =>
    rw [ht] at hstep
    cases found with
    | some r =>
      cases hstep
      exact hunlock _
    | none =>
      dsimp only at hstep
      split at hstep
      · cases hstep
        exact hunlock _
      · cases hstep
        exact hunlock _
  | idle | readCache e | updateCache e v | findCache s i | flushLock | flushSlot i =>
    rw [ht] at hs
    cases hs

omit [DecidableEq T] in
/-- What it reads is in the sector that it has. -/
theorem Inv.reads (h : Inv b es σ) (he : (σ.threads t).reads b = some e) :
    (σ.threads t).sector b = some (b.sectorOf e) ∧
      σ.cache.get b e = σ.cache.view b (b.sectorOf e) (b.offsetOf e) := by
  have hsector : (σ.threads t).sector b = some (b.sectorOf e) := by
    have hok := h.threads t
    revert he hok
    cases σ.threads t with
    | findLoad s i j =>
      rintro he ⟨-, hper⟩
      cases he
      have hlt : (j + if i = 0 then s % b.perSector else 0) % b.perSector < b.perSector :=
        Nat.mod_lt _ hper
      rw [Doing.sector, Volume.sectorOf, State.findEntry, Nat.mul_comm,
        Nat.mul_add_div hper, Nat.div_eq_of_lt hlt, Nat.add_zero]
      rfl
    | _ => intro he _; cases he <;> rfl
  exact ⟨hsector, Cache.get_eq_view (h.holds t _ hsector)⟩

/-! ## Flushing -/

/-- Only thread `t` does anything, and it flushes: the slots before the one that it has come to are
clean. -/
structure Flushing (t : T) (σ : State T) : Prop where
  idle : ∀ t' ≠ t, σ.threads t' = .idle
  clean : match σ.threads t with
    | .flushLock => True
    | .flushSlot i => ∀ j < i, j < 4 → (σ.cache.slots j).dirty = false
    | .idle => ∀ j < 4, (σ.cache.slots j).dirty = false
    | _ => False

theorem Flushing.undisturbed (h : Flushing t σ) (io : Io) : Undisturbed b σ (.step t io) := by
  have hclean := h.clean
  simp only [Undisturbed]
  cases ht : σ.threads t with
  | flushSlot i =>
    intro t' e he
    by_cases htt : t' = t
    · rw [htt, ht] at he
      cases he
    · rw [h.idle t' htt] at he
      cases he
  | flushLock | idle => trivial
  | _ =>
    rw [ht] at hclean
    exact hclean.elim

theorem Flushing.silent (h : Flushing t σ) {io : Io} (hstep : σ.advance b t io = some (σ', o)) :
    o.Silent := by
  have hclean := h.clean
  unfold State.advance at hstep
  cases ht : σ.threads t with
  | idle =>
    rw [ht] at hstep
    cases hstep
  | flushLock =>
    rw [ht] at hstep
    dsimp only at hstep
    split at hstep
    · cases hstep
    · cases hstep
      exact fun _ _ => by simp
  | flushSlot i =>
    rw [ht] at hstep
    dsimp only at hstep
    split at hstep
    · split at hstep
      · obtain ⟨c, -, hstep⟩ := Option.map_eq_some_iff.1 hstep
        cases hstep
        exact fun _ _ => by simp
      · cases hstep
        exact fun _ _ => by simp
    · cases hstep
      exact fun _ _ => by simp
  | _ =>
    rw [ht] at hclean
    exact hclean.elim

/-- One more slot is clean. -/
theorem Flushing.advance (h : Flushing t σ) (hinv : Inv b es σ) {io : Io}
    (hstep : σ.advance b t io = some (σ', o)) : Flushing t σ' := by
  have hclean := h.clean
  have hidle : ∀ c d, ∀ t' ≠ t, (σ.goto t c d).threads t' = .idle := fun c d t' ht =>
    (Function.update_of_ne ht ..).trans (h.idle t' ht)
  have hself : ∀ c d, (σ.goto t c d).threads t = d := fun c d => Function.update_self ..
  unfold State.advance at hstep
  cases ht : σ.threads t with
  | idle =>
    rw [ht] at hstep
    cases hstep
  | flushLock =>
    rw [ht] at hstep
    dsimp only at hstep
    split at hstep
    · cases hstep
    · cases hstep
      refine ⟨hidle σ.cache (.flushSlot 0), ?_⟩
      dsimp only
      rw [hself]
      exact fun j hj => absurd hj (Nat.not_lt_zero j)
  | flushSlot i =>
    rw [ht] at hstep hclean
    dsimp only at hstep hclean
    split at hstep
    · split at hstep
      · rename_i hvd
        obtain ⟨c, hflush, hstep⟩ := Option.map_eq_some_iff.1 hstep
        cases hstep
        obtain ⟨s, hs, -⟩ := hinv.ok.placed i hvd.1
        have hf := Cache.flushFatSector_spec (by omega) hflush
        refine ⟨hidle _ _, ?_⟩
        rw [hself]
        intro j hj h4
        show (c.slots j).dirty = false
        by_cases hji : j = i
        · rw [hji, hf.slot_eq]
        · rw [hf.slot_ne hji]
          exact hclean j (by omega) h4
      · rename_i hvd
        cases hstep
        refine ⟨hidle _ _, ?_⟩
        rw [hself]
        intro j hj h4
        by_cases hji : j = i
        · cases hv : (σ.cache.slots i).valid with
          | false =>
            rw [hji]
            exact hinv.ok.empty i hv
          | true =>
            have hd : (σ.cache.slots i).dirty = false := by simpa [hv] using hvd
            rw [hji]
            exact hd
        · exact hclean j (by omega) h4
    · rename_i h4
      cases hstep
      refine ⟨hidle σ.cache .idle, ?_⟩
      dsimp only
      rw [hself]
      exact fun j hj => hclean j (by omega) hj
  | _ =>
    rw [ht] at hclean
    exact hclean.elim

/-- `flush_fat(true)` by thread `t`, from its begin in `σ` to its end in `σ'`, while no other call is
under way. -/
structure QuietFlush (b : Volume) (t : T) (σ σ' : State T) : Prop where
  idle : ∀ t', σ.threads t' = .idle
  run : ∃ σ₁ o es, step b σ (.call t (.flushFat true)) = some (σ₁, o) ∧
    Lts.Runs (step b) (fun _ a => ∃ io, a = .step t io) σ₁ es σ'
  done : σ'.threads t = .idle

/-- What was stored before is on the disk after it. -/
theorem Inv.quietFlush (h : Inv b es σ) (hb : b.numfats ≤ 2) (hq : QuietFlush b t σ σ') {v : Nat}
    (he : lastStored e es = some v) {k : Nat} (hk : k < b.numfats) :
    σ'.cache.disk (b.address k (b.sectorOf e)) (b.offsetOf e) &&& b.bits =
      BitVec.ofNat 32 v &&& b.bits := by
  obtain ⟨σ₁, o, es', hcall, hrun⟩ := hq.run
  have hinv₁ : Inv b (es ++ [(σ, .call t (.flushFat true), o)]) σ₁ := h.step hb trivial trivial hcall
  have hstep₁ : σ₁ = σ.goto t σ.cache .flushLock ∧ o = .nothing := by
    simp only [Caching.step, hq.idle t, State.call, not_true_eq_false, and_false, if_false,
      Option.some.injEq, Prod.mk.injEq] at hcall
    exact ⟨hcall.1.symm, hcall.2.symm⟩
  obtain ⟨rfl, rfl⟩ := hstep₁
  have hflush₁ : Flushing t (σ.goto t σ.cache .flushLock) := by
    refine ⟨fun t' ht => ?_, ?_⟩
    · exact (Function.update_of_ne ht ..).trans (hq.idle t')
    · have hself : (σ.goto t σ.cache .flushLock).threads t = .flushLock := Function.update_self ..
      rw [hself]
      trivial
  have hall := hrun.invariant_trace (I := fun l σ₂ => ∃ l', Inv b l' σ₂ ∧ Flushing t σ₂ ∧
      lastStored e l' = some v) ⟨_, hinv₁, hflush₁, by
        rw [lastStored_silent fun _ _ => by simp]
        exact he⟩ (by
    rintro l x a y p ⟨l', hinv, hfl, hl⟩ ⟨io, rfl⟩ hstep
    refine ⟨_, hinv.step (a := .step t io) hb trivial (hfl.undisturbed io) hstep, hfl.advance hinv hstep, ?_⟩
    rw [lastStored_silent (hfl.silent hstep)]
    exact hl)
  obtain ⟨l', hinv, hfl, hl⟩ := hall
  have hclean := hfl.clean
  rw [hq.done] at hclean
  have hidle : ∀ t', σ'.threads t' = .idle := by
    intro t'
    by_cases ht : t' = t
    · rw [ht, hq.done]
    · exact hfl.idle t' ht
  obtain ⟨-, hsafe, hval⟩ := hinv.stored e v hl
  rcases hsafe with ⟨-, hd⟩ | hsync
  · have hnot := hclean (Cache.index b (b.sectorOf e)) (Nat.mod_lt _ (by omega))
    rw [hd] at hnot
    cases hnot
  · rw [hsync k hk]
    exact hval fun t' w ht => by
      rw [hidle] at ht
      cases ht

/-! ## Runs -/

/-- What the cache is for, in a state after the steps `es`. -/
structure Stable (b : Volume) (es : List (State T × Action T × Output)) (σ : State T) : Prop where
  /-- The sector that a thread may access is in its slot. -/
  owned : ∀ t s, (σ.threads t).sector b = some s → σ.cache.Holds b s
  /-- An access reads this sector. -/
  reads : ∀ t e, (σ.threads t).reads b = some e → (σ.threads t).sector b = some (b.sectorOf e) ∧
    σ.cache.get b e = σ.cache.view b (b.sectorOf e) (b.offsetOf e)
  /-- It changes no other sector. -/
  changes : ∀ t s, (σ.threads t).sector b = some s → ∀ io σ' o,
    σ.advance b t io = some (σ', o) → ∀ x < b.fatsize, x ≠ s →
      σ'.cache.view b x = σ.cache.view b x
  /-- After a flush all updates are on the disk. -/
  flushed : ∀ t σ', QuietFlush b t σ σ' → ∀ e v, lastStored e es = some v → ∀ k < b.numfats,
    σ'.cache.disk (b.address k (b.sectorOf e)) (b.offsetOf e) &&& b.bits =
      BitVec.ofNat 32 v &&& b.bits

end

/-- A FAT32 with eight sectors, twice. -/
def small : Volume where
  isFat16 := false
  sectorSize := 512
  fatsize := 8
  dataclusters := 1000
  startsector := 63
  rsvdseccnt := 32
  numfats := 2

def fine : Io := ⟨true, true, true⟩

omit [DecidableEq T] in
/-- One thread cannot be disturbed. -/
theorem undisturbed_of_subsingleton [Subsingleton T] (b : Volume) (σ : State T) (a : Action T) :
    Undisturbed b σ a := by
  cases a with
  | call t c => trivial
  | step t io =>
    have hsector : ∀ {s x}, (σ.threads t).sector b = none → (∃ t', (σ.threads t').sector b = some x) →
        x = s := by
      rintro s x hnone ⟨t', hx⟩
      rw [Subsingleton.elim t' t, hnone] at hx
      cases hx
    simp only [Undisturbed]
    cases ht : σ.threads t with
    | readCache e | updateCache e v | findCache s i =>
      intro t' x hx _
      exact hsector (by rw [ht]; rfl) ⟨t', hx⟩
    | updateAnd e v =>
      intro t' w hw
      rw [Subsingleton.elim t' t, ht] at hw
      cases hw
    | flushSlot i =>
      intro t' e he
      rw [Subsingleton.elim t' t, ht] at he
      cases he
    | _ => trivial

end Caching
end Fat
end Freemyipod
