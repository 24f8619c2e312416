import Freemyipod.Fat.Stable

/-!
# Fat.Coherence

What one thread sees of the FAT when no access to the disk fails.

* `Volume.logical`: the FAT as the updates leave it.
* `During`, `Ended`: where a call is, and what it leaves. `During.advance` is a step, `perform_spec` the
  whole call.
* `coherent_of_runs`: what is read and what a flush writes, in every run of whole calls.
-/

namespace Freemyipod
namespace Fat
namespace Caching

/-! ## Whole calls -/

def Doing.isIdle : Doing → Bool
  | .idle => true
  | _ => false

variable (b : Volume)

/-- The thread goes on until it is idle, for at most `n` steps. -/
@[grind =] def finish : Nat → State Unit → Output → Option (State Unit × Output)
  | 0, σ, o => if (σ.threads ()).isIdle then some (σ, o) else none
  | n + 1, σ, o =>
    if (σ.threads ()).isIdle then some (σ, o)
    else (σ.advance b () fine).bind fun r => finish n r.1 r.2

/-- More steps than a call takes. -/
def Volume.turns : Nat := b.fatsize * (b.perSector + 2) + 6

/-- A call from its begin to its end, with the output of its last step. -/
def perform (σ : State Unit) (c : Call) : Option (State Unit × Output) :=
  (step b σ (.call () c)).bind fun r => finish b b.turns r.1 r.2

/-- `update_fat_entry` panics for the others. -/
@[grind =] def Call.Legal : Call → Prop
  | .updateFatEntry entry val =>
    ¬ (entry = (if b.isFat16 then val % 0x10000 else val) ∨ entry < 2)
  | _ => True

/-! ## The FAT that is meant -/

namespace Volume

/-- An entry in copy `k` of the FAT. -/
@[grind =] def entry (disk : Nat → Buf) (k e : Nat) : BitVec 32 :=
  disk (b.address k (b.sectorOf e)) (b.offsetOf e)

/-- All copies of a sector are the same. -/
def Mirrored (disk : Nat → Buf) (s : Nat) : Prop :=
  ∀ k < b.numfats, disk (b.address k s) = disk (b.address 0 s)

/-- What an update makes of an entry: FAT32 keeps the top 4 bits. -/
@[grind =] def written (old : BitVec 32) (val : Nat) : BitVec 32 :=
  (if b.isFat16 then 0 else old &&& ~~~ b.bits) ||| BitVec.ofNat 32 val &&& b.bits

end Volume

@[grind =] def Call.updates (e : Nat) : Call → Option Nat
  | .updateFatEntry e' val => if e' = e then some val else none
  | _ => none

/-- The value of the most recent update of an entry. -/
def lastUpdate (e : Nat) : List Call → Option Nat
  | [] => none
  | c :: cs => (lastUpdate e cs).or (c.updates e)

/-- The FAT after calls, on a volume that had `disk` when it was mounted. -/
def Volume.logical (disk : Nat → Buf) (cs : List Call) (e : Nat) : BitVec 32 :=
  match lastUpdate e cs with
  | none => b.entry disk 0 e
  | some val => b.written (b.entry disk 0 e) val

/-- What one call makes of the FAT. -/
def Call.apply (c : Call) (L : Nat → BitVec 32) : Nat → BitVec 32 :=
  match c with
  | .updateFatEntry e val => Function.update L e (b.written (L e) val)
  | _ => L

variable {b} {disk : Nat → Buf} {cs : List Call} {c : Call} {e val : Nat}

theorem lastUpdate_append : lastUpdate e (cs ++ [c]) = (c.updates e).or (lastUpdate e cs) := by
  induction cs with
  | nil => simp [lastUpdate]
  | cons x cs ih => rw [List.cons_append, lastUpdate, ih, lastUpdate, Option.or_assoc]

theorem Volume.written_top (old : BitVec 32) (val : Nat) (h : b.isFat16 = false) :
    b.written old val &&& ~~~ b.bits = old &&& ~~~ b.bits := by
  simp [Volume.written, h, BitVec.and_or_distrib_right, BitVec.and_assoc]

theorem Volume.written_written (old : BitVec 32) (v w : Nat) :
    b.written (b.written old v) w = b.written old w := by
  cases h : b.isFat16 with
  | true => simp [Volume.written, h]
  | false =>
    have htop := Volume.written_top old v h
    conv_lhs => rw [Volume.written]
    conv_rhs => rw [Volume.written]
    rw [htop]

theorem logical_append : b.logical disk (cs ++ [c]) = c.apply b (b.logical disk cs) := by
  funext e
  unfold Volume.logical
  rw [lastUpdate_append]
  cases c with
  | updateFatEntry e' val =>
    by_cases he : e' = e
    · subst he
      simp only [Call.updates, if_pos, Option.some_or, Call.apply, Function.update_self]
      cases lastUpdate e' cs with
      | none => rfl
      | some w => exact (Volume.written_written _ w val).symm
    · simp only [Call.updates, if_neg he, Option.none_or, Call.apply,
        Function.update_of_ne (Ne.symm he)]
  | _ => rfl

theorem logical_top (h : b.isFat16 = false) :
    b.logical disk cs e &&& ~~~ b.bits = b.entry disk 0 e &&& ~~~ b.bits := by
  unfold Volume.logical
  cases lastUpdate e cs with
  | none => rfl
  | some val => exact Volume.written_top _ val h

/-! ## The cache -/

namespace Cache

variable {b : Volume} {c c' c'' : Cache} {i s secnum : Nat} {io : Io}

/-- A sector on the disk stays, or gets what the cache has. -/
def Wrote (b : Volume) (c c' : Cache) : Prop :=
  ∀ k < b.numfats, ∀ s < b.fatsize, c'.disk (b.address k s) = c.disk (b.address k s) ∨
    c'.disk (b.address k s) = c.view b s

theorem Wrote.of_eq (h : c'.disk = c.disk) : Wrote b c c' := fun _ _ _ _ => Or.inl (by rw [h])

theorem Wrote.disk_eq (h : Wrote b c c') (hd : c''.disk = c'.disk) : Wrote b c c'' := by
  intro k hk s hs
  rw [hd]
  exact h k hk s hs

theorem Flushed.wrote (hb : b.numfats ≤ 2) (h : Flushed b c c' i) (hok : c.Ok b)
    (hvalid : (c.slots i).valid = true) : Wrote b c c' := by
  obtain ⟨s, hs, hsecnum, hindex⟩ := hok.placed i hvalid
  have hview : c.view b s = (c.slots i).buf := by
    rw [← hindex]
    refine view_of_holds ⟨?_, ?_⟩
    · rw [hindex]
      exact hvalid
    · rw [hindex]
      exact hsecnum
  intro k hk x hx
  by_cases hxs : x = s
  · right
    subst hxs
    rw [hview]
    obtain rfl | rfl : k = 0 ∨ k = 1 := by omega
    · rw [address_zero, ← hsecnum]
      exact h.first
    · rw [address_one, ← hsecnum]
      exact h.second hk
  · left
    exact h.disk_ne hs hx hsecnum hxs (by omega)

theorem evict_wrote (hb : b.numfats ≤ 2) (hok : c.Ok b) (hfat : 0 < b.fatsize)
    (h : c.evict b i secnum io = some c') : Wrote b c c' := by
  unfold evict at h
  dsimp only at h
  split at h
  · rename_i hev
    split at h
    · obtain ⟨c₁, hflush, rfl⟩ := Option.map_eq_some_iff.1 h
      exact ((flushFatSector_spec hfat hflush).wrote hb hok hev.1).disk_eq rfl
    · cases h
      exact .of_eq rfl
  · cases h
    exact .of_eq rfl

theorem load_disk {m : Nat} : (c.load b i m io).1.disk = c.disk := by
  unfold load
  dsimp only
  split
  · rfl
  · split <;> rfl

theorem cacheFatSector_wrote (hb : b.numfats ≤ 2) (hok : c.Ok b) (hs : s < b.fatsize)
    {dirty ok : Bool} (h : c.cacheFatSector b s dirty io = some (c', ok)) : Wrote b c c' := by
  unfold cacheFatSector at h
  dsimp only at h
  obtain ⟨c₁, hev, h⟩ := Option.map_eq_some_iff.1 h
  have hwrote := evict_wrote hb hok (by omega) hev
  cases hl : c₁.load b ((s + b.rsvdseccnt) % 4) (s + b.rsvdseccnt) io with
  | mk c₂ ok₂ =>
    have hdisk : c₂.disk = c₁.disk := by
      have hload : (c₁.load b ((s + b.rsvdseccnt) % 4) (s + b.rsvdseccnt) io).1.disk = c₁.disk :=
        load_disk
      rwa [hl] at hload
    rw [hl] at h
    cases ok₂ with
    | true =>
      cases h
      exact hwrote.disk_eq hdisk
    | false =>
      cases h
      exact hwrote.disk_eq hdisk

/-- Without errors there is no panic. -/
theorem flushFatSector_fine : ∃ c', c.flushFatSector b i fine = some c' := by
  simp only [flushFatSector, fine, if_pos]
  split <;> exact ⟨_, rfl⟩

theorem cacheFatSector_fine (dirty : Bool) :
    ∃ c', c.cacheFatSector b s dirty fine = some (c', true) := by
  have hev : ∃ c₁, c.evict b ((s + b.rsvdseccnt) % 4) (s + b.rsvdseccnt) fine = some c₁ := by
    unfold evict
    dsimp only
    split
    · split
      · obtain ⟨c₁, hflush⟩ := flushFatSector_fine (b := b) (c := c) (i := (s + b.rsvdseccnt) % 4)
        exact ⟨_, by rw [hflush]; rfl⟩
      · exact ⟨_, rfl⟩
    · exact ⟨_, rfl⟩
  obtain ⟨c₁, hev⟩ := hev
  unfold cacheFatSector
  dsimp only
  rw [hev, Option.map_some]
  have hload : (c₁.load b ((s + b.rsvdseccnt) % 4) (s + b.rsvdseccnt) fine).2 = true := by
    unfold load
    dsimp only
    split
    · rfl
    · rfl
  cases hl : c₁.load b ((s + b.rsvdseccnt) % 4) (s + b.rsvdseccnt) fine with
  | mk c₂ ok =>
    rw [hl] at hload
    cases hload
    exact ⟨_, rfl⟩

end Cache

/-! ## What the cache shows -/

/-- The entries of the FAT in the cache `c` are those of `M`, on a volume that had `disk`: the copies of
a sector stay the same, and the top 4 bits are what they were. -/
structure Shows (b : Volume) (disk : Nat → Buf) (c : Cache) (M : Nat → BitVec 32) : Prop where
  entries : ∀ e, b.sectorOf e < b.fatsize → c.view b (b.sectorOf e) (b.offsetOf e) = M e
  safe : ∀ s < b.fatsize, b.Mirrored disk s → c.Safe b s
  top : b.isFat16 = false → ∀ e, b.sectorOf e < b.fatsize →
    M e &&& ~~~ b.bits = b.entry disk 0 e &&& ~~~ b.bits
  disk : b.isFat16 = false → ∀ e, b.sectorOf e < b.fatsize → ∀ k < b.numfats,
    k = 0 ∨ b.Mirrored disk (b.sectorOf e) →
      b.entry c.disk k e &&& ~~~ b.bits = b.entry disk 0 e &&& ~~~ b.bits

section

variable {c c' : Cache} {M : Nat → BitVec 32}

theorem Shows.keeps (h : Shows b disk c M) (hk : Cache.Keeps b c c') (hw : Cache.Wrote b c c') :
    Shows b disk c' M := by
  refine ⟨fun e he => ?_, fun s hs hm => hk.safe s hs (h.safe s hs hm), h.top,
    fun h32 e he k hlt hm => ?_⟩
  · rw [hk.view _ he]
    exact h.entries e he
  · rcases hw k hlt _ he with hsame | hview
    · rw [Volume.entry, hsame]
      exact h.disk h32 e he k hlt hm
    · rw [Volume.entry, hview, h.entries e he]
      exact h.top h32 e he

theorem Shows.store {x : BitVec 32} (h : Shows b disk c M) (hs : Cache.Stored b c c' e x)
    (hh : c.Holds b (b.sectorOf e)) (hd : (c.slots (Cache.index b (b.sectorOf e))).dirty = true)
    (htop : b.isFat16 = false → x &&& ~~~ b.bits = M e &&& ~~~ b.bits) :
    Shows b disk c' (Function.update M e x) := by
  refine ⟨fun e' he => ?_, fun s hlt hm => hs.safe hh hd (h.safe s hlt hm), fun h32 e' he => ?_,
    fun h32 e' he k hlt hm => ?_⟩
  · by_cases hee : e' = e
    · rw [hee, Function.update_self, hs.view_self]
    · rw [Function.update_of_ne hee, hs.view_ne hee]
      exact h.entries e' he
  · by_cases hee : e' = e
    · rw [hee] at he ⊢
      rw [Function.update_self, htop h32]
      exact h.top h32 e he
    · rw [Function.update_of_ne hee]
      exact h.top h32 e' he
  · rw [Volume.entry, hs.disk]
    exact h.disk h32 e' he k hlt hm

end

/-! ## A call under way -/

/-- What `update_fat_entry` makes of its argument. -/
def Volume.argument (b : Volume) (val : Nat) : Nat := if b.isFat16 then val % 0x10000 else val

/-- Where the call is when the FAT is `M`, and was `L` when it began. -/
inductive At (b : Volume) (L : Nat → BitVec 32) : Call → Doing → (Nat → BitVec 32) → Prop
  | readCache (e : Nat) : At b L (.readFatEntry e) (.readCache e) L
  | readLoad (e : Nat) : At b L (.readFatEntry e) (.readLoad e) L
  | readUnlock (e : Nat) : At b L (.readFatEntry e) (.readUnlock e (L e &&& b.bits)) L
  | updateCache (e v : Nat) : At b L (.updateFatEntry e v) (.updateCache e (b.argument v)) L
  | updateLoad (e v : Nat) : At b L (.updateFatEntry e v) (.updateLoad e (b.argument v)) L
  | updateAssign (e v : Nat) : At b L (.updateFatEntry e v) (.updateAssign e (b.argument v)) L
  | updateAnd (e v : Nat) : At b L (.updateFatEntry e v) (.updateAnd e (b.argument v)) L
  | updateOr (e v : Nat) : At b L (.updateFatEntry e v) (.updateOr e (b.argument v))
      (Function.update L e (L e &&& ~~~ b.bits))
  | updateUnlock (e v : Nat) : At b L (.updateFatEntry e v) (.updateUnlock e)
      (Function.update L e (b.written (L e) v))
  | findCache {i : Nat} (s : Nat) (hi : i < b.fatsize) :
      At b L (.findFreeCluster s) (.findCache s i) L
  | findLoad {i j : Nat} (s : Nat) (hi : i < b.fatsize) (hj : j < b.perSector) :
      At b L (.findFreeCluster s) (.findLoad s i j) L
  | findUnlock {i : Nat} (s : Nat) (hi : i < b.fatsize) (found : Option Nat) :
      At b L (.findFreeCluster s) (.findUnlock s i found) L
  | flushLock (force : Bool) : At b L (.flushFat force) .flushLock L
  | flushSlot {i : Nat} (force : Bool) (hi : i ≤ 4) : At b L (.flushFat force) (.flushSlot i) L

/-- The most steps that are left. -/
@[grind =] def Doing.left (b : Volume) : Doing → Nat
  | .idle => 0
  | .readCache _ => 3
  | .readLoad _ => 2
  | .readUnlock _ _ => 1
  | .updateCache _ _ => 5
  | .updateLoad _ _ => 4
  | .updateAnd _ _ => 3
  | .updateAssign _ _ | .updateOr _ _ => 2
  | .updateUnlock _ => 1
  | .findCache _ i => (b.fatsize - i) * (b.perSector + 2)
  | .findLoad _ i j => (b.fatsize - (i + 1)) * (b.perSector + 2) + (b.perSector - j) + 1
  | .findUnlock _ i _ => (b.fatsize - (i + 1)) * (b.perSector + 2) + 1
  | .flushLock => 6
  | .flushSlot i => 5 - i

abbrev Steps := List (State Unit × Action Unit × Output)

/-- In a call that found the FAT as `L`. -/
structure During (b : Volume) (disk : Nat → Buf) (L : Nat → BitVec 32) (c : Call) (es : Steps)
    (σ : State Unit) : Prop where
  inv : Inv b es σ
  place : ∃ M, At b L c (σ.threads ()) M ∧ Shows b disk σ.cache M
  mutex : (∀ i, σ.threads () ≠ .flushSlot i) → σ.mutex = none
  clean : ∀ i, σ.threads () = .flushSlot i → ∀ j < i, (σ.cache.slots j).dirty = false
  stored : ∀ e, σ.threads () = .updateUnlock e → (lastStored e es).isSome

/-- Between calls. -/
structure Rest (b : Volume) (disk : Nat → Buf) (L : Nat → BitVec 32) (es : Steps)
    (σ : State Unit) : Prop where
  inv : Inv b es σ
  idle : σ.threads () = .idle
  mutex : σ.mutex = none
  shows : Shows b disk σ.cache L

/-- The call has returned `o`. -/
structure Ended (b : Volume) (disk : Nat → Buf) (L : Nat → BitVec 32) (c : Call) (es : Steps)
    (σ : State Unit) (o : Output) : Prop where
  rest : Rest b disk (c.apply b L) es σ
  read : ∀ e, c = .readFatEntry e → o = .read e (some (L e &&& b.bits))
  clean : c = .flushFat true → ∀ i, (σ.cache.slots i).dirty = false
  stored : ∀ e val, c = .updateFatEntry e val → (lastStored e es).isSome

/-- The next step is possible. -/
def Advances (b : Volume) (disk : Nat → Buf) (L : Nat → BitVec 32) (c : Call) (es : Steps)
    (σ : State Unit) : Prop :=
  ∃ σ' o, σ.advance b () fine = some (σ', o) ∧
    (During b disk L c (es ++ [(σ, .step () fine, o)]) σ' ∧
        (σ'.threads ()).left b < (σ.threads ()).left b ∨
      Ended b disk L c (es ++ [(σ, .step () fine, o)]) σ' o)

section

variable {L M : Nat → BitVec 32} {es : Steps} {σ σ' : State Unit} {d : Doing} {o : Output}

theorem goto_threads {c' : Cache} : (σ.goto () c' d).threads () = d := by simp [State.goto]

theorem During.goOn (h : During b disk L c es σ) (hb : b.numfats ≤ 2)
    (hstep : σ.advance b () fine = some (σ', o)) (hd : σ'.threads () = d) (hmutex : σ'.mutex = none)
    (hat : At b L c d M) (hshows : Shows b disk σ'.cache M) (hflush : ∀ i, d ≠ .flushSlot i)
    (hstored : ∀ e, d = .updateUnlock e →
      (lastStored e (es ++ [(σ, .step () fine, o)])).isSome)
    (hleft : d.left b < (σ.threads ()).left b) : Advances b disk L c es σ := by
  subst hd
  refine ⟨σ', o, hstep, Or.inl ⟨⟨?_, ⟨M, hat, hshows⟩, fun _ => hmutex, ?_, hstored⟩, hleft⟩⟩
  · exact h.inv.advance hb (undisturbed_of_subsingleton ..) hstep
  · exact fun i hi => absurd hi (hflush i)

theorem During.returns (h : During b disk L c es σ) (hb : b.numfats ≤ 2)
    (hstep : σ.advance b () fine = some (σ', o)) (hd : σ'.threads () = .idle)
    (hmutex : σ'.mutex = none) (hshows : Shows b disk σ'.cache (c.apply b L))
    (hread : ∀ e, c = .readFatEntry e → o = .read e (some (L e &&& b.bits)))
    (hclean : c = .flushFat true → ∀ i, (σ'.cache.slots i).dirty = false)
    (hstored : ∀ e val, c = .updateFatEntry e val →
      (lastStored e (es ++ [(σ, .step () fine, o)])).isSome) : Advances b disk L c es σ := by
  refine ⟨σ', o, hstep, Or.inr ⟨⟨?_, hd, hmutex, hshows⟩, hread, hclean, hstored⟩⟩
  exact h.inv.advance hb (undisturbed_of_subsingleton ..) hstep

/-- `cache_fat_sector` returns the sector. -/
theorem During.enter (h : During b disk L c es σ) (hb : b.numfats ≤ 2) {s : Nat} (dirty : Bool)
    (failed : Output) (hs : s < b.fatsize) (hmutex : σ.mutex = none) (d : Doing) :
    ∃ c', σ.enter b () s dirty fine d failed = some (σ.goto () c' d, .nothing) ∧
      ∀ M, Shows b disk σ.cache M → Shows b disk c' M := by
  obtain ⟨c', hc⟩ := Cache.cacheFatSector_fine (b := b) (c := σ.cache) (s := s) dirty
  refine ⟨c', ?_, fun M hM => ?_⟩
  · simp [State.enter, hmutex, hc]
  · exact hM.keeps (Cache.cacheFatSector_spec hb h.inv.ok hs hc).keeps
      (Cache.cacheFatSector_wrote hb h.inv.ok hs hc)

theorem During.unlock (h : During b disk L c es σ) (s : Nat) (hM : Shows b disk σ.cache M) :
    Shows b disk (σ.cache.unlockFatSector b s) M :=
  hM.keeps (Cache.unlock_spec h.inv.ok s).1 (.of_eq rfl)

/-- A store to the entry that the thread has. -/
theorem During.store (h : During b disk L c es σ) {x : BitVec 32}
    (hto : (σ.threads ()).storesTo = some e) (hM : Shows b disk σ.cache M)
    (htop : b.isFat16 = false → x &&& ~~~ b.bits = M e &&& ~~~ b.bits) :
    Shows b disk (σ.cache.set b e x) (Function.update M e x) := by
  have hsector : (σ.threads ()).sector b = some (b.sectorOf e) := by
    revert hto
    cases σ.threads () <;> intro hto <;> cases hto <;> rfl
  have hh := h.inv.holds () _ hsector
  have hd := h.inv.pending () e hto
  exact hM.store (Cache.set_spec h.inv.ok hh hd x) hh hd htop

/-- What it reads. -/
theorem During.get (h : During b disk L c es σ) (hreads : (σ.threads ()).reads b = some e)
    (hfat : b.sectorOf e < b.fatsize) (hM : Shows b disk σ.cache M) : σ.cache.get b e = M e := by
  rw [(h.inv.reads hreads).2, hM.entries e hfat]

/-! ## Steps -/

theorem During.advance_read (h : During b disk L c es σ) (hb : b.numfats ≤ 2) {e : Nat}
    (hc : c = .readFatEntry e) : Advances b disk L c es σ := by
  subst hc
  obtain ⟨M, hat, hM⟩ := h.place
  have hok := h.inv.threads ()
  have hreads := fun x => h.get (e := x) (M := M)
  have hmutex : σ.mutex = none := h.mutex fun i hi => by
    rw [hi] at hat
    cases hat
  generalize hd : σ.threads () = d at hat hok hreads
  cases hat with
  | readCache =>
    obtain ⟨c', hc, hshows⟩ := h.enter hb false (.read e none) hok hmutex
      (.readLoad e)
    have hstep : σ.advance b () fine = some (σ.goto () c' (.readLoad e), Output.nothing) := by
      rw [State.advance, hd]
      exact hc
    exact h.goOn hb hstep goto_threads hmutex (.readLoad e) (hshows _ hM) (by simp) (by simp)
      (by simp [hd, Doing.left])
  | readLoad =>
    have hstep : σ.advance b () fine =
        some (σ.goto () σ.cache (.readUnlock e (L e &&& b.bits)), Output.nothing) := by
      rw [State.advance, hd, ← hreads e rfl hok hM]
    exact h.goOn hb hstep goto_threads hmutex (.readUnlock e) hM (by simp) (by simp)
      (by simp [hd, Doing.left])
  | readUnlock =>
    have hstep : σ.advance b () fine = some
        (σ.goto () (σ.cache.unlockFatSector b (b.sectorOf e)) Doing.idle,
          Output.read e (some (L e &&& b.bits))) := by
      rw [State.advance, hd]
    exact h.returns hb hstep goto_threads hmutex (h.unlock _ hM) (by simp) (by simp) (by simp)

theorem bits_le (b : Volume) (v : Nat) :
    BitVec.ofNat 32 (b.argument v) &&& b.bits = BitVec.ofNat 32 v &&& b.bits := by
  cases h : b.isFat16 with
  | false => rw [Volume.argument, if_neg (by simp [h])]
  | true =>
    rw [Volume.argument, if_pos h, Volume.bits, if_pos h]
    apply BitVec.eq_of_toNat_eq
    have hmask : (0xffff : BitVec 32).toNat = 2 ^ 16 - 1 := rfl
    rw [BitVec.toNat_and, BitVec.toNat_and, hmask, Nat.and_two_pow_sub_one_eq_mod,
      Nat.and_two_pow_sub_one_eq_mod, BitVec.toNat_ofNat, BitVec.toNat_ofNat]
    omega

theorem During.advance_update (h : During b disk L c es σ) (hb : b.numfats ≤ 2) {e v : Nat}
    (hc : c = .updateFatEntry e v) : Advances b disk L c es σ := by
  subst hc
  obtain ⟨M, hat, hM⟩ := h.place
  have hok := h.inv.threads ()
  have hreads := fun x => h.get (e := x) (M := M)
  have hstore := fun x => h.store (e := e) (x := x) (M := M)
  have hmutex : σ.mutex = none := h.mutex fun i hi => by
    rw [hi] at hat
    cases hat
  have hstored := h.stored
  generalize hd : σ.threads () = d at hat hok hreads hstore hstored
  cases hat with
  | updateCache =>
    obtain ⟨c', hc, hshows⟩ := h.enter hb true (.updated e false) hok hmutex
      (.updateLoad e (b.argument v))
    have hstep : σ.advance b () fine =
        some (σ.goto () c' (.updateLoad e (b.argument v)), Output.nothing) := by
      rw [State.advance, hd]
      exact hc
    exact h.goOn hb hstep goto_threads hmutex (.updateLoad e v) (hshows _ hM) (by simp) (by simp)
      (by simp [hd, Doing.left])
  | updateLoad =>
    cases h16 : b.isFat16 with
    | true =>
      have hstep : ∃ σ', σ.advance b () fine = some (σ', Output.nothing) ∧
          σ'.threads () = Doing.updateAssign e (b.argument v) ∧ σ'.mutex = σ.mutex ∧
          σ'.cache = σ.cache := by
        rw [State.advance, hd]
        simp only [h16, if_pos]
        exact ⟨_, rfl, by simp [State.goto], rfl, rfl⟩
      obtain ⟨σ', hstep, hthread, hm, hcache⟩ := hstep
      exact h.goOn hb hstep hthread (hm.trans hmutex) (.updateAssign e v) (hcache ▸ hM) (by simp)
        (by simp) (by simp [hd, Doing.left])
    | false =>
      have hstep : ∃ σ', σ.advance b () fine = some (σ', Output.nothing) ∧
          σ'.threads () = Doing.updateAnd e (b.argument v) ∧ σ'.mutex = σ.mutex ∧
          σ'.cache = σ.cache := by
        rw [State.advance, hd]
        simp only [h16, Bool.false_eq_true, if_false]
        exact ⟨_, rfl, by simp [State.goto], rfl, rfl⟩
      obtain ⟨σ', hstep, hthread, hm, hcache⟩ := hstep
      exact h.goOn hb hstep hthread (hm.trans hmutex) (.updateAnd e v) (hcache ▸ hM) (by simp)
        (by simp) (by simp [hd, Doing.left])
  | updateAssign =>
    have hstep : σ.advance b () fine =
        some (σ.goto () (σ.cache.set b e (BitVec.ofNat 32 (b.argument v) &&& b.bits))
          (.updateUnlock e), Output.stored e (b.argument v)) := by
      rw [State.advance, hd]
    have hvalue : BitVec.ofNat 32 (b.argument v) &&& b.bits = b.written (L e) v := by
      rw [bits_le, Volume.written, if_pos hok.2]
      simp
    have hshows : Shows b disk (σ.cache.set b e (BitVec.ofNat 32 (b.argument v) &&& b.bits))
        (Function.update L e (b.written (L e) v)) := by
      rw [hvalue]
      refine hstore _ rfl hM fun h32 => ?_
      rw [hok.2] at h32
      cases h32
    refine h.goOn hb hstep goto_threads hmutex (.updateUnlock e v) hshows (by simp) ?_
      (by simp [hd, Doing.left])
    intro e' he
    cases he
    simp [lastStored_stored]
  | updateAnd =>
    have hget := hreads e rfl hok.1 hM
    have hstep : σ.advance b () fine =
        some (σ.goto () (σ.cache.set b e (L e &&& ~~~ b.bits)) (.updateOr e (b.argument v)),
          Output.nothing) := by
      rw [State.advance, hd, ← hget]
    have hshows := hstore (L e &&& ~~~ b.bits) rfl hM fun _ => by
      rw [BitVec.and_assoc, BitVec.and_self]
    exact h.goOn hb hstep goto_threads hmutex (.updateOr e v) hshows (by simp) (by simp)
      (by simp [hd, Doing.left])
  | updateOr =>
    have hget := hreads e rfl hok.1 hM
    rw [Function.update_self] at hget
    have hvalue : (L e &&& ~~~ b.bits) ||| BitVec.ofNat 32 (b.argument v) &&& b.bits =
        b.written (L e) v := by
      rw [bits_le, Volume.written, if_neg (by simp [hok.2])]
    have hstep : σ.advance b () fine =
        some (σ.goto () (σ.cache.set b e (b.written (L e) v)) (.updateUnlock e),
          Output.stored e (b.argument v)) := by
      rw [State.advance, hd, ← hvalue, ← hget]
    have hshows := hstore (b.written (L e) v) rfl hM fun h32 => by
      rw [Volume.written_top _ _ h32, Function.update_self, BitVec.and_assoc, BitVec.and_self]
    rw [Function.update_idem] at hshows
    refine h.goOn hb hstep goto_threads hmutex (.updateUnlock e v) hshows (by simp) ?_
      (by simp [hd, Doing.left])
    intro e' he
    cases he
    simp [lastStored_stored]
  | updateUnlock =>
    have hstep : σ.advance b () fine = some
        (σ.goto () (σ.cache.unlockFatSector b (b.sectorOf e)) Doing.idle, Output.updated e true) := by
      rw [State.advance, hd]
    refine h.returns hb hstep goto_threads hmutex (h.unlock _ hM) (by simp) (by simp) ?_
    intro e' val hc
    cases hc
    rw [lastStored_silent fun _ _ => by simp]
    exact hstored e rfl

theorem During.advance_find (h : During b disk L c es σ) (hb : b.numfats ≤ 2) {s : Nat}
    (hc : c = .findFreeCluster s) : Advances b disk L c es σ := by
  subst hc
  obtain ⟨M, hat, hM⟩ := h.place
  have hmutex : σ.mutex = none := h.mutex fun i hi => by
    rw [hi] at hat
    cases hat
  generalize hd : σ.threads () = d at hat
  cases hat with
  | @findCache i _ hi =>
    have hsector : State.findSector b s i < b.fatsize := Nat.mod_lt _ (by omega)
    have hturn : (b.fatsize - i) * (b.perSector + 2) =
        (b.fatsize - (i + 1)) * (b.perSector + 2) + (b.perSector + 2) := by
      rw [← Nat.succ_mul]
      congr 1
      omega
    by_cases hper : 0 < b.perSector
    · obtain ⟨c', hc, hshows⟩ := h.enter hb false (.found none) hsector hmutex
        (.findLoad s i 0)
      have hstep : σ.advance b () fine = some (σ.goto () c' (.findLoad s i 0), Output.nothing) := by
        rw [State.advance, hd, ← hc]
        simp only [if_pos hper]
      refine h.goOn hb hstep goto_threads hmutex (.findLoad s hi hper) (hshows _ hM) (by simp)
        (by simp) ?_
      simp only [hd, Doing.left, hturn]
      omega
    · obtain ⟨c', hc, hshows⟩ := h.enter hb false (.found none) hsector hmutex
        (.findUnlock s i none)
      have hstep : σ.advance b () fine = some (σ.goto () c' (.findUnlock s i none), Output.nothing) := by
        rw [State.advance, hd, ← hc]
        simp only [if_neg hper]
      refine h.goOn hb hstep goto_threads hmutex (.findUnlock s hi none) (hshows _ hM) (by simp)
        (by simp) ?_
      simp only [hd, Doing.left, hturn]
      omega
  | @findLoad i j _ hi hj =>
    have hnext : ∀ d', At b L (.findFreeCluster s) d' L → σ.advance b () fine =
        some (σ.goto () σ.cache d', Output.nothing) → (∀ e, d' ≠ Doing.updateUnlock e) →
        (∀ i, d' ≠ Doing.flushSlot i) → d'.left b < (Doing.findLoad s i j).left b →
          Advances b disk L (.findFreeCluster s) es σ := by
      intro d' hat hstep hno hflush hleft
      exact h.goOn hb hstep goto_threads hmutex hat hM hflush (fun e he => absurd he (hno e))
        (hd ▸ hleft)
    by_cases hfree : σ.cache.get b (State.findEntry b s i j) &&& b.bits = 0 ∧
        b.Data (State.findEntry b s i j)
    · refine hnext _ (.findUnlock s hi (some (State.findEntry b s i j))) ?_ (by simp) (by simp) ?_
      · rw [State.advance, hd]
        simp only [if_pos hfree]
      · simp only [Doing.left]
        omega
    · by_cases hlast : j + 1 < b.perSector
      · refine hnext _ (.findLoad s hi hlast) ?_ (by simp) (by simp) ?_
        · rw [State.advance, hd]
          simp only [if_neg hfree, if_pos hlast]
        · simp only [Doing.left]
          omega
      · refine hnext _ (.findUnlock s hi none) ?_ (by simp) (by simp) ?_
        · rw [State.advance, hd]
          simp only [if_neg hfree, if_neg hlast]
        · simp only [Doing.left]
          omega
  | @findUnlock i _ hi found =>
    have hshows := h.unlock (State.findSector b s i) hM
    cases found with
    | some r =>
      have hstep : ∃ σ', σ.advance b () fine = some (σ', Output.found (some r)) ∧
          σ'.threads () = Doing.idle ∧ σ'.mutex = σ.mutex ∧
          σ'.cache = σ.cache.unlockFatSector b (State.findSector b s i) := by
        rw [State.advance, hd]
        exact ⟨_, rfl, by simp [State.goto], rfl, rfl⟩
      obtain ⟨σ', hstep, hthread, hm, hcache⟩ := hstep
      exact h.returns hb hstep hthread (hm.trans hmutex) (hcache ▸ hshows) (by simp) (by simp)
        (by simp)
    | none =>
      by_cases hlast : i + 1 < b.fatsize
      · have hstep : σ.advance b () fine =
            some (σ.goto () (σ.cache.unlockFatSector b (State.findSector b s i))
              (.findCache s (i + 1)), Output.nothing) := by
          rw [State.advance, hd]
          simp only [if_pos hlast]
        refine h.goOn hb hstep goto_threads hmutex (.findCache s hlast) hshows (by simp) (by simp) ?_
        simp only [hd, Doing.left]
        omega
      · have hstep : σ.advance b () fine =
            some (σ.goto () (σ.cache.unlockFatSector b (State.findSector b s i)) Doing.idle,
              Output.found none) := by
          rw [State.advance, hd]
          simp only [if_neg hlast]
        exact h.returns hb hstep goto_threads hmutex hshows (by simp) (by simp) (by simp)

/-- A slot that a flush leaves out is clean. -/
theorem Inv.clean_of_not (h : Inv b es σ) {i : Nat}
    (hno : ¬ ((σ.cache.slots i).valid = true ∧ (σ.cache.slots i).dirty = true)) :
    (σ.cache.slots i).dirty = false := by
  cases hv : (σ.cache.slots i).valid with
  | false => exact h.ok.empty i hv
  | true => simpa [hv] using hno

theorem During.advance_flush (h : During b disk L c es σ) (hb : b.numfats ≤ 2) {force : Bool}
    (hc : c = .flushFat force) : Advances b disk L c es σ := by
  subst hc
  obtain ⟨M, hat, hM⟩ := h.place
  have hclean := h.clean
  have hmutex := h.mutex
  generalize hd : σ.threads () = d at hat hclean hmutex
  have hinv : ∀ {σ' o}, σ.advance b () fine = some (σ', o) →
      Inv b (es ++ [(σ, Action.step () fine, o)]) σ' := fun hstep =>
    h.inv.advance hb (undisturbed_of_subsingleton ..) hstep
  have hnext : ∀ {σ' : State Unit} {i : Nat}, σ.advance b () fine = some (σ', Output.nothing) →
      σ'.threads () = Doing.flushSlot i → i ≤ 4 → Shows b disk σ'.cache L →
      (∀ j < i, (σ'.cache.slots j).dirty = false) → 5 - i < d.left b →
        Advances b disk L (.flushFat force) es σ := by
    intro σ' i hstep hthread hi hshows hcl hleft
    refine ⟨σ', _, hstep, Or.inl ⟨⟨hinv hstep, ⟨L, ?_, hshows⟩, fun hno => absurd hthread (hno i),
      fun i' hi' => ?_, fun e he => ?_⟩, ?_⟩⟩
    · rw [hthread]
      exact .flushSlot force hi
    · rw [hthread] at hi'
      cases hi'
      exact hcl
    · rw [hthread] at he
      cases he
    · rw [hthread, hd]
      exact hleft
  cases hat with
  | flushLock =>
    have hnone : σ.mutex = none := hmutex (by simp)
    have hstep : ∃ σ', σ.advance b () fine = some (σ', Output.nothing) ∧
        σ'.threads () = Doing.flushSlot 0 ∧ σ'.cache = σ.cache := by
      rw [State.advance, hd]
      simp only [hnone, Option.isSome_none, Bool.false_eq_true, if_false]
      exact ⟨_, rfl, by simp [State.goto], rfl⟩
    obtain ⟨σ', hstep, hthread, hcache⟩ := hstep
    exact hnext hstep hthread (by omega) (hcache ▸ hM) (by simp) (by simp [Doing.left])
  | @flushSlot i _ hi =>
    have hprev := hclean i rfl
    by_cases h4 : i < 4
    · by_cases hvd : (σ.cache.slots i).valid = true ∧ (σ.cache.slots i).dirty = true
      · obtain ⟨c', hflush⟩ := Cache.flushFatSector_fine (b := b) (c := σ.cache) (i := i)
        obtain ⟨s, hs, -⟩ := h.inv.ok.placed i hvd.1
        have hf := Cache.flushFatSector_spec (by omega) hflush
        have hstep : σ.advance b () fine = some (σ.goto () c' (.flushSlot (i + 1)), Output.nothing) := by
          rw [State.advance, hd]
          simp only [if_pos h4, if_pos hvd, hflush, Option.map_some]
        refine hnext hstep goto_threads (by omega) (hM.keeps (hf.keeps hb h.inv.ok hvd.1)
          (hf.wrote hb h.inv.ok hvd.1)) (fun j hj => ?_) (by simp only [Doing.left]; omega)
        show (c'.slots j).dirty = false
        by_cases hji : j = i
        · rw [hji, hf.slot_eq]
        · rw [hf.slot_ne hji]
          exact hprev j (by omega)
      · have hstep : σ.advance b () fine =
            some (σ.goto () σ.cache (.flushSlot (i + 1)), Output.nothing) := by
          rw [State.advance, hd]
          simp only [if_pos h4, if_neg hvd]
        refine hnext hstep goto_threads (by omega) hM (fun j hj => ?_)
          (by simp only [Doing.left]; omega)
        show (σ.cache.slots j).dirty = false
        by_cases hji : j = i
        · rw [hji]
          exact h.inv.clean_of_not hvd
        · exact hprev j (by omega)
    · have hstep : ∃ σ', σ.advance b () fine = some (σ', Output.flushed) ∧
          σ'.threads () = Doing.idle ∧ σ'.mutex = none ∧ σ'.cache = σ.cache := by
        rw [State.advance, hd]
        simp only [if_neg h4]
        exact ⟨_, rfl, by simp [State.goto], rfl, rfl⟩
      obtain ⟨σ', hstep, hthread, hm, hcache⟩ := hstep
      refine h.returns hb hstep hthread hm (hcache ▸ hM) (by simp) (fun _ j => ?_) (by simp)
      rw [hcache]
      by_cases hj : j < i
      · exact hprev j hj
      · refine h.inv.clean_of_not fun hvd => ?_
        obtain ⟨s, -, -, hindex⟩ := h.inv.ok.placed j hvd.1
        have hlt : Cache.index b s < 4 := Nat.mod_lt _ (by omega)
        omega

theorem During.advance (h : During b disk L c es σ) (hb : b.numfats ≤ 2) :
    Advances b disk L c es σ := by
  cases c with
  | readFatEntry e => exact h.advance_read hb rfl
  | updateFatEntry e v => exact h.advance_update hb rfl
  | findFreeCluster s => exact h.advance_find hb rfl
  | flushFat force => exact h.advance_flush hb rfl

/-! ## Calls -/

end

theorem At.left_pos {L M : Nat → BitVec 32} {d : Doing} (h : At b L c d M) : 0 < d.left b := by
  cases h with
  | @findCache i s hi => exact Nat.mul_pos (by omega) (by omega)
  | @findLoad i j s hi hj => exact Nat.succ_pos _
  | @findUnlock i s hi found => exact Nat.succ_pos _
  | @flushSlot i force hi =>
    simp only [Doing.left]
    omega
  | _ => simp [Doing.left]

theorem Doing.isIdle_eq_false {d : Doing} (h : 0 < d.left b) : d.isIdle = false := by
  cases d with
  | idle => exact absurd h (Nat.lt_irrefl 0)
  | _ => rfl

theorem At.left_le {L M : Nat → BitVec 32} {d : Doing} (h : At b L c d M) : d.left b ≤ b.turns := by
  unfold Volume.turns
  have hle : ∀ k, (b.fatsize - k) * (b.perSector + 2) ≤ b.fatsize * (b.perSector + 2) :=
    fun k => Nat.mul_le_mul_right _ (Nat.sub_le _ _)
  cases h with
  | @findCache i s hi =>
    have := hle i
    simp only [Doing.left]
    omega
  | @findLoad i j s hi hj =>
    have hturn : (b.fatsize - i) * (b.perSector + 2) =
        (b.fatsize - (i + 1)) * (b.perSector + 2) + (b.perSector + 2) := by
      rw [← Nat.succ_mul]
      congr 1
      omega
    have := hle i
    simp only [Doing.left]
    omega
  | @findUnlock i s hi found =>
    have := hle (i + 1)
    simp only [Doing.left]
    omega
  | _ =>
    simp only [Doing.left]
    omega

section

variable {L : Nat → BitVec 32} {es es' : Steps} {σ σ' : State Unit} {o o' : Output}

theorem lastStored_mono (h : (lastStored e es).isSome = true) :
    (lastStored e (es ++ es')).isSome = true := by
  induction es' generalizing es with
  | nil => rwa [List.append_nil]
  | cons x es' ih =>
    obtain ⟨σ, a, o⟩ := x
    rw [List.append_cons]
    refine ih ?_
    rw [lastStored_append]
    simp [h]

/-- A call that is under way returns. -/
theorem During.finish {n : Nat} (h : During b disk L c es σ) (hb : b.numfats ≤ 2)
    (hn : (σ.threads ()).left b ≤ n) (o : Output) :
    ∃ σ' o' es', Caching.finish b n σ o = some (σ', o') ∧ Ended b disk L c (es ++ es') σ' o' := by
  obtain ⟨M, hat, -⟩ := h.place
  have hpos := hat.left_pos
  induction n generalizing es σ o M with
  | zero => omega
  | succ n ih =>
    obtain ⟨σ', o', hstep, hnext⟩ := h.advance hb
    have hfinish : Caching.finish b (n + 1) σ o = Caching.finish b n σ' o' := by
      simp [Caching.finish, Doing.isIdle_eq_false hpos, hstep]
    rw [hfinish]
    rcases hnext with ⟨hduring, hleft⟩ | hend
    · obtain ⟨M', hat', -⟩ := hduring.place
      obtain ⟨σ'', o'', es', hrun, hend⟩ :=
        ih hduring (by omega) o' (M := M') hat' hat'.left_pos
      rw [List.append_assoc] at hend
      exact ⟨σ'', o'', _, hrun, hend⟩
    · refine ⟨σ', o', _, ?_, hend⟩
      have hidle : (σ'.threads ()).isIdle = true := by
        rw [hend.rest.idle]
        rfl
      cases n <;> simp [Caching.finish, hidle]

/-- A call that begins. -/
theorem Rest.call (h : Rest b disk L es σ) (hb : b.numfats ≤ 2) (hfat : c.InFat b) (hlegal : c.Legal b) :
    ∃ σ' o es', step b σ (.call () c) = some (σ', o) ∧
      (During b disk L c (es ++ es') σ' ∨ Ended b disk L c (es ++ es') σ' o) := by
  have hstep : step b σ (.call () c) = σ.call b () c := by
    rw [step, h.idle]
  have hinv : ∀ {σ' o}, σ.call b () c = some (σ', o) →
      Inv b (es ++ [(σ, Action.call () c, o)]) σ' := fun hcall =>
    h.inv.step hb hfat (undisturbed_of_subsingleton ..) (hstep.trans hcall)
  rw [hstep]
  have hbegin : ∀ {d : Doing}, σ.call b () c = some (σ.goto () σ.cache d, Output.nothing) →
      At b L c d L → (∀ i, d ≠ Doing.flushSlot i) → (∀ e, d ≠ Doing.updateUnlock e) →
        ∃ σ' o es', σ.call b () c = some (σ', o) ∧
          (During b disk L c (es ++ es') σ' ∨ Ended b disk L c (es ++ es') σ' o) := by
    intro d hcall hat hflush hunlock
    refine ⟨_, _, _, hcall, Or.inl ⟨hinv hcall, ⟨L, ?_, h.shows⟩, fun _ => h.mutex, fun i hi => ?_,
      fun e he => ?_⟩⟩
    · rw [goto_threads]
      exact hat
    · rw [goto_threads] at hi
      exact absurd hi (hflush i)
    · rw [goto_threads] at he
      exact absurd he (hunlock e)
  cases c with
  | readFatEntry e => exact hbegin rfl (.readCache e) (by simp) (by simp)
  | updateFatEntry e v =>
    refine hbegin ?_ (.updateCache e v) (by simp) (by simp)
    simp only [State.call]
    exact if_neg hlegal
  | findFreeCluster s =>
    by_cases hpos : 0 < b.fatsize
    · refine hbegin ?_ (.findCache s hpos) (by simp) (by simp)
      simp only [State.call, if_pos hpos]
    · have hcall : σ.call b () (.findFreeCluster s) = some (σ, Output.found none) := by
        simp only [State.call, if_neg hpos]
      exact ⟨_, _, _, hcall, Or.inr ⟨⟨hinv hcall, h.idle, h.mutex, h.shows⟩, by simp, by simp,
        by simp⟩⟩
  | flushFat force =>
    by_cases hskip : σ.disabled = true ∧ ¬ force = true
    · have hcall : σ.call b () (.flushFat force) = some (σ, Output.nothing) := by
        simp only [State.call, if_pos hskip]
      refine ⟨_, _, _, hcall, Or.inr ⟨⟨hinv hcall, h.idle, h.mutex, h.shows⟩, by simp, fun hf => ?_,
        by simp⟩⟩
      cases hf
      exact absurd rfl hskip.2
    · refine hbegin ?_ (.flushLock force) (by simp) (by simp)
      simp only [State.call, if_neg hskip]

/-- A call, from its begin to its end. -/
theorem perform_spec (h : Rest b disk L es σ) (hb : b.numfats ≤ 2) (hfat : c.InFat b)
    (hlegal : c.Legal b) : ∃ σ' o es', perform b σ c = some (σ', o) ∧
      Ended b disk L c (es ++ es') σ' o := by
  obtain ⟨σ₁, o₁, es₁, hstep, hnext⟩ := h.call hb hfat hlegal
  have hperform : perform b σ c = Caching.finish b b.turns σ₁ o₁ := by
    simp [perform, hstep]
  rw [hperform]
  rcases hnext with hduring | hend
  · obtain ⟨M, hat, -⟩ := hduring.place
    obtain ⟨σ', o, es', hrun, hend⟩ := hduring.finish hb hat.left_le o₁
    rw [List.append_assoc] at hend
    exact ⟨σ', o, _, hrun, hend⟩
  · refine ⟨σ₁, o₁, es₁, ?_, hend⟩
    have hidle : (σ₁.threads ()).isIdle = true := by
      rw [hend.rest.idle]
      rfl
    cases b.turns <;> simp [Caching.finish, hidle]

theorem legal_of_perform {r : State Unit × Output} (h : perform b σ c = some r) : c.Legal b := by
  obtain ⟨r₁, hstep, -⟩ := Option.bind_eq_some_iff.1 h
  cases c with
  | updateFatEntry e v =>
    intro hpanic
    simp only [step] at hstep
    split at hstep
    · simp only [State.call] at hstep
      rw [if_pos hpanic] at hstep
      cases hstep
    · cases hstep
  | _ => trivial

end

/-! ## Runs of calls -/

abbrev Calls := List (State Unit × Call × Output)

def Calls.calls (es : Calls) : List Call := es.map fun x => x.2.1

/-- All that was updated is on the disk: a copy of a sector is the FAT that is meant if it is the
first, if the copies were the same, or if an entry of the sector was updated. -/
structure Synced (b : Volume) (disk : Nat → Buf) (cs : List Call) (c : Cache) : Prop where
  clean : ∀ i, (c.slots i).dirty = false
  copies : ∀ k < b.numfats, ∀ e, b.sectorOf e < b.fatsize →
    (k = 0 ∨ b.Mirrored disk (b.sectorOf e) ∨
      ∃ e', b.sectorOf e' = b.sectorOf e ∧ (lastUpdate e' cs).isSome) →
    b.entry c.disk k e = b.logical disk cs e

/-- What the calls `es` show, and what they leave. -/
structure Coherent (b : Volume) (disk : Nat → Buf) (es : Calls) (σ : State Unit) : Prop where
  reads : ∀ pre σ₁ e o post, es = pre ++ (σ₁, .readFatEntry e, o) :: post →
    o = .read e (some (b.logical disk (Calls.calls pre) e &&& b.bits))
  entries : ∀ e, b.sectorOf e < b.fatsize →
    σ.cache.view b (b.sectorOf e) (b.offsetOf e) = b.logical disk (Calls.calls es) e
  /-- The top 4 bits on the disk do not change, if the copies have the same. -/
  top : b.isFat16 = false → ∀ e, b.sectorOf e < b.fatsize → ∀ k < b.numfats,
    k = 0 ∨ b.Mirrored disk (b.sectorOf e) →
      b.entry σ.cache.disk k e &&& ~~~ b.bits = b.entry disk 0 e &&& ~~~ b.bits
  flushed : ∀ pre σ₁ o, es = pre ++ [(σ₁, .flushFat true, o)] →
    Synced b disk (Calls.calls es) σ.cache
  returns : ∀ c : Call, c.InFat b → c.Legal b → ∃ σ' o, perform b σ c = some (σ', o)

section

variable {es : Calls} {σ σ' : State Unit} {o : Output} {freecount nextfree : Nat} {disabled : Bool}

/-- The invariant of the runs. -/
structure Coheres (b : Volume) (disk : Nat → Buf) (es : Calls) (steps : Steps)
    (σ : State Unit) : Prop where
  rest : Rest b disk (b.logical disk es.calls) steps σ
  stored : ∀ e, (lastUpdate e es.calls).isSome → (lastStored e steps).isSome
  reads : ∀ pre σ₁ e o post, es = pre ++ (σ₁, .readFatEntry e, o) :: post →
    o = .read e (some (b.logical disk (Calls.calls pre) e &&& b.bits))
  clean : ∀ pre σ₁ o, es = pre ++ [(σ₁, .flushFat true, o)] → ∀ i, (σ.cache.slots i).dirty = false

theorem Coheres.perform {steps : Steps} (h : Coheres b disk es steps σ) (hb : b.numfats ≤ 2)
    (hfat : c.InFat b) (hstep : Caching.perform b σ c = some (σ', o)) :
    ∃ steps', Coheres b disk (es ++ [(σ, c, o)]) steps' σ' := by
  obtain ⟨σ₁, o₁, es', hrun, hend⟩ := perform_spec h.rest hb hfat (legal_of_perform hstep)
  rw [hrun] at hstep
  cases hstep
  have hcalls : Calls.calls (es ++ [(σ, c, o)]) = es.calls ++ [c] := by
    simp [Calls.calls]
  refine ⟨steps ++ es', ?_, fun e he => ?_, fun pre σ₂ e o' post heq => ?_,
    fun pre σ₂ o' heq => ?_⟩
  · rw [hcalls, logical_append]
    exact hend.rest
  · rw [hcalls, lastUpdate_append] at he
    cases hc : c.updates e with
    | none =>
      rw [hc, Option.none_or] at he
      exact lastStored_mono (h.stored e he)
    | some v =>
      cases c with
      | updateFatEntry e' val =>
        simp only [Call.updates] at hc
        split at hc
        · rename_i heq
          rw [← heq]
          exact hend.stored e' val rfl
        · cases hc
      | _ => cases hc
  · rcases List.eq_nil_or_concat post with rfl | ⟨post, x, rfl⟩
    · obtain ⟨rfl, hlast⟩ := List.append_inj' heq rfl
      cases hlast
      exact hend.read e rfl
    · rw [List.concat_eq_append, ← List.cons_append, ← List.append_assoc] at heq
      exact h.reads pre σ₂ e o' post (List.append_inj' heq rfl).1
  · obtain ⟨-, hlast⟩ := List.append_inj' heq rfl
    cases hlast
    exact hend.clean rfl

theorem coheres_init (disk : Nat → Buf) :
    Coheres b disk [] [] (init disk freecount nextfree disabled) := by
  have hview : ∀ s, (init disk freecount nextfree disabled : State Unit).cache.view b s =
      disk (b.address 0 s) := by
    intro s
    refine Cache.view_of_not_holds ?_
    rintro ⟨hv, -⟩
    cases hv
  refine ⟨⟨inv_init b disk _ _ _, rfl, rfl, fun e he => ?_, fun s hs hm => Or.inr fun k hk => ?_,
    fun _ _ _ => rfl, fun _ e he k hk hm => ?_⟩, fun e he => ?_, by simp, by simp⟩
  · rw [hview]
    rfl
  · rw [hview]
    exact hm k hk
  · rcases hm with rfl | hm
    · rfl
    · show disk _ _ &&& _ = _
      rw [hm k hk]
      rfl
  · cases he

/-- One thread, no errors: in every run of whole calls. -/
theorem coherent_of_runs (hb : b.numfats ≤ 2)
    (hrun : Lts.Runs (Caching.perform b) (fun _ c => c.InFat b)
      (init disk freecount nextfree disabled) es σ) : Coherent b disk es σ := by
  have hall : ∃ steps, Coheres b disk es steps σ := by
    refine hrun.invariant_trace (I := fun es σ => ∃ steps, Coheres b disk es steps σ)
      ⟨[], coheres_init disk⟩ ?_
    rintro es σ c σ' o ⟨steps, h⟩ hfat hstep
    exact h.perform hb hfat hstep
  obtain ⟨steps, h⟩ := hall
  have hshows := h.rest.shows
  refine ⟨h.reads, hshows.entries, hshows.disk, fun pre σ₁ o heq => ?_, fun c hfat hlegal => ?_⟩
  · have hclean := h.clean pre σ₁ o heq
    refine ⟨hclean, fun k hk e he hcopy => ?_⟩
    have hnot : ∀ s, ¬ (σ.cache.Holds b s ∧
        (σ.cache.slots (Cache.index b s)).dirty = true) := by
      rintro s ⟨-, hd⟩
      rw [hclean] at hd
      cases hd
    have hsync : σ.cache.disk (b.address k (b.sectorOf e)) = σ.cache.view b (b.sectorOf e) := by
      have hof : σ.cache.Safe b (b.sectorOf e) →
          σ.cache.disk (b.address k (b.sectorOf e)) = σ.cache.view b (b.sectorOf e) := by
        rintro (hdirty | hsync)
        · exact absurd hdirty (hnot _)
        · exact hsync k hk
      rcases hcopy with rfl | hm | ⟨e', hsector, hupdate⟩
      · exact (h.rest.inv.ok.view_eq_disk (hnot _)).symm
      · exact hof (hshows.safe _ he hm)
      · obtain ⟨v, hv⟩ := Option.isSome_iff_exists.1 (h.stored e' hupdate)
        rw [← hsector]
        rw [← hsector] at hof
        exact hof (h.rest.inv.stored e' v hv).2.1
    rw [Volume.entry, hsync]
    exact hshows.entries e he
  · obtain ⟨σ', o, es', hrun, -⟩ := perform_spec h.rest hb hfat hlegal
    exact ⟨σ', o, hrun⟩

end

theorem small_coherent : ∃ es σ, Lts.Runs (perform small) (fun _ c => c.InFat small)
    (init (fun _ _ => 0) 0 0 false) es σ ∧ es.length = 3 ∧ Coherent small (fun _ _ => 0) es σ := by
  have htrace : ((Lts.trace (perform small) (init (fun _ _ => 0) 0 0 false)
      [.updateFatEntry 2 3, .readFatEntry 2, .flushFat true]).map fun r => r.1.length) =
        some 3 := by decide
  obtain ⟨⟨es, σ⟩, hr, hlen⟩ := Option.map_eq_some_iff.1 htrace
  have hrun : Lts.Runs (perform small) (fun _ c => c.InFat small)
      (init (fun _ _ => 0) 0 0 false) es σ := by
    refine Lts.trace_runs hr fun x c hc => ?_
    simp only [List.mem_cons, List.not_mem_nil, or_false] at hc
    rcases hc with rfl | rfl | rfl
    · exact (by decide : small.sectorOf 2 < small.fatsize)
    · exact (by decide : small.sectorOf 2 < small.fatsize)
    · trivial
  exact ⟨es, σ, hrun, hlen, coherent_of_runs (by decide) hrun⟩

/-- A flush leaves the second copy of a sector as it was, if nothing in it was updated. -/
theorem leaves_the_second_copy :
    ¬ ∀ (b : Volume) (disk : Nat → Buf) (freecount nextfree : Nat) (disabled : Bool) (es : Calls)
      (σ : State Unit), 1 ≤ b.numfats → b.numfats ≤ 2 →
      Lts.Runs (perform b) (fun _ c => c.InFat b) (init disk freecount nextfree disabled) es σ →
      ∀ pre σ₁ o, es = pre ++ [(σ₁, .flushFat true, o)] → ∀ k < b.numfats, ∀ e,
        b.sectorOf e < b.fatsize → b.entry σ.cache.disk k e = b.logical disk es.calls e := by
  intro h
  generalize hdisk : (fun x _ => if x = small.address 1 0 then 1 else 0 : Nat → Buf) = disk
  have hrun : ((perform small (init disk 0 0 false) (.flushFat true)).map fun r =>
      small.entry r.1.cache.disk 1 0) = some 1 := by
    subst hdisk
    decide
  have hlogical : small.logical disk [.flushFat true] 0 = 0 := by
    subst hdisk
    decide
  obtain ⟨⟨σ, o⟩, hstep, hentry⟩ := Option.map_eq_some_iff.1 hrun
  have hfat : Call.InFat small (.flushFat true) := trivial
  have hequal := h small disk 0 0 false _ σ (by decide) (by decide) (.single hfat hstep) [] _ o
    rfl 1 (by decide) 0 (by decide)
  rw [hentry] at hequal
  exact absurd (hequal.trans hlogical) (by decide)

end Caching
end Fat
end Freemyipod
