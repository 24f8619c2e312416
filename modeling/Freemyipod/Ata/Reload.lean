import Freemyipod.Ata.Transfer

/-!
# Ata.Reload

The loading of the bad block table.

* `Fits`: the headers whose pages the loop reads into the memory that was allocated for them.
* `loadRuns_spec`: the loop loads all pages, or frees the table.
* `reload_allOrNothing_iff`: exactly when a reload leaves all of a table, or none.
-/

namespace Freemyipod
namespace Ata

open Effect

/-- `buf[0x1ff]` -/
def Sector.count (h : Sector) : Nat := (h.word 0x1ff).toNat

/-- `buf[0x200 + i]` -/
def Sector.entry (h : Sector) (i : Nat) : BitVec 32 := h.word (0x200 + i)

/-- The pages are listed in the header, and the loop does not take what is behind the list for a
part of it: they are one run, or the word behind them does not go on with the last run. -/
structure Fits (h : Sector) : Prop where
  count_le : h.count ≤ 0x200
  ends : (∀ j, j + 1 < h.count → h.entry (j + 1) = h.entry j + 1) ∨
    h.count < 0x200 ∧ h.entry h.count ≠ h.entry (h.count - 1) + 1

/-! ## Runs -/

/-- The entries from `i` on are `n` sectors that follow each other. -/
def Sector.Run (h : Sector) (i n : Nat) : Prop :=
  ∀ j < n, h.entry (i + j) = h.entry i + BitVec.ofNat 32 j

/-- A run may start at `i`. -/
structure Starts (h : Sector) (i : Nat) : Prop where
  le : i ≤ h.count
  le' : i ≤ 0x200
  before : i = 0 ∨ i < 0x200 ∧ h.entry i ≠ h.entry (i - 1) + 1 ∨
    i = h.count ∧ ∀ j, j + 1 < h.count → h.entry (j + 1) = h.entry j + 1

variable {h : Sector} {i n c k : Nat} {dev : Device} {s t u : State}

theorem ofNat_succ (j : Nat) : BitVec.ofNat 32 (j + 1) = BitVec.ofNat 32 j + 1 := by
  rw [BitVec.ofNat_add]
  rfl

theorem Sector.Run.next (hr : h.Run i n) {j : Nat} (hj : j + 1 < n) :
    h.entry (i + j + 1) = h.entry (i + j) + 1 := by
  rw [Nat.add_assoc, hr (j + 1) hj, hr j (by omega), ofNat_succ, BitVec.add_assoc]

theorem Sector.run_one (h : Sector) (i : Nat) : h.Run i 1 := by
  intro j hj
  obtain rfl : j = 0 := by omega
  exact (BitVec.add_zero _).symm

theorem Sector.Run.snoc (hr : h.Run i n) (hn : h.entry (i + n) = h.entry i + BitVec.ofNat 32 n) :
    h.Run i (n + 1) := by
  intro j hj
  rcases Nat.lt_succ_iff_lt_or_eq.1 hj with hlt | rfl
  · exact hr j hlt
  · exact hn

/-- The end of a run that stays in the list starts another one. -/
theorem Starts.next (hi : Starts h i) (hic : i + c ≤ h.count) (hc : 0 < c) (hr : h.Run i c)
    (hle : i + c ≤ 0x200)
    (hstop : c < h.count → i + c < 0x200 ∧ h.entry (i + c) ≠ h.entry i + BitVec.ofNat 32 c) :
    Starts h (i + c) := by
  refine ⟨hic, hle, ?_⟩
  rcases Nat.lt_or_ge c h.count with hlt | hge
  · obtain ⟨hlt', hne⟩ := hstop hlt
    refine Or.inr (Or.inl ⟨hlt', fun heq => hne ?_⟩)
    obtain ⟨c, rfl⟩ : ∃ d, c = d + 1 := ⟨c - 1, by omega⟩
    rw [heq, show i + (c + 1) - 1 = i + c by omega, hr c (by omega), ofNat_succ, BitVec.add_assoc]
  · -- the run has as many pages as the list, so it starts with it
    obtain rfl : i = 0 := by omega
    refine Or.inr (Or.inr ⟨by omega, fun j hj => ?_⟩)
    have hnext := hr.next (j := j) (by omega)
    rwa [Nat.zero_add] at hnext

theorem Starts.fits (hs : Starts h h.count) : Fits h := by
  refine ⟨hs.le', ?_⟩
  rcases hs.before with h0 | hb | ⟨-, hall⟩
  · exact Or.inl fun j hj => by omega
  · exact Or.inr hb
  · exact Or.inl hall

/-- Behind the first run, the header only fits if its last run ends with the list. -/
theorem Starts.ends (hs : Starts h i) (h0 : i ≠ 0) (hi : i < h.count) (hfits : Fits h) :
    h.count < 0x200 ∧ h.entry h.count ≠ h.entry (h.count - 1) + 1 := by
  refine hfits.ends.resolve_left fun hall => ?_
  have hnext := hall (i - 1) (by omega)
  rw [show i - 1 + 1 = i by omega] at hnext
  rcases hs.before with hz | ⟨-, hb⟩ | ⟨heq, -⟩
  · exact h0 hz
  · exact hb hnext
  · omega

/-- A run that goes on behind the list. -/
theorem Starts.not_fits (hs : Starts h i) (h0 : i ≠ 0) (hi : i < h.count) (hr : h.Run i c)
    (hc : h.count < i + c) : ¬ Fits h := by
  intro hfits
  refine (hs.ends h0 hi hfits).2 ?_
  have hnext := hr.next (j := h.count - 1 - i) (by omega)
  rwa [show i + (h.count - 1 - i) + 1 = h.count by omega,
    show i + (h.count - 1 - i) = h.count - 1 by omega] at hnext

theorem headerWord_spec (hk : 0x200 ≤ k) :
    Ends (fun e => e = .fault ∧ 0x400 ≤ k) (headerWord k) s fun w t =>
      t = s ∧ k < 0x400 ∧ w = (s.mem .header 0).entry (k - 0x200) := by
  refine ends_ite.2 ⟨fun hlt => ?_, fun hge => ?_⟩
  · simp only [ends_bind, ends_get, ends_pure, true_and]
    refine ⟨hlt, ?_⟩
    rw [Sector.entry, show 0x200 + (k - 0x200) = k by omega]
  · rw [ends_throw]
    exact ⟨rfl, by omega⟩

/-- How far the run from `i` on goes. -/
structure RunEnds (h : Sector) (i c : Nat) : Prop where
  pos : 0 < c
  run : h.Run i c
  le : i + c ≤ 0x200
  le_count : c ≤ h.count
  stop : c < h.count → i + c < 0x200 ∧ h.entry (i + c) ≠ h.entry i + BitVec.ofNat 32 c

theorem runLength_spec (hh : s.mem .header 0 = h) (hn : h.count ≤ n + c) (hc : 0 < c)
    (hr : h.Run i c) (hle : i + c ≤ 0x200) (hcount : c ≤ h.count) :
    Ends (fun e => e = .fault ∧ ∃ c < h.count, 0x200 ≤ i + c ∧ h.Run i c)
      (runLength h.count i (h.entry i) n c) s fun c t => t = s ∧ RunEnds h i c := by
  induction n generalizing c with
  | zero =>
    rw [runLength, ends_pure]
    exact ⟨rfl, hc, hr, hle, hcount, fun hlt => by omega⟩
  | succ n ih =>
    refine ends_ite.2 ⟨fun hlt => ?_, fun hge => ?_⟩
    · rw [ends_bind]
      refine ((headerWord_spec (by omega)).faults ?_).mono ?_
      · rintro e ⟨rfl, hge⟩
        exact ⟨rfl, c, hlt, by omega, hr⟩
      · rintro w t ⟨rfl, hk, rfl⟩
        rw [hh, show 0x200 + i + c - 0x200 = i + c by omega]
        refine ends_ite.2 ⟨fun hne => ?_, fun heq => ?_⟩
        · rw [ends_pure]
          exact ⟨rfl, hc, hr, hle, hcount, fun _ => ⟨by omega, hne⟩⟩
        · exact ih (by omega) (by omega) (hr.snoc (not_not.1 heq)) (by omega) hlt
    · rw [ends_pure]
      exact ⟨rfl, hc, hr, hle, hcount, fun hlt => absurd hlt hge⟩

/-! ## Reading pages -/

theorem ask_spec (step : Step) (s : State) : Ends OutOfScript (ask step) s fun a t =>
    s.script = ⟨step, a⟩ :: t.script ∧ t = { s with script := t.script } := by
  simp only [ask, ends_bind, ends_get]
  cases hs : s.script with
  | nil =>
    rw [ends_throw]
    rfl
  | cons e script =>
    simp only [ends_ite, ends_bind, ends_modify, ends_pure, ends_throw]
    refine ⟨?_, fun _ => rfl⟩
    rintro rfl
    exact ⟨rfl, trivial⟩

theorem told_ask {step : Step} {a : Answer} (hs : s.script = ⟨step, a⟩ :: t.script)
    (h : step.tells = true) : s.told = ⟨step, a⟩ :: t.told := by
  simp [State.told, hs, h]

theorem told_ask_silent {step : Step} {a : Answer} (hs : s.script = ⟨step, a⟩ :: t.script)
    (h : step.tells = false) : t.told = s.told := by
  simp [State.told, hs, h]

/-- The sectors are on the disk, and there is room for them. -/
def Fit (dev : Device) (s : State) (sector count : Nat) (place : Place) (pos : Nat) : Prop :=
  sector + count ≤ dev.totalSectors ∧ (0 < count → s.hasRoom (pos + count) place = true)

/-- The `count` sectors from `sector` on were read to the memory from `pos` on, or there was an
error. -/
structure Fetched (dev : Device) (sector count : Nat) (place : Place) (pos : Nat) (s t : State)
    (rc : Rc) : Prop where
  bbt : t.bbt = s.bbt
  virtualSectors : t.virtualSectors = s.virtualSectors
  totalSectors : t.totalSectors = dev.totalSectors
  held : s.held ≤ t.held
  copied : Copied s t place false pos sector count (isErr rc = false)
  fit : isErr rc = false → Fit dev s sector count place pos
  silent : isErr rc = false ∨ place ≠ .table → t.told = s.told
  reported : isErr rc = true → place = .table → ∃ a, s.told = ⟨.report .table, a⟩ :: t.told

theorem Kept.totalSectors_eq (h : Kept dev s t) (hs : s.totalSectors = dev.totalSectors) :
    t.totalSectors = dev.totalSectors := by
  rcases h.totalSectors with ht | ht
  · rw [ht, hs]
  · exact ht

theorem Fitting.fit {sector count : Nat} {place : Place} {pos : Nat}
    (h : Fitting t sector count place pos) (hk : Kept dev s t)
    (ht : t.totalSectors = dev.totalSectors) : Fit dev s sector count place pos := by
  refine ⟨?_, fun hc => ?_⟩
  · rw [← ht]
    exact h.disk
  · rw [← hk.hasRoom]
    exact h.room hc

/-- Two tries to read sectors. -/
theorem readTwice_spec (sector count : Nat) (place : Place) (pos : Nat)
    (hs : s.totalSectors = dev.totalSectors) :
    Ends (Overruns s (pos + count) place) (do
      let rc ← ataRwSectorsInternal dev sector count place pos false
      if rc ≠ 0 then ataRwSectorsInternal dev sector count place pos false else pure rc) s
      fun rc t => Moved dev place false pos sector count s t rc ∧
        (rc = 0 → Fit dev s sector count place pos) := by
  rw [ends_bind]
  refine (ataRwSectorsInternal_spec dev s sector count place pos false).mono ?_
  rintro rc t ⟨ht, hfit⟩
  refine ends_ite.2 ⟨fun _ => ?_, fun hz => ?_⟩
  · refine ((ataRwSectorsInternal_spec dev t sector count place pos false).faults
      fun e he => he.mono (ht.kept.hasRoom _ _) le_rfl).mono ?_
    rintro rc' u ⟨hu, hfit'⟩
    exact ⟨ht.again hu, fun h0 => (hfit' h0).fit ht.kept (ht.kept.totalSectors_eq hs)⟩
  · rw [ends_pure]
    exact ⟨ht, fun h0 => (hfit h0).fit (Quiet.refl s).kept hs⟩

theorem Copied.after {place : Place} {write : Bool} {dst src cnt : Nat} {D : Prop}
    (hq : Quiet dev 0 s t) (h : Copied t u place write dst src cnt D) :
    Copied s u place write dst src cnt D := by
  have h0 : Copied s t place write dst src 0 True := .none hq
  have hall := h0.append trivial h
  rwa [Nat.zero_add] at hall

theorem ataBbtReadSectors_spec (dev : Device) (sector count : Nat) (place : Place) (pos : Nat)
    (hs : s.totalSectors = dev.totalSectors) :
    Ends (Overruns s (pos + count) place) (ataBbtReadSectors dev sector count place pos) s
      fun rc t => Fetched dev sector count place pos s t rc := by
  simp only [ataBbtReadSectors, ends_bind, ends_get]
  refine (((silent_resetIf dev _).ends s (Nat.zero_le _)).faults fun e he => Or.inl he).mono ?_
  intro _ t ht
  have hread := (readTwice_spec sector count place pos (ht.kept.totalSectors_eq hs)).faults
    fun e he => he.mono (s := s) (ht.kept.hasRoom _ _) le_rfl
  rw [ends_bind] at hread
  refine hread.mono fun _ _ hread => hread.mono ?_
  rintro rc u ⟨hu, hfit⟩
  rw [ends_modify]
  generalize hv : ({ u with lastPhys := _, lastOffset := _ } : State) = v
  have huv : Quiet dev 0 u v := by
    subst hv
    exact { Quiet.refl u with }
  have hmoved := hu.quiet huv
  have hkept := ht.kept.trans hmoved.kept
  have hgood : isErr rc = false → rc = 0 := fun he =>
    hmoved.rc_cases.resolve_right (by simp [he])
  have hcopied : Copied s v place false pos sector count (isErr rc = false) := by
    have h := hmoved.copied.after ht
    exact ⟨h.medium, h.mem, h.outside, fun he => h.inside (hgood he)⟩
  have hfit' : isErr rc = false → Fit dev s sector count place pos := by
    intro he
    obtain ⟨hdisk, hroom⟩ := hfit (hgood he)
    exact ⟨hdisk, fun hc => by rw [← ht.kept.hasRoom]; exact hroom hc⟩
  refine ends_ite.2 ⟨fun he => ?_, fun he => ?_⟩
  · rw [ends_bind]
    refine ((ask_spec _ v).faults fun e he => Or.inl he).mono ?_
    rintro a w ⟨hscript, hw⟩
    rw [ends_pure]
    have hnot : isErr rc ≠ false := by simp [he]
    have htold := hkept.told
    refine ⟨?_, ?_, ?_, ?_, ?_, hfit', ?_, ?_⟩
    · rw [hw]
      exact hkept.bbt
    · rw [hw]
      exact hkept.virtualSectors
    · rw [hw]
      exact hkept.totalSectors_eq hs
    · rw [hw]
      exact hkept.held
    · rw [hw]
      exact ⟨hcopied.medium, hcopied.mem, hcopied.outside, hcopied.inside⟩
    · intro hor
      rw [← htold]
      refine told_ask_silent hscript ?_
      cases place
      · rfl
      · rfl
      · exact absurd rfl (hor.resolve_left hnot)
    · rintro - rfl
      exact ⟨a, by rw [← htold]; exact told_ask hscript rfl⟩
  · rw [ends_pure]
    exact ⟨hkept.bbt, hkept.virtualSectors, hkept.totalSectors_eq hs, hkept.held, hcopied, hfit',
      fun _ => hkept.told, fun he' => absurd he' he⟩

/-! ## Loading a table -/

/-- Page `i` was read from the sector in its entry, of which the entry has the low bits. -/
def PageRead (dev : Device) (h : Sector) (s : State) (i : Nat) : Prop :=
  ∃ p < dev.totalSectors, BitVec.ofNat 32 p = h.entry i ∧ s.mem .table i = s.medium p

/-- The pages before `i` are loaded, and the loop goes on with page `i`. -/
structure Loading (dev : Device) (h : Sector) (i : Nat) (s : State) : Prop where
  bbt : s.bbt = some ⟨true, listed h⟩
  header : s.mem .header 0 = h
  totalSectors : s.totalSectors = dev.totalSectors
  virtualSectors : s.virtualSectors = (h.word 0x1fd ++ h.word 0x1fc).toNat
  starts : Starts h i
  read : ∀ j < i, PageRead dev h s j

/-- The table was freed, but it is still in its place. -/
structure Freed (h : Sector) (s t : State) : Prop where
  bbt : t.bbt = some ⟨false, listed h⟩
  told : ∃ a, s.told = ⟨.report .table, a⟩ :: t.told

theorem length_listed (h : Sector) : (listed h).length = h.count % 2 ^ 20 := by
  rw [listed, List.length_map, List.length_range]
  rfl

theorem Loading.room (hl : Loading dev h i s) {top : Nat} :
    s.hasRoom top .table = true ↔ top ≤ h.count % 2 ^ 20 := by
  simp [State.hasRoom, hl.bbt, length_listed]

theorem Loading.next {rc : Rc} (hl : Loading dev h i s) (hc : RunEnds h i c)
    (hf : Fetched dev (h.entry i).toNat c .table i s t rc) (he : isErr rc = false) :
    Loading dev h (i + c) t := by
  obtain ⟨hdisk, hroom⟩ := hf.fit he
  have htop := hl.room.1 (hroom hc.pos)
  have hmod := Nat.mod_le h.count (2 ^ 20)
  have hmedium : t.medium = s.medium := hf.copied.medium rfl
  refine ⟨hf.bbt.trans hl.bbt, ?_, hf.totalSectors, hf.virtualSectors.trans hl.virtualSectors,
    hl.starts.next (by omega) hc.pos hc.run hc.le hc.stop, fun j hj => ?_⟩
  · rw [hf.copied.mem _ (Or.inr (by decide)), hl.header]
  rcases Nat.lt_or_ge j i with hlt | hge
  · obtain ⟨p, hp, hentry, hpage⟩ := hl.read j hlt
    refine ⟨p, hp, hentry, ?_⟩
    have hout : t.mem .table j = s.mem .table j := hf.copied.outside j (Or.inl hlt)
    rw [hout, hpage, hmedium]
  · refine ⟨(h.entry i).toNat + (j - i), by omega, ?_, ?_⟩
    · have hrun := hc.run (j - i) (by omega)
      rw [show i + (j - i) = j by omega] at hrun
      rw [hrun, BitVec.ofNat_add, BitVec.ofNat_toNat, BitVec.setWidth_eq]
    · have hin := hf.copied.inside he (j - i) (by omega)
      rw [show i + (j - i) = j by omega] at hin
      rw [hmedium]
      exact hin

/-- The loop loads all pages of a table that fits, or frees the table. -/
theorem loadRuns_spec (hl : Loading dev h i s) (hn : h.count ≤ n + i) :
    Ends (fun e => e = .mismatch ∨ e = .fault ∧ ¬ Fits h) (loadRuns dev h.count n i) s
      fun _ t => t.medium = s.medium ∧ s.held ≤ t.held ∧
        (Loading dev h h.count t ∧ t.told = s.told ∨ Freed h s t) := by
  have hend : ∀ {i s}, Loading dev h i s → ¬ i < h.count → Loading dev h h.count s := by
    intro i s hl hge
    have hle := hl.starts.le
    rwa [show i = h.count by omega] at hl
  induction n generalizing i s with
  | zero =>
    rw [loadRuns, ends_pure]
    exact ⟨rfl, le_rfl, Or.inl ⟨hend hl (by omega), rfl⟩⟩
  | succ n ih =>
    refine ends_ite.2 ⟨fun hlt => ?_, fun hge => ?_⟩
    · simp only [ends_bind]
      have hfits : 0x200 ≤ i → ¬ Fits h := by
        intro hle hfits
        have := hfits.count_le
        omega
      refine ((headerWord_spec (by omega)).faults ?_).mono ?_
      · rintro e ⟨rfl, hge⟩
        exact Or.inr ⟨rfl, hfits (by omega)⟩
      rintro w t ⟨rfl, hk, rfl⟩
      rw [hl.header, show 0x200 + i - 0x200 = i by omega]
      refine ((runLength_spec hl.header (by omega) (by decide) (h.run_one i) (by omega)
        (by omega)).faults ?_).mono ?_
      · rintro e ⟨rfl, c, hc, hge, hr⟩
        refine Or.inr ⟨rfl, fun hfits => ?_⟩
        have hcount := hfits.count_le
        have hlt' := (hl.starts.ends (by omega) hlt hfits).1
        exact hl.starts.not_fits (by omega) hlt hr (by omega) hfits
      rintro c u ⟨rfl, hc⟩
      refine ((ataBbtReadSectors_spec dev _ _ _ _ hl.totalSectors).faults ?_).mono ?_
      · rintro e (rfl | ⟨rfl, hroom⟩)
        · exact Or.inl rfl
        refine Or.inr ⟨rfl, fun hfits => ?_⟩
        have hover : ¬ i + c ≤ h.count % 2 ^ 20 := by
          rw [← hl.room, hroom]
          decide
        have hcount := hfits.count_le
        have hle := hc.le_count
        exact hl.starts.not_fits (by omega) hlt hc.run (by omega) hfits
      intro rc v hf
      refine ends_ite.2 ⟨fun he => ?_, fun he => ?_⟩
      · rw [ends_modify]
        refine ⟨hf.copied.medium rfl, hf.held, Or.inr ⟨?_, hf.reported he rfl⟩⟩
        simp only [hf.bbt, hl.bbt, Option.map_some]
      · have he' : isErr rc = false := by simpa using he
        have hnext := hl.next hc hf he'
        have hpos := hc.pos
        refine (ih hnext (by omega)).mono ?_
        rintro _ w ⟨hmedium, hheld, hcases⟩
        refine ⟨hmedium.trans (hf.copied.medium rfl), hf.held.trans hheld, ?_⟩
        have htold := hf.silent (Or.inl he')
        rcases hcases with ⟨hw, htold'⟩ | hw
        · exact Or.inl ⟨hw, htold'.trans htold⟩
        · obtain ⟨a, ha⟩ := hw.told
          exact Or.inr ⟨hw.bbt, a, by rw [← htold, ha]⟩
    · rw [ends_pure]
      exact ⟨rfl, le_rfl, Or.inl ⟨hend hl hge, rfl⟩⟩

/-! ## Reloads -/

/-- The table that `h` describes is there, and was read completely. -/
structure Installed (dev : Device) (h : Sector) (s : State) : Prop where
  bbt : s.bbt = some ⟨true, listed h⟩
  length : (listed h).length = h.count
  virtualSectors : s.virtualSectors = (h.word 0x1fd ++ h.word 0x1fc).toNat
  read : ∀ i < h.count, PageRead dev h s i

/-- There is no table, and the disk has its physical size; or there is all of a table. -/
def AllOrNothing (dev : Device) (h : Sector) (s : State) : Prop :=
  s.bbt = none ∧ s.virtualSectors = s.totalSectors ∨ Installed dev h s

/-- What must not happen: an error in a read of the table, an allocation for a header that does not
fit, and an error between power-up and allocation while the size of the disk was not known. -/
def Entry.Harmless (fits known : Prop) (e : Entry) : Prop :=
  match e.step with
  | .report .table => False
  | .memalign .table _ => e.answer.ok = true → fits
  | .setFeature .bbtReload _ _ => e.answer.ok = false → known
  | _ => True

theorem harmless_told {fits known : Prop} :
    (∀ e ∈ s.told, e.Harmless fits known) ↔ ∀ e ∈ s.script, e.Harmless fits known := by
  constructor
  · intro hall e he
    by_cases htells : e.step.tells = true
    · exact hall e (List.mem_filter.2 ⟨he, htells⟩)
    · unfold Entry.Harmless
      split <;> first | trivial | (rename_i heq; rw [heq] at htells; exact absurd rfl htells)
  · exact fun hall e he => hall e (List.mem_filter.1 he).1

theorem Loading.installed (hl : Loading dev h h.count s) : Installed dev h s := by
  refine ⟨hl.bbt, ?_, hl.virtualSectors, hl.read⟩
  have hcount := hl.starts.fits.count_le
  rw [length_listed, Nat.mod_eq_of_lt (by omega)]

/-- What the loading of a table, or a part of it, does. The rest `l` of the steps is harmless if all
or nothing of the table is there. -/
structure Loads (dev : Device) (h : Sector) (known : Prop) (s t : State) : Prop where
  medium : t.medium = s.medium
  held : s.held ≤ t.held
  steps : ∃ l, s.told = l ++ t.told ∧
    (AllOrNothing dev h t ↔ ∀ e ∈ l, e.Harmless (Fits h) known)

theorem loadTable_spec (known : Prop) (hbbt : s.bbt = none) (hh : s.mem .header 0 = h)
    (hs : s.totalSectors = dev.totalSectors) :
    Ends (fun e => e = .mismatch ∨ e = .fault ∧ ∃ e ∈ s.told, ¬ e.Harmless (Fits h) known)
      (loadTable dev) s fun _ t => Loads dev h known s t := by
  simp only [loadTable, ends_bind, ends_get, ends_modify, hh]
  refine ((ask_spec _ _).faults fun e he => Or.inl he).mono ?_
  rintro a t ⟨hscript, ht⟩
  have htold := told_ask hscript rfl
  refine ends_ite.2 ⟨fun hok => ?_, fun hfail => ?_⟩
  · rw [ends_bind, ends_modify]
    generalize hu : ({ t with bbt := _, mem := _ } : State) = u
    have hload : Loading dev h 0 u := by
      subst hu
      rw [ht]
      refine ⟨rfl, ?_, hs, rfl, ⟨Nat.zero_le _, Nat.zero_le _, Or.inl rfl⟩,
        fun j hj => absurd hj (Nat.not_lt_zero j)⟩
      simpa using hh
    have hmedium : u.medium = s.medium := by
      rw [← hu, ht]
    have hheld : u.held = s.held := by
      rw [← hu, ht]
    have htold' : s.told = ⟨.memalign .table (0x1000 * h.count % 2 ^ 32), a⟩ :: u.told := by
      rw [← hu]
      exact htold
    refine ((loadRuns_spec hload (Nat.le_add_right _ _)).faults ?_).mono ?_
    · rintro e (rfl | ⟨rfl, hfits⟩)
      · exact Or.inl rfl
      · have hmem : ⟨.memalign .table (0x1000 * h.count % 2 ^ 32), a⟩ ∈ s.told := by
          rw [htold']
          exact List.mem_cons_self
        refine Or.inr ⟨rfl, _, hmem, fun hharm => ?_⟩
        exact hfits (hharm hok)
    · rintro _ v ⟨hmedium', hheld', hcases⟩
      refine ⟨hmedium'.trans hmedium, hheld.symm.le.trans hheld', ?_⟩
      rcases hcases with ⟨hv, htv⟩ | hv
      · refine ⟨[_], by rw [htold', htv]; rfl, ?_⟩
        have hfits := hv.starts.fits
        simp [AllOrNothing, hv.installed, Entry.Harmless, hfits]
      · obtain ⟨b, hb⟩ := hv.told
        refine ⟨[_, _], by rw [htold', hb]; rfl, ?_⟩
        have hnone : ¬ AllOrNothing dev h v := by
          rintro (⟨hb, -⟩ | hi)
          · rw [hv.bbt] at hb
            cases hb
          · have hb := hi.bbt
            rw [hv.bbt] at hb
            cases hb
        simp [hnone, Entry.Harmless]
  · rw [ends_modify]
    refine ⟨by rw [ht], by rw [ht], [_], htold, ?_⟩
    have hnone : AllOrNothing dev h { t with virtualSectors := t.totalSectors } := by
      refine Or.inl ⟨?_, rfl⟩
      rw [ht]
      exact hbbt
    simp [hnone, Entry.Harmless, hfail]

theorem ends_unlock {E : Exit → Prop} {Q : PUnit → State → Prop} (hheld : 0 < s.held) :
    Ends E unlock s Q ↔ Q ⟨⟩ { s with held := s.held - 1 } := by
  simp only [unlock, ends_bind, ends_get, if_neg (Nat.ne_of_gt hheld), ends_modify]

theorem ataBbtDisable_spec (s : State) :
    Ends (fun e => e = .fault ∧ s.bbt.all (·.live) = false) ataBbtDisable s fun _ t =>
      s.bbt.all (·.live) = true ∧
        t = { s with bbt := none, virtualSectors := s.totalSectors } := by
  simp only [ataBbtDisable, lock, ends_bind, ends_modify, ends_get]
  refine ends_ite.2 ⟨fun hlive => ?_, fun hnot => ?_⟩
  · rw [ends_bind, ends_modify, ends_unlock (Nat.succ_pos _)]
    exact ⟨hlive, rfl⟩
  · rw [ends_throw]
    exact ⟨rfl, by simpa using hnot⟩

/-- After a power-up the size of the disk is known. -/
def Sizes (dev : Device) (p : M Rc) : Prop :=
  ∀ s, Ends (fun _ => True) p s fun rc t =>
    t.totalSectors = if isErr rc then s.totalSectors else dev.totalSectors

theorem Sizes.passRc {p k : M Rc} {bits : Nat} {val : Rc}
    (hp : ∀ s, Ends (fun _ => True) p s fun _ t => t.totalSectors = s.totalSectors)
    (hk : Sizes dev k) : Sizes dev (passRc p bits val k) := by
  intro s
  simp only [Ata.passRc, ends_bind]
  refine (hp s).mono fun rc t ht => ends_ite.2 ⟨fun _ => ?_, fun _ => ?_⟩
  · rw [ends_pure, if_pos (isErr_errRc _)]
    exact ht
  · rw [← ht]
    exact hk t

theorem sizes_ataPowerUp (c : Caller) : Sizes dev (ataPowerUp dev c) := by
  have hperform : ∀ step s, Ends (fun _ => True) (perform step) s fun _ t =>
      t.totalSectors = s.totalSectors := by
    intro step s
    simp only [perform, ends_bind, ends_pure]
    refine ((ask_spec step s).faults fun _ _ => trivial).mono ?_
    rintro a t ⟨-, ht⟩
    rw [ht]
  have hif : ∀ (b : Bool) step s, Ends (fun _ => True)
      (if b then perform step else pure 0) s fun _ t => t.totalSectors = s.totalSectors := by
    intro b step s
    refine ends_ite.2 ⟨fun _ => hperform step s, fun _ => ?_⟩
    rw [ends_pure]
  have hconf : Sizes dev (configure dev c) := by
    intro s
    simp only [configure, ends_bind, ends_get]
    refine Sizes.passRc (hif _ _) (Sizes.passRc (hif _ _) fun s => ?_) s
    rw [ends_bind, ends_modify, ends_pure]
    rfl
  have hset : ∀ {b b'} {k : M Rc}, Sizes dev k →
      Sizes dev ((modify fun s => { s with lba48 := b, dma := b' }) >>= fun _ => k) := by
    intro b b' k hk s
    rw [ends_bind, ends_modify]
    exact hk _
  intro s
  refine ends_ite.2 ⟨fun _ => ?_, fun _ => ?_⟩
  · exact hset (.passRc (hperform _) (.passRc (hperform _) (.passRc (hperform _) hconf))) s
  · exact Sizes.passRc (hperform _) (hset (.passRc (hperform _) hconf)) s

theorem Loads.nothing {known : Prop} (hmedium : t.medium = s.medium) (hheld : s.held ≤ t.held)
    (htold : t.told = s.told) (hbbt : t.bbt = none) (hsize : t.virtualSectors = t.totalSectors) :
    Loads dev h known s t := by
  refine ⟨hmedium, hheld, [], htold.symm, ?_⟩
  have hnone : AllOrNothing dev h t := Or.inl ⟨hbbt, hsize⟩
  simp [hnone]

/-- `t` is `s` without a table, before the mutex is unlocked. -/
structure Disabled (s t : State) : Prop where
  bbt : t.bbt = none
  medium : t.medium = s.medium
  held : s.held < t.held

theorem Disabled.noTable {known : Prop} {E : Exit → Prop} (hd : Disabled s t)
    (htold : t.told = s.told) :
    Ends E (do
      modify fun s => { s with virtualSectors := s.totalSectors }
      unlock
      pure 0 : M Rc) t fun _ u => Loads dev h known s u := by
  have hheld := hd.held
  rw [ends_bind, ends_modify, ends_bind, ends_unlock (by dsimp only; omega), ends_pure]
  exact .nothing hd.medium (by dsimp only; omega) htold hd.bbt rfl

/-- What the reload does with a header that is one. -/
theorem loadHeader_spec (hd : Disabled s t) (hh : t.mem .header 0 = h)
    (htotal : t.totalSectors = dev.totalSectors) (hvirtual : t.virtualSectors = s.totalSectors)
    (htold : t.told = s.told) :
    Ends (fun e => e = .mismatch ∨ e = .fault ∧
        ∃ e ∈ s.told, ¬ e.Harmless (Fits h) (s.totalSectors = dev.totalSectors))
      (passRc (if dev.writeCache then perform (.setFeature .bbtReload 0x02 0) else pure 0) 1 1 do
        loadTable dev
        unlock
        pure 0) t fun _ u => Loads dev h (s.totalSectors = dev.totalSectors) s u := by
  have hload : ∀ {v : State}, Disabled s v → v.mem .header 0 = h →
      v.totalSectors = dev.totalSectors →
      (∃ l, s.told = l ++ v.told ∧
        ∀ e ∈ l, e.Harmless (Fits h) (s.totalSectors = dev.totalSectors)) →
      Ends (fun e => e = .mismatch ∨ e = .fault ∧
          ∃ e ∈ s.told, ¬ e.Harmless (Fits h) (s.totalSectors = dev.totalSectors))
        (do
          loadTable dev
          unlock
          pure 0 : M Rc) v fun _ u => Loads dev h (s.totalSectors = dev.totalSectors) s u := by
    rintro v hv hh htotal ⟨l, hl, hharm⟩
    rw [ends_bind]
    refine ((loadTable_spec (s.totalSectors = dev.totalSectors) hv.bbt hh htotal).faults ?_).mono fun _ u hu => ?_
    · rintro e (rfl | ⟨rfl, e, he, hbad⟩)
      · exact Or.inl rfl
      · refine Or.inr ⟨rfl, e, ?_, hbad⟩
        rw [hl]
        exact List.mem_append_right l he
    · have hheld := hv.held
      have hheld' := hu.held
      rw [ends_bind, ends_unlock (by omega), ends_pure]
      obtain ⟨l', hl', hiff⟩ := hu.steps
      refine ⟨hu.medium.trans hv.medium, by dsimp only; omega, l ++ l', ?_, ?_⟩
      · rw [hl, hl', List.append_assoc]
        rfl
      · have hsame : AllOrNothing dev h { u with held := u.held - 1 } ↔ AllOrNothing dev h u :=
          ⟨fun h => h.imp id fun h => ⟨h.bbt, h.length, h.virtualSectors, h.read⟩,
            fun h => h.imp id fun h => ⟨h.bbt, h.length, h.virtualSectors, h.read⟩⟩
        rw [hsame, hiff, List.forall_mem_append]
        exact ⟨fun hall => ⟨hharm, hall⟩, fun hall => hall.2⟩
  simp only [passRc, ends_bind]
  rcases Bool.eq_false_or_eq_true dev.writeCache with hcache | hcache
  · simp only [hcache, if_true, perform, ends_bind]
    refine ((ask_spec _ t).faults fun e he => Or.inl he).mono ?_
    rintro a v ⟨hscript, hv⟩
    have htold' := (told_ask hscript rfl).symm.trans htold
    rw [ends_pure, a.isErr_rc]
    refine ends_ite.2 ⟨fun hbad => ?_, fun hok => ?_⟩
    · rw [ends_pure]
      refine ⟨by rw [hv, hd.medium], by rw [hv]; exact hd.held.le, [_], htold'.symm, ?_⟩
      have hbbt : v.bbt = none := by rw [hv, hd.bbt]
      have hsize : AllOrNothing dev h v ↔ s.totalSectors = dev.totalSectors := by
        have hnot : ¬ Installed dev h v := fun hi => by
          have hb := hi.bbt
          rw [hbbt] at hb
          cases hb
        rw [AllOrNothing, or_iff_left hnot, and_iff_right hbbt, hv, hvirtual, htotal]
      have hfail : a.ok = false := by simpa using hbad
      simp [hsize, Entry.Harmless, hfail]
    · refine hload ⟨by rw [hv, hd.bbt], by rw [hv, hd.medium], by rw [hv]; exact hd.held⟩
        (by rw [hv, hh]) (by rw [hv, htotal]) ⟨[_], htold'.symm, ?_⟩
      have hfine : a.ok = true := by simpa using hok
      simp [Entry.Harmless, hfine]
  · simp only [hcache, Bool.false_eq_true, if_false, ends_pure]
    refine ends_ite.2 ⟨(fun he => by cases he), fun _ => ?_⟩
    exact hload hd hh htotal ⟨[], htold.symm, by simp⟩

theorem ataBbtReload_spec (dev : Device) (s : State) :
    Ends (fun e => e = .mismatch ∨ e = .fault ∧ (s.bbt.all (·.live) = false ∨
        ∃ e ∈ s.told, ¬ e.Harmless (Fits (s.medium 0)) (s.totalSectors = dev.totalSectors)))
      (ataBbtReload dev) s fun _ t => s.bbt.all (·.live) = true ∧
        Loads dev (s.medium 0) (s.totalSectors = dev.totalSectors) s t := by
  simp only [ataBbtReload, lock, ends_bind, ends_modify, passRc]
  refine ((ataBbtDisable_spec _).faults ?_).mono ?_
  · rintro e ⟨rfl, hdead⟩
    exact Or.inr ⟨rfl, Or.inl hdead⟩
  rintro _ t ⟨hlive, ht⟩
  have hd : Disabled s t := by
    subst ht
    exact ⟨rfl, rfl, Nat.lt_succ_self _⟩
  have htold : t.told = s.told := by
    subst ht
    rfl
  have hvirtual : t.virtualSectors = s.totalSectors := by
    subst ht
    rfl
  have htotal : t.totalSectors = s.totalSectors := by
    subst ht
    rfl
  clear ht
  refine ((((silent_ataPowerUp dev (by decide)).ends t (Nat.zero_le _)).and
    (sizes_ataPowerUp .bbtPowerUp t)).faults fun e he => Or.inl he).mono ?_
  rintro rc u ⟨hu, hsize⟩
  have hdu : Disabled s u := ⟨hu.bbt.trans hd.bbt, hu.medium.trans hd.medium, by
    have h1 := hd.held
    have h2 := hu.held
    omega⟩
  have htold' := hu.told.trans htold
  refine ends_ite.2 ⟨fun he => ?_, fun he => ?_⟩
  · rw [if_pos he] at hsize
    rw [ends_pure]
    exact ⟨hlive, .nothing hdu.medium hdu.held.le htold' hdu.bbt
      (hu.virtualSectors.trans (hvirtual.trans (htotal.symm.trans hsize.symm)))⟩
  rw [if_neg he] at hsize
  simp only [ends_bind]
  refine ((ask_spec _ u).faults fun e he => Or.inl he).mono ?_
  rintro a v ⟨hscript, hv⟩
  have htoldv := (told_ask_silent hscript rfl).trans htold'
  have hdv : Disabled s v := by
    rw [hv]
    exact ⟨hdu.bbt, hdu.medium, hdu.held⟩
  have hsizev : v.totalSectors = dev.totalSectors := by rw [hv, hsize]
  have hvirtualv : v.virtualSectors = s.totalSectors := by
    rw [hv, ← hvirtual]
    exact hu.virtualSectors
  clear hv
  refine ends_ite.2 ⟨fun _ => ?_, fun _ => ?_⟩
  · rw [ends_bind, ends_modify, ends_bind]
    generalize hw : ({ v with mem := _ } : State) = w
    have hdw : Disabled s w := by
      rw [← hw]
      exact ⟨hdv.bbt, hdv.medium, hdv.held⟩
    refine ((ataBbtReadSectors_spec dev 0 1 .header 0 ?_).faults ?_).mono ?_
    · rw [← hw]
      exact hsizev
    · rintro e (rfl | ⟨-, hroom⟩)
      · exact Or.inl rfl
      · cases hroom
    intro rc x hx
    have hmedium : x.medium = w.medium := hx.copied.medium rfl
    have hdx : Disabled s x := ⟨hx.bbt.trans hdw.bbt, hmedium.trans hdw.medium,
      lt_of_lt_of_le hdw.held hx.held⟩
    have htoldx : x.told = s.told := by
      rw [hx.silent (Or.inr (by decide)), ← hw]
      exact htoldv
    have hvirtualx : x.virtualSectors = s.totalSectors := by
      rw [hx.virtualSectors, ← hw]
      exact hvirtualv
    rw [ends_bind, ends_get]
    refine ends_ite.2 ⟨fun _ => ?_, fun hgood => ends_ite.2 ⟨fun _ => ?_, fun _ => ?_⟩⟩
    · exact (hdx.noTable htoldx).mono fun _ u hu => ⟨hlive, hu⟩
    · have hheader : x.mem .header 0 = s.medium 0 := by
        have hin := hx.copied.inside (by simpa using hgood) 0 (by decide)
        rw [← hdw.medium]
        exact hin
      refine ((loadHeader_spec hdx hheader hx.totalSectors hvirtualx htoldx).faults ?_).mono
        fun _ u hu => ⟨hlive, hu⟩
      exact fun e he => he.imp id fun he => ⟨he.1, Or.inr he.2⟩
    · exact (hdx.noTable htoldx).mono fun _ u hu => ⟨hlive, hu⟩
  · exact (hdv.noTable htoldv).mono fun _ u hu => ⟨hlive, hu⟩

/-- The reload runs to its end, or stops for a reason of its own. -/
def Played (r : Except Exit (Rc × State)) : Prop :=
  match r with
  | .ok (_, t) => t.script = []
  | .error e => e ≠ .mismatch

/-- A reload accesses nothing but memory that it has, and leaves all of a table or none, exactly if
no table was left freed before, and all that happens is harmless. -/
theorem reload_allOrNothing_iff {r : Except Exit (Rc × State)}
    (hrun : (ataBbtReload dev).run s = r) (hplayed : Played r) :
    (∃ rc t, r = .ok (rc, t) ∧ AllOrNothing dev (s.medium 0) t) ↔
      s.bbt.all (·.live) = true ∧
        ∀ e ∈ s.script, e.Harmless (Fits (s.medium 0)) (s.totalSectors = dev.totalSectors) := by
  have hspec := ataBbtReload_spec dev s
  rw [← harmless_told]
  cases r with
  | ok r =>
    obtain ⟨rc, t⟩ := r
    obtain ⟨hlive, hloads⟩ := hspec.ok hrun
    obtain ⟨l, hl, hiff⟩ := hloads.steps
    have hnil : t.told = [] := by
      have hscript : t.script = [] := hplayed
      rw [State.told, hscript, List.filter_nil]
    rw [hnil, List.append_nil] at hl
    rw [hl, ← hiff, and_iff_right hlive]
    constructor
    · rintro ⟨rc', t', heq, hall⟩
      cases heq
      exact hall
    · exact fun hall => ⟨rc, t, rfl, hall⟩
  | error e =>
    refine iff_of_false ?_ ?_
    · rintro ⟨rc, t, heq, -⟩
      cases heq
    · rintro ⟨hlive, hharm⟩
      rcases hspec.error hrun with rfl | ⟨-, hdead | ⟨e, he, hbad⟩⟩
      · exact hplayed rfl
      · rw [hlive] at hdead
        cases hdead
      · exact hbad (hharm e he)

/-- A disk whose first sector is a header of a table of one page, which is in sector `3`. -/
def withTable (script : List Entry) : State :=
  { fresh script with
    retries := 0
    errorSrst := false
    medium := fun p k =>
      if p = 0 then
        match k with
        | 0 => 0x6d65
        | 1 => 0x4942
        | 2 => 0x6262
        | 3 => 0x6874
        | 0x3f8 => 12
        | 0x3fe => 1
        | 0x400 => 3
        | _ => 0
      else 0 }

/-- How the disk is powered up, and its header read. -/
def readHeader : List Entry :=
  [⟨.identify .bbtPowerUp, { ok := true }⟩, ⟨.setFeature .bbtPowerUp 0x03 0x44, { ok := true }⟩,
    ⟨.memalign .header 0x1000, { ok := true }⟩, ⟨.rwChunk 0 1 false, { ok := true }⟩,
    ⟨.memalign .table 0x1000, { ok := true }⟩]

theorem played_of_run {α : Type} {r : Except Exit (Rc × State)} (f : State → α) {a : α}
    (h : r.toOption.map (fun r => (r.2.script.length, f r.2)) = some (0, a)) :
    Played r ∧ ∀ rc t, r = .ok (rc, t) → f t = a := by
  cases r with
  | error e => cases h
  | ok r =>
    obtain ⟨hlen, hf⟩ := Prod.mk.inj (Option.some.inj h)
    refine ⟨List.length_eq_zero_iff.1 hlen, fun rc t heq => ?_⟩
    cases heq
    exact hf

/-- The page is read, and the table is there. -/
theorem reload_loads :
    let s := withTable (readHeader ++ [⟨.rwChunk 3 1 false, { ok := true }⟩])
    ∃ rc t, (ataBbtReload pata).run s = .ok (rc, t) ∧ AllOrNothing pata (s.medium 0) t ∧
      t.bbt.isSome = true := by
  intro s
  have hrun : ((ataBbtReload pata).run s).toOption.map
      (fun r => (r.2.script.length, r.2.bbt.isSome)) = some (0, true) := by decide
  obtain ⟨hplayed, hsome⟩ := played_of_run (fun t => t.bbt.isSome) hrun
  have hfits : Fits (s.medium 0) := by
    have hcount : (s.medium 0).count = 1 := by decide
    refine ⟨by omega, Or.inl fun j hj => ?_⟩
    omega
  obtain ⟨rc, t, hr, hall⟩ := (reload_allOrNothing_iff rfl hplayed).2 ⟨rfl, by
    simpa [s, withTable, fresh, readHeader, Entry.Harmless] using hfits⟩
  exact ⟨rc, t, hr, hall, hsome rc t hr⟩

/-- The page cannot be read, and the table stays in its place when it is freed. -/
theorem reload_leaves_freed :
    ¬ ∀ dev s r, (ataBbtReload dev).run s = r → Played r →
      ∃ rc t, r = .ok (rc, t) ∧ AllOrNothing dev (s.medium 0) t := by
  intro h
  let s := withTable (readHeader ++ [⟨.rwChunk 3 1 false, { ok := false }⟩,
    ⟨.rwChunk 3 1 false, { ok := false }⟩, ⟨.report .table, { ok := true }⟩])
  have hrun : ((ataBbtReload pata).run s).toOption.map
      (fun r => (r.2.script.length, r.2.bbt.map (·.live))) = some (0, some false) := by
    decide
  obtain ⟨hplayed, hdead⟩ := played_of_run (fun t => t.bbt.map (·.live)) hrun
  obtain ⟨rc, t, hr, hall⟩ := h pata s _ rfl hplayed
  have hlive := hdead rc t hr
  rcases hall with ⟨hnone, -⟩ | hinst
  · rw [hnone] at hlive
    cases hlive
  · rw [hinst.bbt] at hlive
    cases hlive

end Ata
end Freemyipod
