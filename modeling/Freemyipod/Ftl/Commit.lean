import Freemyipod.Ftl.Copy

/-!
# Ftl.Commit

Getting rid of a log entry: `ftl_commit_scattered`, `ftl_commit_sequential` and
`ftl_remove_scattered_block`.

* `Idle`: what holds of the log between two turns of `ftl_write`.
* `Dropped`: what a commit of a log entry leaves.
* `State.Unmixed`: no group of pages that `ftl_commit_sequential` is to copy mixes readable and
  unreadable ones. Only then does the commit keep what the sectors read as.
-/

namespace Freemyipod
namespace Ftl

open Effect

variable {α : Type} {d : Device} {s t u : State α} {hand : Multiset Nat} {e l b : Nat}

/-- No log entry is empty or full, and in a sequential one every page used is current. -/
def Idle (d : Device) (s : State α) : Prop :=
  ∀ e < 0x11, (s.log e).Used → 0 < (s.log e).pagesused ∧ (s.log e).pagesused < d.ppb ∧
    ((s.log e).issequential = 1 → (s.log e).pagescurrent = (s.log e).pagesused)

/-- Log entry `e` was committed, and nothing else happened to the log. -/
structure Dropped (d : Device) (s : State α) (hand : Multiset Nat) (e : Nat) (t : State α) :
    Prop where
  inv : Inv d t hand
  log : ∀ i, i ≠ e → t.log i = s.log i
  unused : ¬ (t.log e).Used
  freecount : t.cxt.freecount = s.cxt.freecount + 1
  ctrl : SameCtrl d s t

namespace State

/-- Without its log entry, a block is found in the map only. -/
theorem getLogEntry_drop (hlog : ∀ i, i ≠ e → t.log i = s.log i) (hun : ¬ (t.log e).Used)
    (hl : (s.log e).logicalvblock ≠ l) : t.getLogEntry l = s.getLogEntry l := by
  unfold getLogEntry
  congr 1
  funext i
  by_cases hi : i = e
  · rw [hi, decide_eq_decide]
    exact ⟨fun hc => absurd hc.1 hun, fun hc => absurd hc.2 hl⟩
  · rw [hlog i hi]

theorem getLogEntry_dropped (h : Inv d s hand) (he : e < 0x11) (hu : (s.log e).Used)
    (hlog : ∀ i, i ≠ e → t.log i = s.log i) (hun : ¬ (t.log e).Used) :
    t.getLogEntry (s.log e).logicalvblock = none := by
  refine getLogEntry_eq_none.2 fun i hi hui hl => ?_
  by_cases hie : i = e
  · rw [hie] at hui
    exact hun hui
  · rw [hlog i hie] at hui hl
    exact hie (h.unique i hi e he hui hu hl)

/-- A sector of another block than the entry's. -/
theorem sector_drop (h : Inv d s hand) (he : e < 0x11) (hu : (s.log e).Used)
    (hlog : ∀ i, i ≠ e → t.log i = s.log i) (hun : ¬ (t.log e).Used) {k : Nat} (hk : k < d.sectors)
    (hl : (s.log e).logicalvblock ≠ k / d.ppb) (hmap : t.map (k / d.ppb) = s.map (k / d.ppb))
    (hnand : ∀ p, p / d.ppb ≠ (s.log e).scatteredvblock → t.nand p = s.nand p) :
    t.sector d k = s.sector d k := by
  have hget := getLogEntry_drop hlog hun hl
  have habs : t.abspage d (k / d.ppb) (k % d.ppb) = s.abspage d (k / d.ppb) (k % d.ppb) := by
    cases hg : s.getLogEntry (k / d.ppb) with
    | none => rw [abspage_of_none hg, abspage_of_none (hget.trans hg), hmap]
    | some i =>
      have hie : i ≠ e := by
        rintro rfl
        exact hl (getLogEntry_some hg).2.2
      rw [abspage_of_some hg, abspage_of_some (hget.trans hg), hmap, hlog i hie]
  have hb : s.abspage d (k / d.ppb) (k % d.ppb) / d.ppb ≠ (s.log e).scatteredvblock := fun hb =>
    hl (h.abspage_log (Device.sector_block hk) (Device.mod_lt_ppb k) he hu hb).1
  rw [sector_eq_nand, sector_eq_nand, habs, hnand _ hb]

/-- A sector of a block without a log entry. -/
theorem sector_of_none {k : Nat} (hg : t.getLogEntry (k / d.ppb) = none) :
    t.sector d k = readsAs (t.nand (t.map (k / d.ppb) * d.ppb + k % d.ppb)) := by
  rw [sector_eq_nand, abspage_of_none hg]

end State

/-- The entry goes and its logical block is now at `b`, which reads as `out`. -/
theorem State.sector_of_drop (h : Inv d s hand) (he : e < 0x11) (hu : (s.log e).Used)
    (hlog : ∀ i, i ≠ e → t.log i = s.log i) (hun : ¬ (t.log e).Used)
    (hmap : t.map = upd s.map (s.log e).logicalvblock b)
    (hnand : ∀ p, p / d.ppb ≠ (s.log e).scatteredvblock → t.nand p = s.nand p)
    {out : Nat → Payload α × Bool} (hcopy : ∀ k < d.ppb, readsAs (t.nand (b * d.ppb + k)) = out k)
    {k : Nat} (hk : k < d.sectors) : t.sector d k =
      if k / d.ppb = (s.log e).logicalvblock then out (k % d.ppb) else s.sector d k := by
  by_cases hl : (s.log e).logicalvblock = k / d.ppb
  · have hg := State.getLogEntry_dropped h he hu hlog hun
    rw [if_pos hl.symm]
    rw [hl] at hg hmap
    rw [State.sector_of_none hg, hmap, upd_self, hcopy _ (Device.mod_lt_ppb k)]
  · rw [if_neg (Ne.symm hl)]
    refine State.sector_drop h he hu hlog hun hk hl ?_ hnand
    rw [hmap, upd_ne _ _ (Ne.symm hl)]

/-- If `b` reads the same as the logical block, nothing changes. -/
theorem SameView.of_drop (h : Inv d s hand) (he : e < 0x11) (hu : (s.log e).Used)
    (hlog : ∀ i, i ≠ e → t.log i = s.log i) (hun : ¬ (t.log e).Used)
    (hmap : t.map = upd s.map (s.log e).logicalvblock b) (hnand : t.nand = s.nand)
    (hcopy : ∀ k < d.ppb,
      readsAs (s.nand (b * d.ppb + k)) = s.sector d ((s.log e).logicalvblock * d.ppb + k)) :
    SameView d s t := by
  intro k hk
  have hcopy' : ∀ k < d.ppb, readsAs (t.nand (b * d.ppb + k)) =
      s.sector d ((s.log e).logicalvblock * d.ppb + k) := by
    rw [hnand]
    exact hcopy
  rw [State.sector_of_drop h he hu hlog hun hmap (fun _ _ => by rw [hnand]) hcopy' hk]
  split
  case isTrue hl => rw [← hl, ← Device.eq_block_page]
  case isFalse => rfl

namespace Inv

theorem mem_logBlocks_card (he : e < 0x11) (hu : (s.log e).Used) : 1 ≤ s.logBlocks.card := by
  rw [State.logBlocks_remove (x := LogEntry.unused) he hu fun hc => hc rfl, Multiset.card_cons]
  omega

/-- Changes of the context that no owner of a block is told from. -/
theorem of_cxt (h : Inv d s hand) {c : Cxt} (hf : c.freecount = s.cxt.freecount)
    (hn : c.nextfreeidx = s.cxt.nextfreeidx) (hp : c.blockpool = s.cxt.blockpool)
    (hb : c.ftlctrlblocks = s.cxt.ftlctrlblocks) (hg : c.ftlctrlpage = s.cxt.ftlctrlpage) :
    Inv d { s with cxt := c } hand := by
  have hpool : c.poolBlocks = s.cxt.poolBlocks := by
    unfold Cxt.poolBlocks Cxt.poolIdx
    rw [hf, hn, hp]
  have hctrl : c.ctrlBlocks = s.cxt.ctrlBlocks := by
    unfold Cxt.ctrlBlocks
    rw [hb]
  refine h.of_frame (t := { s with cxt := c }) rfl hb hg (fun _ _ => rfl) ?_ ?_
  · have ho := h.owned
    unfold Owned at ho ⊢
    rw [← ho, ← hpool, ← hctrl]
    rfl
  · show c.nextfreeidx < 0x14
    rw [hn]
    exact h.start

end Inv

/-! ## Committing by a copy -/

theorem commitTries_spec (h : Inv d s hand) (hl : l < d.type.userblocks)
    (hf : 2 ≤ s.cxt.freecount) (n : Nat) :
    Wp (commitTries d l (n + 1)) s fun r t => ∃ b u, r = some b ∧ Allocated d s b u ∧
      Copied d u l b t := by
  simp only [commitTries, wp_bind]
  refine (allocatePoolBlock_spec h.owned h.start hf).mono fun r u hu => ?_
  obtain ⟨b, rfl, hu⟩ := hu
  simp only [wp_bind]
  refine (copyBlock_spec (hu.inv h) hl fun p hp => hu.erased hp).mono fun r t ht => ?_
  obtain ⟨rfl, ht⟩ := ht
  simp only [wp_ite, wp_pure]
  exact ⟨fun _ => ⟨b, u, rfl, hu, ht⟩, fun hc => absurd trivial hc⟩

theorem commitScattered_spec (h : Inv d s hand) (he : e < 0x11) (hu : (s.log e).Used)
    (hf : 2 ≤ s.cxt.freecount) :
    Wp (commitScattered d e) s fun r t => r = 0 ∧ Dropped d s hand e t ∧ SameView d s t := by
  have hl := h.logical e he hu
  simp only [commitScattered, wp_bind, wp_get]
  refine (commitTries_spec h hl hf 3).mono fun r v hv => ?_
  obtain ⟨b, w, rfl, hw, hv⟩ := hv
  obtain ⟨hinv, hview, hctrl⟩ := hv.inv (hw.inv h)
  have hvlog : v.log = s.log := by rw [hv.eq]; exact hw.log
  have hvmap : v.map = s.map := by rw [hv.eq]; exact hw.map
  have hvfree : v.cxt.freecount + 1 = s.cxt.freecount := by rw [hv.eq]; exact hw.freecount
  have huv : (v.log e).Used := by rw [hvlog]; exact hu
  have hscat : (v.log e).scatteredvblock = (s.log e).scatteredvblock := by rw [hvlog]
  have hcount := hinv.count
  have hcard := Inv.mem_logBlocks_card he huv
  rw [Multiset.card_cons] at hcount
  -- the two blocks go to the pool one after the other
  let c := Cxt.released (s.map (s.log e).logicalvblock)
    (Cxt.released (s.log e).scatteredvblock v.cxt)
  let x : LogEntry := { v.log e with scatteredvblock := 0xFFFF }
  let t : State α := { v.setLog e x with
    cxt := c
    map := upd v.map (s.log e).logicalvblock b }
  have hrun : Wp (do
      releasePoolBlock d (s.log e).scatteredvblock
      modify (State.modifyLog e fun x => { x with scatteredvblock := 0xFFFF })
      releasePoolBlock d (← mapAt d (s.log e).logicalvblock)
      setMap d (s.log e).logicalvblock b
      return 0) v fun r t' => r = 0 ∧ t' = t := by
    simp only [wp_bind, wp_modify, wp_mapAt, wp_setMap, wp_pure]
    refine (releasePoolBlock_spec ?_ (by omega)).mono fun _ x hx => ?_
    · exact h.owned.log_lt he hu
    subst hx
    refine ⟨hl, (releasePoolBlock_spec ?_ ?_).mono fun _ y hy => ⟨hl, ?_⟩⟩
    · show v.map _ < _
      rw [hvmap]
      exact h.owned.map_lt hl
    · show v.cxt.freecount + 1 < 0x14
      omega
    · subst hy
      refine ⟨trivial, ?_⟩
      simp only [t, c, ← hvmap]
      rfl
  refine hrun.mono fun r t' ht => ?_
  obtain ⟨rfl, rfl⟩ := ht
  have hlog : ∀ i, i ≠ e → t.log i = s.log i := by
    intro i hi
    rw [← hvlog]
    exact State.setLog_log_ne hi
  have hx : ¬ x.Used := fun hc => hc rfl
  have hun : ¬ (t.log e).Used := by
    show ¬ ((v.setLog e x).log e).Used
    rw [State.setLog_log_self]
    exact hx
  refine ⟨rfl, ⟨?_, hlog, hun, ?_, ?_⟩, (hw.sameView h).trans (hview.trans ?_)⟩
  · -- put the entry aside, give its block back, then the one in the map
    have h1 := hinv.remove he huv hx
    rw [hscat] at h1
    have h2 := h1.released
    have h3 := h2.mapped (l := (s.log e).logicalvblock) hl
    have h4 := h3.released
    have heq : t = State.modifyCxt (Cxt.released (v.map (s.log e).logicalvblock))
        { (v.setLog e x).modifyCxt (Cxt.released (s.log e).scatteredvblock) with
          map := upd v.map (s.log e).logicalvblock b } := by
      simp only [t, c, ← hvmap]
      rfl
    rw [heq]
    exact h4
  · show v.cxt.freecount + 1 + 1 = _
    omega
  · have hwc := hw.sameCtrl h
    exact (hwc.trans hctrl).trans ⟨rfl, rfl, rfl, rfl, rfl, rfl, rfl, rfl, fun _ _ => rfl⟩
  · refine SameView.of_drop (b := b) hinv he huv (fun i hi => State.setLog_log_ne hi) hun ?_ rfl ?_
    · rw [hvlog]
    · intro k hk
      have hg : w.getLogEntry (s.log e).logicalvblock ≠ none := by
        rw [State.getLogEntry_of_log hw.log, h.getLogEntry_eq_some he hu rfl]
        exact Option.some_ne_none e
      rw [hvlog, hv.page k hk, State.copied_logged hk hg]
      exact (hview _ (Device.page_lt hl hk)).symm

/-! ## Committing in place -/

/-- Of the pages that `ftl_commit_sequential` has still to copy to the block of `e`, those of one
group are all readable or all unreadable. -/
def State.Unmixed (d : Device) (s : State α) (e : Nat) : Prop :=
  ∀ k k', (s.log e).pagesused ≤ k → k < d.ppb → (s.log e).pagesused ≤ k' → k' < d.ppb →
    (k - (s.log e).pagesused) / copybufSize = (k' - (s.log e).pagesused) / copybufSize →
    (s.sector d ((s.log e).logicalvblock * d.ppb + k)).2 =
      (s.sector d ((s.log e).logicalvblock * d.ppb + k')).2

/-- One of the pages that are copied together with page `k` cannot be read. -/
def State.GroupBad (d : Device) (s : State α) (e k : Nat) : Prop :=
  ∃ k' < d.ppb, (s.log e).pagesused ≤ k' ∧
    (k' - (s.log e).pagesused) / copybufSize = (k - (s.log e).pagesused) / copybufSize ∧
    (s.sector d ((s.log e).logicalvblock * d.ppb + k')).2 = true

instance (e k : Nat) : Decidable (s.GroupBad d e k) :=
  inferInstanceAs (Decidable (∃ k' < d.ppb, _ ∧ _ ∧ (_ : Bool) = true))

/-- What page `k` of the logical block of `e` reads as after a sequential commit. -/
def State.committed (d : Device) (s : State α) (e k : Nat) : Payload α × Bool :=
  if (s.log e).pagesused ≤ k ∧ s.GroupBad d e k then (.zeros, true)
  else s.sector d ((s.log e).logicalvblock * d.ppb + k)

/-- Without a mixed group that is what it was read as before. -/
theorem State.Unmixed.committed_eq (h : s.Unmixed d e) {k : Nat} (hk : k < d.ppb) :
    s.committed d e k = s.sector d ((s.log e).logicalvblock * d.ppb + k) := by
  unfold State.committed
  split
  case isTrue hc =>
    obtain ⟨hle, k', hk', hle', hgroup, hbad⟩ := hc
    rw [h k' k hle' hk' hle hk hgroup] at hbad
    exact (readsAs_bad hbad).symm
  case isFalse => rfl

/-- The block of `e` is filled up to page `n`. -/
structure Filling (d : Device) (s : State α) (e n : Nat) (t : State α) : Prop where
  eq : t = { s.setLog e { s.log e with pagesused := n } with
    cxt := { s.cxt with nextblockusn := t.cxt.nextblockusn }
    nand := t.nand }
  ge : (s.log e).pagesused ≤ n
  le : n ≤ d.ppb
  aligned : n = d.ppb ∨ ∃ m, n = (s.log e).pagesused + m * copybufSize
  other : ∀ p, p < (s.log e).scatteredvblock * d.ppb + (s.log e).pagesused ∨
    (s.log e).scatteredvblock * d.ppb + n ≤ p → t.nand p = s.nand p
  page : ∀ k, (s.log e).pagesused ≤ k → k < n →
    readsAs (t.nand ((s.log e).scatteredvblock * d.ppb + k)) = s.committed d e k

namespace Filling

variable {n : Nat}

theorem log_ne (h : Filling d s e n t) {i : Nat} (hi : i ≠ e) : t.log i = s.log i := by
  rw [h.eq]
  exact State.setLog_log_ne hi

theorem log_self (h : Filling d s e n t) : t.log e = { s.log e with pagesused := n } := by
  rw [h.eq]
  exact State.setLog_log_self

theorem map (h : Filling d s e n t) : t.map = s.map := by
  rw [h.eq]
  rfl

/-- Other blocks than that of `e` are left alone. -/
theorem other_block (h : Filling d s e n t) {p : Nat}
    (hp : p / d.ppb ≠ (s.log e).scatteredvblock) : t.nand p = s.nand p := by
  refine h.other p ?_
  by_contra hcon
  have hle := h.le
  obtain ⟨k, rfl⟩ : ∃ k, p = (s.log e).scatteredvblock * d.ppb + k :=
    ⟨p - (s.log e).scatteredvblock * d.ppb, by omega⟩
  exact hp (Device.block_page (by omega))

theorem getLogEntry (h : Filling d s e n t) (l : Nat) : t.getLogEntry l = s.getLogEntry l := by
  refine State.getLogEntry_congr fun i => ?_
  by_cases hi : i = e
  · rw [hi, h.log_self]
    exact ⟨Iff.rfl, fun _ => Iff.rfl⟩
  · rw [h.log_ne hi]
    exact ⟨Iff.rfl, fun _ => Iff.rfl⟩

theorem mapping (h : Filling d s e n t) (hs : Inv d s hand) : Mapped d t := by
  have hm := hs.mapping
  refine ⟨by rw [h.map]; exact hm.map_lt, fun i hi hui => ?_, fun i hi hui => ?_⟩
  · by_cases hie : i = e
    · subst hie
      rw [h.log_self] at hui ⊢
      exact hm.scattered_lt i hi hui
    · rw [h.log_ne hie] at hui ⊢
      exact hm.scattered_lt i hi hui
  · by_cases hie : i = e
    · subst hie
      rw [h.log_self] at hui ⊢
      exact hm.offset_lt i hi hui
    · rw [h.log_ne hie] at hui ⊢
      exact hm.offset_lt i hi hui

theorem sameView (h : Filling d s e n t) (hs : Inv d s hand) (he : e < 0x11)
    (hu : (s.log e).Used) : SameView d s t := by
  intro k hk
  have hl := Device.sector_block hk
  have hp := Device.mod_lt_ppb (d := d) k
  have habs : t.abspage d (k / d.ppb) (k % d.ppb) = s.abspage d (k / d.ppb) (k % d.ppb) := by
    unfold State.abspage
    rw [h.getLogEntry, h.map]
    cases s.getLogEntry (k / d.ppb) with
    | none => rfl
    | some i =>
      by_cases hi : i = e
      · subst hi
        simp only [h.log_self]
      · simp only [h.log_ne hi]
  have hnand : t.nand (s.abspage d (k / d.ppb) (k % d.ppb)) =
      s.nand (s.abspage d (k / d.ppb) (k % d.ppb)) := by
    by_cases hb : s.abspage d (k / d.ppb) (k % d.ppb) / d.ppb = (s.log e).scatteredvblock
    · obtain ⟨-, ho, ha⟩ := hs.abspage_log hl hp he hu hb
      have := (hs.entry e he hu).offset_lt _ hp ho
      exact h.other _ (.inl (by omega))
    · exact h.other_block hb
  rw [State.sector_eq_nand, State.sector_eq_nand, habs, hnand]

theorem sameCtrl (h : Filling d s e n t) (hs : Inv d s hand) (he : e < 0x11)
    (hu : (s.log e).Used) : SameCtrl d s t := by
  have hnand : ∀ p, p / d.ppb ∈ s.cxt.ctrlBlocks → t.nand p = s.nand p := by
    intro p hp
    refine h.other_block ?_
    intro hpe
    rw [hpe] at hp
    exact ((hs.owned.disjoint).2.1 (.inr (State.mem_logBlocks.2 ⟨e, he, hu, rfl⟩))).2.1 hp
  refine ⟨?_, ?_, ?_, ?_, ?_, ?_, ?_, ?_, hnand⟩ <;> rw [h.eq] <;> rfl

end Filling

theorem Filling.start (h : Inv d s hand) (he : e < 0x11) (hu : (s.log e).Used) :
    Filling d s e (s.log e).pagesused s where
  eq := by
    show s = { s with log := upd s.log e (s.log e) }
    rw [upd_eq_self]
  ge := le_rfl
  le := (h.entry e he hu).used_le
  aligned := .inr ⟨0, by omega⟩
  other _ _ := rfl
  page k hk hkn := absurd hkn (by omega)

/-- One group more. -/
theorem Filling.step {n count : Nat} (h : Filling d s e n t) (hs : Inv d s hand) (he : e < 0x11)
    (hu : (s.log e).Used) (hn : n < d.ppb)
    (hcount : count = min copybufSize (d.ppb - n)) {r : Reading α}
    (hr : Read (fun i => t.sector d ((s.log e).logicalvblock * d.ppb + n + i)) count
      (fun _ => .zeros) r)
    (spare : Nat → Spare) (hecc : ∀ i < count, (spare i).eccmark = if r.error ≠ 0 then 0x55 else 0xFF)
    (hu' : u = { t.setLog e { s.log e with pagesused := n + count } with
      cxt := { t.cxt with nextblockusn := u.cxt.nextblockusn }
      nand := programmed t.nand ((s.log e).scatteredvblock * d.ppb + n) count r.buffer spare }) :
    Filling d s e (n + count) u := by
  have hsize : copybufSize = 4 := rfl
  have hge := h.ge
  have hl := hs.logical e he hu
  have hview := h.sameView hs he hu
  have hnand : u.nand =
      programmed t.nand ((s.log e).scatteredvblock * d.ppb + n) count r.buffer spare := by rw [hu']
  refine ⟨?_, by omega, by omega, ?_, fun p hp => ?_, fun k hk hkn => ?_⟩
  · rw [hnand, hu', h.eq]
    simp only [State.setLog, upd_upd]
  · rcases h.aligned with rfl | ⟨m, hm⟩
    · omega
    · by_cases hlast : count = copybufSize
      · exact .inr ⟨m + 1, by rw [hlast, hm, Nat.add_mul]; omega⟩
      · exact .inl (by omega)
  · rw [hnand, programmed_off (by omega)]
    exact h.other p (by omega)
  · rw [hnand]
    by_cases hkn' : k < n
    · rw [programmed_off (by omega)]
      exact h.page k hk hkn'
    · obtain ⟨j, rfl⟩ : ∃ j, k = n + j := ⟨k - n, by omega⟩
      have hj : j < count := by omega
      have hsec : ∀ i < count, t.sector d ((s.log e).logicalvblock * d.ppb + n + i) =
          s.sector d ((s.log e).logicalvblock * d.ppb + (n + i)) := by
        intro i hi
        rw [Nat.add_assoc]
        exact hview _ (Device.page_lt hl (by omega))
      -- an error stands for all pages of the group
      have hbad : r.error ≠ 0 ↔ s.GroupBad d e (n + j) := by
        rw [hr.error]
        obtain ⟨m, hm⟩ : ∃ m, n = (s.log e).pagesused + m * copybufSize := by
          rcases h.aligned with rfl | hm
          · omega
          · exact hm
        rw [hsize] at hm
        constructor
        · rintro ⟨i, hi, hb⟩
          refine ⟨n + i, by omega, by omega, by rw [hsize]; omega, ?_⟩
          rw [← hsec i hi]
          exact hb
        · rintro ⟨k', hk', hle, hgroup, hb⟩
          rw [hsize] at hgroup
          obtain ⟨i, rfl⟩ : ∃ i, k' = n + i := ⟨k' - n, by omega⟩
          refine ⟨i, by omega, ?_⟩
          simp only [hsec i (by omega)]
          exact hb
      rw [← Nat.add_assoc, programmed_at hj, State.committed]
      by_cases hg : s.GroupBad d e (n + j)
      · rw [if_pos ⟨hk, hg⟩]
        refine readsAs_copied (fun _ => rfl) (fun hgood => by cases hgood) fun _ => ?_
        rw [hecc j hj, if_pos (hbad.2 hg)]
        decide
      · have hgood : (s.sector d ((s.log e).logicalvblock * d.ppb + (n + j))).2 = false := by
          rw [← Bool.not_eq_true]
          exact fun hb => hg ⟨n + j, by omega, by omega, rfl, hb⟩
        rw [if_neg fun hc => hg hc.2]
        refine readsAs_copied (fun hb => ?_) (fun _ => ⟨?_, ?_⟩) fun hb => ?_
        · rw [hgood] at hb
          cases hb
        · rw [hr.data j hj]
          exact congrArg Prod.fst (hsec j hj)
        · rw [hecc j hj]
          exact if_neg fun herr => hg (hbad.1 herr)
        · rw [hgood] at hb
          cases hb

/-- What a sequential commit of `e` makes of the sectors. -/
def CommitView (d : Device) (s : State α) (e : Nat) (t : State α) : Prop :=
  ∀ k < d.sectors, t.sector d k =
    if k / d.ppb = (s.log e).logicalvblock then s.committed d e (k % d.ppb) else s.sector d k

theorem CommitView.sameView (h : CommitView d s e t) (hmix : s.Unmixed d e) : SameView d s t := by
  intro k hk
  rw [h k hk]
  split
  case isTrue hl => rw [hmix.committed_eq (Device.mod_lt_ppb k), ← hl, ← Device.eq_block_page]
  case isFalse => rfl

theorem commitSequentialLoop_spec (hs : Inv d s hand) (he : e < 0x11) (hu : (s.log e).Used)
    (hseq : (s.log e).issequential = 1)
    (hcur : (s.log e).pagescurrent = (s.log e).pagesused) :
    ∀ m n (t : State α), d.ppb < n + m → Filling d s e n t →
      Wp (commitSequentialLoop d e m) t fun r v => r = 0 ∧ Dropped d s hand e v ∧
        CommitView d s e v := by
  intro m
  induction m with
  | zero =>
    intro n t hm h
    have := h.le
    omega
  | succ m ih =>
    intro n t hm h
    have hx := hs.entry e he hu
    have hl := hs.logical e he hu
    have hb := hs.owned.log_lt he hu
    have hge := h.ge
    simp only [commitSequentialLoop, wp_bind, wp_get, h.log_self, wp_ite]
    refine ⟨fun hn => ⟨?_, fun _ => ?_⟩, fun hn => ?_⟩
    · -- the offsets behind the pages used are not set
      rintro ⟨i, hi, ho⟩
      refine absurd (hx.sequential hseq (n + i) (by omega)) ?_
      rw [if_neg (by omega)]
      exact ho
    · have hsize : copybufSize = 4 := rfl
      let count := min copybufSize (d.ppb - n)
      have hpos' : 0 < count := by
        show 0 < min copybufSize (d.ppb - n)
        omega
      have hle : n + count ≤ d.ppb := by
        show n + min copybufSize (d.ppb - n) ≤ d.ppb
        omega
      have hrange : (s.log e).logicalvblock * d.ppb + n + count ≤ d.sectors := by
        have := Device.page_lt (d := d) (k := n + count - 1) hl (by omega)
        show _ ≤ d.type.userblocks * d.ppb
        omega
      have hg : t.getLogEntry (s.log e).logicalvblock ≠ none := by
        rw [h.getLogEntry, hs.getLogEntry_eq_some he hu rfl]
        exact Option.some_ne_none e
      have hr := ftlRead_logged (h.mapping hs) hrange (fun i hi => by
        rw [Nat.add_assoc, Device.block_page (by omega)]
        exact hg) fun _ => .zeros
      rw [wp_readSectors hrange]
      simp only [wp_set]
      refine (vflWrite_spec (d := d) ?_ fun i hi => ?_).mono fun rc v hv => ?_
      · have := Device.page_lt (d := d) (k := n + count - 1) hb (by omega)
        show (s.log e).scatteredvblock * d.ppb + n + count ≤ _
        omega
      · have hi : i < count := hi
        show t.nand ((s.log e).scatteredvblock * d.ppb + n + i) = none
        rw [h.other _ (.inr (by omega)), Nat.add_assoc]
        exact hx.erased _ (by omega) (by omega)
      obtain ⟨rfl, rfl⟩ := hv
      refine ⟨fun hc => absurd rfl hc, fun _ => ?_⟩
      rw [wp_modify]
      refine ih (n + count) _ (by omega) ?_
      refine h.step hs he hu hn rfl hr ?spare ?ecc ?state
      case state =>
        simp only [State.modifyLog, State.modifyCxt, State.setLog, h.log_self]
        rfl
      case ecc =>
        intro i _
        rfl
    · have hfull : n = d.ppb := by
        have := h.le
        omega
      have hmap := h.map
      have hfree : t.cxt.freecount = s.cxt.freecount := by rw [h.eq]
      have hcount := hs.count
      have hcard := Inv.mem_logBlocks_card he hu
      rw [wp_mapAt]
      refine ⟨hl, (releasePoolBlock_spec (by rw [hmap]; exact hs.owned.map_lt hl) (by omega)).mono
        fun _ v hv => ?_⟩
      subst hv
      simp only [wp_setMap, wp_modify, wp_pure]
      let x : LogEntry := { t.log e with scatteredvblock := 0xFFFF }
      let c := Cxt.released (t.map (s.log e).logicalvblock) t.cxt
      let w : State α := { t.setLog e x with
        cxt := c
        map := upd t.map (s.log e).logicalvblock (s.log e).scatteredvblock }
      have hw : State.modifyLog e (fun y => { y with scatteredvblock := 0xFFFF })
          { t.modifyCxt (Cxt.released (t.map (s.log e).logicalvblock)) with
            map := upd t.map (s.log e).logicalvblock (s.log e).scatteredvblock } = w := rfl
      have hxu : ¬ x.Used := fun hc => hc rfl
      have hlog : ∀ i, i ≠ e → w.log i = t.log i := fun i hi => State.setLog_log_ne hi
      have hun : ¬ (w.log e).Used := by
        show ¬ ((t.setLog e x).log e).Used
        rw [State.setLog_log_self]
        exact hxu
      refine ⟨hl, trivial, ?_⟩
      show Dropped d s hand e w ∧ CommitView d s e w
      refine ⟨⟨?_, fun i hi => (hlog i hi).trans (h.log_ne hi), hun, ?_, ?_⟩, fun k hk => ?_⟩
      · -- put the entry aside, fill its block, map it and give the old one back
        have h1 := hs.remove (x := x) he hu hxu
        have hother : ∀ p, p / d.ppb ∉ (s.log e).scatteredvblock ::ₘ hand →
            t.nand p = (s.setLog e x).nand p := fun p hp => h.other_block fun hpe =>
          hp (by rw [hpe]; exact Multiset.mem_cons_self _ _)
        have h2 := h1.of_hand hother
        have h3 := h2.of_cxt (c := { s.cxt with nextblockusn := t.cxt.nextblockusn }) rfl rfl rfl
          rfl rfl
        have h4 := (h3.mapped (l := (s.log e).logicalvblock) hl).released
        have heq : w = State.modifyCxt (Cxt.released (s.map (s.log e).logicalvblock))
            { s.setLog e x with
              cxt := { s.cxt with nextblockusn := t.cxt.nextblockusn }
              nand := t.nand
              map := upd s.map (s.log e).logicalvblock (s.log e).scatteredvblock } := by
          have hlogeq : (t.setLog e x).log = (s.setLog e x).log := by
            rw [h.eq]
            exact upd_upd _ _ _ _
          simp only [w, c, hmap, hlogeq]
          rw [h.eq]
          rfl
        rw [heq]
        exact h4
      · show t.cxt.freecount + 1 = _
        rw [hfree]
      · exact (h.sameCtrl hs he hu).trans
          ⟨rfl, rfl, rfl, rfl, rfl, rfl, rfl, rfl, fun _ _ => rfl⟩
      · refine State.sector_of_drop (t := w) (b := (s.log e).scatteredvblock) hs he hu
          (fun i hi => (hlog i hi).trans (h.log_ne hi)) hun ?_ (fun p hp => h.other_block hp)
          (fun k hk => ?_) hk
        · show upd t.map _ _ = _
          rw [hmap]
        · show readsAs (t.nand _) = _
          by_cases hku : k < (s.log e).pagesused
          · have hoff : (s.log e).pageoffsets k = k := by
              rw [hx.sequential hseq k hk, if_pos (by omega)]
            have hg := hs.getLogEntry_eq_some he hu rfl
            have hppb := d.ppb_cases
            rw [State.committed, if_neg (by omega), State.sector_eq_nand, Device.block_page hk,
              Device.page_page hk, State.abspage_of_some hg, hoff, if_pos (by omega),
              h.other _ (.inl (by omega))]
          · exact h.page k (by omega) (by omega)

theorem commitSequential_spec (h : Inv d s hand) (he : e < 0x11) (hu : (s.log e).Used)
    (hseq : (s.log e).issequential = 1)
    (hcur : (s.log e).pagescurrent = (s.log e).pagesused) :
    Wp (commitSequential d e) s fun r t => r = 0 ∧ Dropped d s hand e t ∧ CommitView d s e t := by
  have hle := (h.entry e he hu).used_le
  simp only [commitSequential, wp_bind, wp_get, wp_ite]
  refine ⟨fun hc => ?_, fun _ => ?_⟩
  · omega
  · exact commitSequentialLoop_spec h he hu hseq hcur _ _ _ (by omega) (.start h he hu)

/-! ## The two commits -/

/-- Both commits of `e` end well and make the same of each page of its logical block: a page that
could be read gives the data it gave, and one that could not stays unreadable. -/
def CommitsAgree (d : Device) (s : State α) (e : Nat) : Prop :=
  Wp (commitSequential d e) s fun r t => r = 0 ∧
    Wp (commitScattered d e) s fun r' t' => r' = 0 ∧
      ∀ p < d.ppb, let k := (s.log e).logicalvblock * d.ppb + p
        t.sector d k = t'.sector d k ∧
          ((s.sector d k).2 = false → t.sector d k = s.sector d k) ∧
          ((s.sector d k).2 = true → (t.sector d k).2 = true)

/-- A page copied with an unreadable one is made unreadable, so a commit that keeps what the pages
read as had no mixed group to copy. -/
theorem State.unmixed_of_committed (h : ∀ p < d.ppb,
    s.committed d e p = s.sector d ((s.log e).logicalvblock * d.ppb + p)) : s.Unmixed d e := by
  have hspread : ∀ p q, (s.log e).pagesused ≤ p → p < d.ppb → (s.log e).pagesused ≤ q → q < d.ppb →
      (p - (s.log e).pagesused) / copybufSize = (q - (s.log e).pagesused) / copybufSize →
      (s.sector d ((s.log e).logicalvblock * d.ppb + p)).2 = true →
      (s.sector d ((s.log e).logicalvblock * d.ppb + q)).2 = true := by
    intro p q hp hp' hq hq' hgroup hbad
    rw [← h q hq', committed, if_pos ⟨hq, p, hp', hp, hgroup, hbad⟩]
  intro p q hp hp' hq hq' hgroup
  rw [Bool.eq_iff_iff]
  exact ⟨hspread p q hp hp' hq hq' hgroup, hspread q p hq hq' hp hp' hgroup.symm⟩

section Logged

/-- The first page of logical block 0 is in the log, the second one in the map is as given. -/
def loggedPages (second : Option (Page Nat)) (p : Nat) : Option (Page Nat) :=
  if p = 987 * 128 then some ⟨.sector 7, .user 0 1 0x40 0xFF⟩ else if p = 1 then second else none

def loggedEntry : LogEntry where
  usn := 0
  scatteredvblock := 987
  logicalvblock := 0
  pageoffsets := fun p => if p = 0 then 0 else 0xFFFF
  pagesused := 1
  pagescurrent := 1
  issequential := 1

def loggedState (second : Option (Page Nat)) : State Nat :=
  (newState 19 (loggedPages second)).setLog 0 loggedEntry

theorem loggedEntry_offset {p : Nat} (h : loggedEntry.pageoffsets p ≠ 0xFFFF) : p = 0 := by
  by_contra hp
  exact h (if_neg hp)

theorem loggedState_inv (second : Option (Page Nat)) : Inv twoBanks (loggedState second) 0 := by
  have hbase : Inv twoBanks (newState 19 (loggedPages second)) (987 ::ₘ 0) :=
    newState_inv (by omega) fun p hp => by
      rw [loggedPages, if_neg (by omega), if_neg (by omega)]
  refine hbase.insert (x := loggedEntry) (by omega) (fun hu => hu rfl) (by decide) (by decide)
    (fun i _ _ hu => absurd rfl hu) ?_
  refine ⟨by decide, by decide, fun _ => by decide, fun p _ ho => ?_, fun p _ q _ ho hpq => ?_,
    fun p _ ho => ?_, fun k hk hk' => ?_, .inr rfl, fun _ p _ => ?_⟩
  · rw [loggedEntry_offset ho]
    decide
  · have hq : loggedEntry.pageoffsets q ≠ 0xFFFF := fun hc => ho (hpq.trans hc)
    rw [loggedEntry_offset ho, loggedEntry_offset hq]
  · have hfirst : loggedPages second (987 * 128) = some ⟨.sector 7, .user 0 1 0x40 0xFF⟩ :=
      if_pos rfl
    rw [loggedEntry_offset ho]
    exact ⟨_, hfirst, rfl, rfl⟩
  · have hk' : 1 ≤ k := hk'
    show loggedPages second (987 * 128 + k) = none
    rw [loggedPages, if_neg (by omega), if_neg (by omega)]
  · show (if p = 0 then 0 else 0xFFFF) = if p < 1 then p else 0xFFFF
    by_cases hp : p = 0
    · rw [hp]
      rfl
    · rw [if_neg hp, if_neg (by omega)]

end Logged

end Ftl
end Freemyipod
