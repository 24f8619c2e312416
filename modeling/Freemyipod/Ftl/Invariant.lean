import Freemyipod.Ftl.Blocks

/-!
# Ftl.Invariant

What holds between two steps of the FTL (`Inv`), and what a sector reads as (`State.sector`).

* `EntryOk`: a log entry in use describes its scattered block.
* `CtrlOk`: the control page lies in a control block, whose later pages are erased.
* `Inv`: every vBlock has one owner, with some of them in the hands of the function at work, the
  log entries are sound and no two belong to one logical block.
* `Inv.of_frame`, `SameView.of_frame`: what a step must leave alone to keep `Inv` and to keep what
  every sector reads as.
* `Inv.remove`, `Inv.insert`: a log entry goes and leaves its block in hand, or comes with one.
-/

namespace Freemyipod
namespace Ftl

open Effect

variable {α : Type} (d : Device)

/-- The pages of the logical block that have an offset. -/
def LogEntry.mapped (x : LogEntry) : Finset Nat :=
  (Finset.range d.ppb).filter fun p => x.pageoffsets p ≠ 0xFFFF

/-- The log entry `x` describes the pages of its scattered block. -/
structure EntryOk (nand : Nat → Option (Page α)) (x : LogEntry) : Prop where
  used_le : x.pagesused ≤ d.ppb
  current : x.pagescurrent = (x.mapped d).card
  current_pos : 0 < x.pagesused → 0 < x.pagescurrent
  offset_lt : ∀ p < d.ppb, x.pageoffsets p ≠ 0xFFFF → x.pageoffsets p < x.pagesused
  offset_inj : ∀ p < d.ppb, ∀ q < d.ppb, x.pageoffsets p ≠ 0xFFFF →
    x.pageoffsets p = x.pageoffsets q → p = q
  page : ∀ p < d.ppb, x.pageoffsets p ≠ 0xFFFF →
    ∃ pg, nand (x.scatteredvblock * d.ppb + x.pageoffsets p) = some pg ∧
      pg.spare.lpn = x.logicalvblock * d.ppb + p ∧ pg.spare.eccmark = 0xFF
  erased : ∀ k < d.ppb, x.pagesused ≤ k → nand (x.scatteredvblock * d.ppb + k) = none
  flag : x.issequential = 0 ∨ x.issequential = 1
  sequential : x.issequential = 1 →
    ∀ p < d.ppb, x.pageoffsets p = if p < x.pagescurrent then p else 0xFFFF

/-- `ftlctrlpage` is a page of a control block, and those after it in the block are erased. -/
structure CtrlOk (s : State α) : Prop where
  inside : ∃ i < 3, s.cxt.ftlctrlpage / d.ppb = s.cxt.ftlctrlblocks i
  erased : ∀ p, s.cxt.ftlctrlpage < p → p / d.ppb = s.cxt.ftlctrlpage / d.ppb → s.nand p = none

/-- What holds between two steps, while `hand` is in the hands of the function at work. -/
structure Inv (s : State α) (hand : Multiset Nat) : Prop where
  owned : Owned d s hand
  start : s.cxt.nextfreeidx < 0x14
  logical : ∀ e < 0x11, (s.log e).Used → (s.log e).logicalvblock < d.type.userblocks
  unique : ∀ e < 0x11, ∀ e' < 0x11, (s.log e).Used → (s.log e').Used →
    (s.log e).logicalvblock = (s.log e').logicalvblock → e = e'
  entry : ∀ e < 0x11, (s.log e).Used → EntryOk d s.nand (s.log e)
  ctrl : CtrlOk d s

/-- What a sector reads as: its data, and whether reading it reports an error. -/
def State.sector (s : State α) (k : Nat) : Payload α × Bool :=
  match s.nand (s.abspage d (k / d.ppb) (k % d.ppb)) with
  | none => (.zeros, false)
  | some p => if p.spare.eccmark ≠ 0xFF then (.zeros, true) else (p.data, false)

/-- Every sector of the device reads the same. -/
def SameView (s t : State α) : Prop := ∀ k < d.sectors, t.sector d k = s.sector d k

variable {d} {s t u : State α} {hand : Multiset Nat}

theorem SameView.refl (s : State α) : SameView d s s := fun _ _ => rfl

theorem SameView.trans (h : SameView d s t) (h' : SameView d t u) : SameView d s u :=
  fun k hk => (h' k hk).trans (h k hk)

/-! ## Log entries -/

namespace EntryOk

variable {nand nand' : Nat → Option (Page α)} {x : LogEntry}

theorem offset_lt_ppb (h : EntryOk d nand x) {p : Nat} (hp : p < d.ppb)
    (ho : x.pageoffsets p ≠ 0xFFFF) : x.pageoffsets p < d.ppb :=
  lt_of_lt_of_le (h.offset_lt p hp ho) h.used_le

/-- Only the pages of the scattered block matter. -/
theorem congr (h : EntryOk d nand x)
    (hn : ∀ p, p / d.ppb = x.scatteredvblock → nand' p = nand p) : EntryOk d nand' x where
  used_le := h.used_le
  current := h.current
  current_pos := h.current_pos
  offset_lt := h.offset_lt
  offset_inj := h.offset_inj
  page p hp ho := by
    rw [hn _ (Device.block_page (h.offset_lt_ppb hp ho))]
    exact h.page p hp ho
  erased k hk hu := by
    rw [hn _ (Device.block_page hk)]
    exact h.erased k hk hu
  flag := h.flag
  sequential := h.sequential

theorem current_le (h : EntryOk d nand x) : x.pagescurrent ≤ d.ppb := by
  rw [h.current]
  exact (Finset.card_filter_le _ _).trans (Finset.card_range _).le

end EntryOk

namespace State

theorem getLogEntry_eq_none {l : Nat} :
    s.getLogEntry l = none ↔ ∀ e < 0x11, (s.log e).Used → (s.log e).logicalvblock ≠ l := by
  simp [getLogEntry, List.find?_eq_none]

/-- The search looks at which entries are in use and for which block. -/
theorem getLogEntry_congr {l : Nat} (h : ∀ i, ((t.log i).Used ↔ (s.log i).Used) ∧
    ((s.log i).Used → ((t.log i).logicalvblock = l ↔ (s.log i).logicalvblock = l))) :
    t.getLogEntry l = s.getLogEntry l := by
  unfold getLogEntry
  congr 1
  funext i
  obtain ⟨hu, hl⟩ := h i
  simp only [decide_eq_decide]
  constructor
  · rintro ⟨h1, h2⟩
    exact ⟨hu.1 h1, (hl (hu.1 h1)).1 h2⟩
  · rintro ⟨h1, h2⟩
    exact ⟨hu.2 h1, (hl h1).2 h2⟩

theorem getLogEntry_of_log (h : t.log = s.log) (l : Nat) : t.getLogEntry l = s.getLogEntry l := by
  unfold getLogEntry
  rw [h]

theorem getLogEntry_some {l e : Nat} (h : s.getLogEntry l = some e) :
    e < 0x11 ∧ (s.log e).Used ∧ (s.log e).logicalvblock = l := by
  have hm := List.mem_of_find?_eq_some h
  have hp := List.find?_some h
  simp only [decide_eq_true_eq] at hp
  exact ⟨List.mem_range.1 hm, hp.1, hp.2⟩

theorem abspage_of_none {l : Nat} (h : s.getLogEntry l = none) (p : Nat) :
    s.abspage d l p = s.map l * d.ppb + p := by
  unfold abspage
  rw [h]

theorem abspage_of_some {l e : Nat} (h : s.getLogEntry l = some e) (p : Nat) :
    s.abspage d l p = if (s.log e).pageoffsets p ≠ 0xFFFF then
      (s.log e).scatteredvblock * d.ppb + (s.log e).pageoffsets p
    else s.map l * d.ppb + p := by
  have hu : (s.log e).scatteredvblock ≠ 0xFFFF := (getLogEntry_some h).2.1
  unfold abspage
  rw [h]
  by_cases ho : (s.log e).pageoffsets p ≠ 0xFFFF
  · rw [if_pos ho]
    exact if_pos ⟨hu, ho⟩
  · rw [if_neg ho]
    exact if_neg fun hc => ho hc.2

theorem abspage_congr {l : Nat} (hl : t.log = s.log) (hm : t.map l = s.map l) (p : Nat) :
    t.abspage d l p = s.abspage d l p := by
  unfold abspage
  rw [getLogEntry_of_log hl, hl, hm]

end State

namespace Inv

theorem getLogEntry_eq_some (h : Inv d s hand) {l e : Nat} (he : e < 0x11) (hu : (s.log e).Used)
    (hl : (s.log e).logicalvblock = l) : s.getLogEntry l = some e := by
  cases hg : s.getLogEntry l with
  | none => exact absurd hl (State.getLogEntry_eq_none.1 hg e he hu)
  | some e' =>
    obtain ⟨he', hu', hl'⟩ := State.getLogEntry_some hg
    rw [h.unique e he e' he' hu hu' (hl.trans hl'.symm)]

/-- A sector is read from a block of the map or of the log. -/
theorem abspage_busy (h : Inv d s hand) {l p : Nat} (hl : l < d.type.userblocks) (hp : p < d.ppb) :
    s.abspage d l p / d.ppb ∈ s.mapBlocks d ∨ s.abspage d l p / d.ppb ∈ s.logBlocks := by
  have hmap : (s.map l * d.ppb + p) / d.ppb ∈ s.mapBlocks d := by
    rw [Device.block_page hp]
    exact State.mem_mapBlocks.2 ⟨l, hl, rfl⟩
  cases hg : s.getLogEntry l with
  | none =>
    rw [State.abspage_of_none hg]
    exact .inl hmap
  | some e =>
    obtain ⟨he, hu, -⟩ := State.getLogEntry_some hg
    rw [State.abspage_of_some hg]
    split
    · rename_i ho
      rw [Device.block_page ((h.entry e he hu).offset_lt_ppb hp ho)]
      exact .inr (State.mem_logBlocks.2 ⟨e, he, hu, rfl⟩)
    · exact .inl hmap

theorem abspage_lt (h : Inv d s hand) {l p : Nat} (hl : l < d.type.userblocks) (hp : p < d.ppb) :
    s.abspage d l p < d.vblocks * d.ppb := by
  have hb : s.abspage d l p / d.ppb < d.vblocks := by
    rcases h.abspage_busy hl hp with hb | hb
    · exact h.owned.mem_iff.2 (.inl hb)
    · exact h.owned.mem_iff.2 (.inr (.inl hb))
  exact (Nat.div_lt_iff_lt_mul d.ppb_pos).1 hb

/-- A step that leaves the log and the blocks behind it alone. -/
theorem of_log {hand' : Multiset Nat} (h : Inv d s hand) (hlog : t.log = s.log)
    (hnand : ∀ p, p / d.ppb ∈ s.logBlocks → t.nand p = s.nand p) (howned : Owned d t hand')
    (hstart : t.cxt.nextfreeidx < 0x14) (hctrl : CtrlOk d t) : Inv d t hand' where
  owned := howned
  start := hstart
  logical := by rw [hlog]; exact h.logical
  unique := by rw [hlog]; exact h.unique
  entry e he hu := by
    rw [hlog] at hu ⊢
    refine (h.entry e he hu).congr fun p hp => hnand p ?_
    exact State.mem_logBlocks.2 ⟨e, he, hu, hp.symm⟩
  ctrl := hctrl

/-- A step that leaves the control pages alone as well. -/
theorem of_frame {hand' : Multiset Nat} (h : Inv d s hand) (hlog : t.log = s.log)
    (hblocks : t.cxt.ftlctrlblocks = s.cxt.ftlctrlblocks)
    (hpage : t.cxt.ftlctrlpage = s.cxt.ftlctrlpage)
    (hnand : ∀ p, p / d.ppb ∈ s.logBlocks ∨ p / d.ppb ∈ s.cxt.ctrlBlocks → t.nand p = s.nand p)
    (howned : Owned d t hand') (hstart : t.cxt.nextfreeidx < 0x14) : Inv d t hand' := by
  refine h.of_log hlog (fun p hp => hnand p (.inl hp)) howned hstart ?_
  obtain ⟨i, hi, hin⟩ := h.ctrl.inside
  refine ⟨⟨i, hi, by rw [hpage, hblocks]; exact hin⟩, fun p hp hb => ?_⟩
  rw [hpage] at hp hb
  rw [hnand p (.inr (Cxt.mem_ctrlBlocks.2 ⟨i, hi, by rw [hb, hin]⟩))]
  exact h.ctrl.erased p hp hb

theorem count (h : Inv d s hand) : s.cxt.freecount + (s.logBlocks).card + hand.card = 0x14 :=
  h.owned.count

end Inv

theorem SameView.of_frame (h : Inv d s hand) (hmap : t.map = s.map) (hlog : t.log = s.log)
    (hnand : ∀ p, p / d.ppb ∈ s.mapBlocks d ∨ p / d.ppb ∈ s.logBlocks → t.nand p = s.nand p) :
    SameView d s t := by
  intro k hk
  have hb := h.abspage_busy (Device.sector_block hk) (Device.mod_lt_ppb k)
  unfold State.sector
  rw [State.abspage_congr hlog (by rw [hmap]), hnand _ hb]

/-! ## Log entries that go and come -/

namespace State

/-- The state with log entry `e` overwritten by `x`. -/
def setLog (s : State α) (e : Nat) (x : LogEntry) : State α := { s with log := upd s.log e x }

variable {x : LogEntry} {e i : Nat}

@[simp] theorem setLog_map : (s.setLog e x).map = s.map := rfl
@[simp] theorem setLog_cxt : (s.setLog e x).cxt = s.cxt := rfl
@[simp] theorem setLog_nand : (s.setLog e x).nand = s.nand := rfl

@[simp] theorem setLog_log_self : (s.setLog e x).log e = x := upd_self _ _ _

theorem setLog_log_ne (h : i ≠ e) : (s.setLog e x).log i = s.log i := upd_ne _ _ h

theorem setLog_setLog (y : LogEntry) : (s.setLog e x).setLog e y = s.setLog e y := by
  unfold setLog
  rw [upd_upd]

theorem modifyLog_eq (f : LogEntry → LogEntry) : s.modifyLog e f = s.setLog e (f (s.log e)) := rfl

theorem logBlocks_setLog (s : State α) {e : Nat} (he : e < 0x11) (x : LogEntry) :
    (s.log e).blocks + (s.setLog e x).logBlocks = x.blocks + s.logBlocks :=
  s.logBlocks_modifyLog he fun _ => x

/-- An entry that is marked unused gives its block away. -/
theorem logBlocks_remove (he : e < 0x11) (hu : (s.log e).Used) (hx : ¬ x.Used) :
    s.logBlocks = (s.log e).scatteredvblock ::ₘ (s.setLog e x).logBlocks := by
  have h := s.logBlocks_setLog he x
  rw [LogEntry.blocks, LogEntry.blocks, if_pos hu, if_neg hx, zero_add,
    Multiset.singleton_add] at h
  exact h.symm

/-- An unused entry that is taken into use brings its block. -/
theorem logBlocks_insert (he : e < 0x11) (hu : ¬ (s.log e).Used) (hx : x.Used) :
    (s.setLog e x).logBlocks = x.scatteredvblock ::ₘ s.logBlocks := by
  have h := s.logBlocks_setLog he x
  rw [LogEntry.blocks, LogEntry.blocks, if_neg hu, if_pos hx, zero_add,
    Multiset.singleton_add] at h
  exact h

end State

namespace Inv

variable {x : LogEntry} {e : Nat}

/-- The entry goes, its block is in hand. -/
theorem remove (h : Inv d s hand) (he : e < 0x11) (hu : (s.log e).Used) (hx : ¬ x.Used) :
    Inv d (s.setLog e x) ((s.log e).scatteredvblock ::ₘ hand) := by
  have hother : ∀ i, ((s.setLog e x).log i).Used →
      (s.setLog e x).log i = s.log i ∧ (s.log i).Used := by
    intro i hi
    have hne : i ≠ e := by
      rintro rfl
      rw [State.setLog_log_self] at hi
      exact hx hi
    rw [State.setLog_log_ne hne] at hi ⊢
    exact ⟨rfl, hi⟩
  refine ⟨?_, h.start, fun i hi hi' => ?_, fun i hi j hj hi' hj' hl => ?_, fun i hi hi' => ?_,
    ⟨h.ctrl.inside, h.ctrl.erased⟩⟩
  · have ho := h.owned
    unfold Owned at ho ⊢
    rw [State.logBlocks_remove he hu hx] at ho
    rw [← ho]
    simp only [← Multiset.singleton_add]
    show s.mapBlocks d + (s.setLog e x).logBlocks + s.cxt.poolBlocks + s.cxt.ctrlBlocks + _ = _
    abel
  · obtain ⟨hlog, hui⟩ := hother i hi'
    rw [hlog]
    exact h.logical i hi hui
  · obtain ⟨hlogi, hui⟩ := hother i hi'
    obtain ⟨hlogj, huj⟩ := hother j hj'
    rw [hlogi, hlogj] at hl
    exact h.unique i hi j hj hui huj hl
  · obtain ⟨hlog, hui⟩ := hother i hi'
    rw [hlog]
    exact h.entry i hi hui

/-- An unused entry is taken into use with a block that was in hand. -/
theorem insert (h : Inv d s (x.scatteredvblock ::ₘ hand)) (he : e < 0x11)
    (hu : ¬ (s.log e).Used) (hx : x.Used) (hl : x.logicalvblock < d.type.userblocks)
    (huniq : ∀ i < 0x11, i ≠ e → (s.log i).Used → (s.log i).logicalvblock ≠ x.logicalvblock)
    (hentry : EntryOk d s.nand x) : Inv d (s.setLog e x) hand := by
  refine ⟨?_, h.start, fun i hi hui => ?_, fun i hi j hj hui huj hlij => ?_, fun i hi hui => ?_,
    ⟨h.ctrl.inside, h.ctrl.erased⟩⟩
  · have ho := h.owned
    unfold Owned at ho ⊢
    rw [State.logBlocks_insert he hu hx, ← ho]
    simp only [← Multiset.singleton_add]
    show s.mapBlocks d + _ + s.cxt.poolBlocks + s.cxt.ctrlBlocks + _ = _
    abel
  · by_cases hie : i = e
    · rw [hie, State.setLog_log_self]
      exact hl
    · rw [State.setLog_log_ne hie] at hui ⊢
      exact h.logical i hi hui
  · by_cases hie : i = e
    · by_contra hne
      have hje : j ≠ e := fun hje => hne (hie.trans hje.symm)
      rw [State.setLog_log_ne hje] at huj hlij
      rw [hie, State.setLog_log_self] at hlij
      exact huniq j hj hje huj hlij.symm
    · rw [State.setLog_log_ne hie] at hui hlij
      by_cases hje : j = e
      · rw [hje, State.setLog_log_self] at hlij
        exact absurd hlij (huniq i hi hie hui)
      · rw [State.setLog_log_ne hje] at huj hlij
        exact h.unique i hi j hj hui huj hlij
  · by_cases hie : i = e
    · rw [hie, State.setLog_log_self]
      exact hentry
    · rw [State.setLog_log_ne hie] at hui ⊢
      exact h.entry i hi hui

/-- Blocks in hand may be written to. -/
theorem of_hand (h : Inv d s hand) {nand : Nat → Option (Page α)}
    (hn : ∀ p, p / d.ppb ∉ hand → nand p = s.nand p) : Inv d { s with nand := nand } hand := by
  refine h.of_frame (t := { s with nand := nand }) rfl rfl rfl (fun p hp => hn p fun hh => ?_)
    h.owned h.start
  have hdis := h.owned.disjoint (b := p / d.ppb)
  rcases hp with hp | hp
  · exact (hdis.2.1 (.inr hp)).2.2 hh
  · exact hdis.2.2.2 hp hh

/-- No two entries have one scattered block. -/
theorem scat_inj {i : Nat} (h : Inv d s hand) (he : e < 0x11) (hi : i < 0x11)
    (hu : (s.log e).Used) (hui : (s.log i).Used)
    (hs : (s.log i).scatteredvblock = (s.log e).scatteredvblock) : i = e := by
  by_contra hie
  have hunused : ¬ LogEntry.unused.Used := fun hc => hc rfl
  have hn := (h.remove he hu hunused).owned.disjoint (b := (s.log e).scatteredvblock)
  refine (hn.2.1 (.inr (State.mem_logBlocks.2 ⟨i, hi, ?_, ?_⟩))).2.2 (Multiset.mem_cons_self _ _)
  · rw [State.setLog_log_ne hie]
    exact hui
  · rw [State.setLog_log_ne hie]
    exact hs

/-- A sector read from the block of an entry is one that the entry has an offset for. -/
theorem abspage_log {l p : Nat} (h : Inv d s hand) (hl : l < d.type.userblocks) (hp : p < d.ppb)
    (he : e < 0x11) (hu : (s.log e).Used)
    (hb : s.abspage d l p / d.ppb = (s.log e).scatteredvblock) :
    (s.log e).logicalvblock = l ∧ (s.log e).pageoffsets p ≠ 0xFFFF ∧
      s.abspage d l p = (s.log e).scatteredvblock * d.ppb + (s.log e).pageoffsets p := by
  have hmem : (s.log e).scatteredvblock ∈ s.logBlocks := State.mem_logBlocks.2 ⟨e, he, hu, rfl⟩
  have hmap : (s.map l * d.ppb + p) / d.ppb ≠ (s.log e).scatteredvblock := by
    rw [Device.block_page hp]
    intro hm
    exact h.owned.disjoint.1 (State.mem_mapBlocks.2 ⟨l, hl, hm⟩) hmem
  cases hg : s.getLogEntry l with
  | none =>
    rw [State.abspage_of_none hg] at hb
    exact absurd hb hmap
  | some i =>
    obtain ⟨hi, hui, hli⟩ := State.getLogEntry_some hg
    rw [State.abspage_of_some hg] at hb ⊢
    by_cases ho : (s.log i).pageoffsets p ≠ 0xFFFF
    · rw [if_pos ho] at hb ⊢
      rw [Device.block_page ((h.entry i hi hui).offset_lt_ppb hp ho)] at hb
      have hie := h.scat_inj he hi hu hui hb
      subst hie
      exact ⟨hli, ho, rfl⟩
    · rw [if_neg ho] at hb
      exact absurd hb hmap

/-- An entry in use is overwritten, and with it pages of its old block and of its new one, which
was in hand. -/
theorem replace {b : Nat} {nand : Nat → Option (Page α)} (h : Inv d s (b ::ₘ hand))
    (he : e < 0x11) (hu : (s.log e).Used) (hb : x.scatteredvblock = b)
    (hl : x.logicalvblock = (s.log e).logicalvblock)
    (hn : ∀ p, p / d.ppb ≠ b → p / d.ppb ≠ (s.log e).scatteredvblock → nand p = s.nand p)
    (hentry : EntryOk d nand x) :
    Inv d { s.setLog e x with nand := nand } ((s.log e).scatteredvblock ::ₘ hand) := by
  have hunused : ¬ LogEntry.unused.Used := fun hc => hc rfl
  have hlt := h.owned.hand_lt (Multiset.mem_cons_self b hand)
  have h1 := h.remove he hu hunused
  have h2 : Inv d { s.setLog e LogEntry.unused with nand := nand }
      ((s.log e).scatteredvblock ::ₘ b ::ₘ hand) := h1.of_hand fun p hp => hn p ?_ ?_
  · rw [Multiset.cons_swap, ← hb] at h2
    have h3 := h2.insert he (by simp [State.setLog_log_self, hunused]) ?_ ?_ ?_ hentry
    · exact cast (congrArg (Inv d · _) (by simp only [State.setLog, upd_upd])) h3
    · have := d.vblocks_lt
      show x.scatteredvblock ≠ 0xFFFF
      omega
    · rw [hl]
      exact h.logical e he hu
    · intro i hi hie hui
      have hlog : (s.setLog e LogEntry.unused).log i = s.log i := State.setLog_log_ne hie
      show ((s.setLog e LogEntry.unused).log i).logicalvblock ≠ _
      rw [hlog, hl]
      intro hlie
      refine hie (h.unique i hi e he ?_ hu hlie)
      rw [← hlog]
      exact hui
  · rintro rfl
    exact hp (Multiset.mem_cons_of_mem (Multiset.mem_cons_self _ _))
  · intro hpe
    exact hp (by rw [hpe]; exact Multiset.mem_cons_self _ _)

/-- An entry in use is overwritten, and pages of its block programmed. -/
theorem rewrite {nand : Nat → Option (Page α)} (h : Inv d s hand) (he : e < 0x11)
    (hu : (s.log e).Used) (hb : x.scatteredvblock = (s.log e).scatteredvblock)
    (hl : x.logicalvblock < d.type.userblocks)
    (huniq : ∀ i < 0x11, i ≠ e → (s.log i).Used → (s.log i).logicalvblock ≠ x.logicalvblock)
    (hn : ∀ p, p / d.ppb ≠ (s.log e).scatteredvblock → nand p = s.nand p)
    (hentry : EntryOk d nand x) : Inv d { s.setLog e x with nand := nand } hand := by
  have hunused : ¬ LogEntry.unused.Used := fun hc => hc rfl
  have h1 := h.remove he hu hunused
  have h2 : Inv d { s.setLog e LogEntry.unused with nand := nand }
      ((s.log e).scatteredvblock ::ₘ hand) := h1.of_hand fun p hp => hn p fun hpe =>
    hp (by rw [hpe]; exact Multiset.mem_cons_self _ _)
  rw [← hb] at h2
  have h3 := h2.insert he (by simp [State.setLog_log_self, hunused]) ?_ hl ?_ hentry
  · exact cast (congrArg (Inv d · _) (by simp only [State.setLog, upd_upd])) h3
  · show x.scatteredvblock ≠ 0xFFFF
    rw [hb]
    exact hu
  · intro i hi hie hui
    have hlog : (s.setLog e LogEntry.unused).log i = s.log i := State.setLog_log_ne hie
    show ((s.setLog e LogEntry.unused).log i).logicalvblock ≠ _
    rw [hlog]
    refine huniq i hi hie ?_
    rw [← hlog]
    exact hui

end Inv

/-! ## A new device -/

/-- Two chips of 1024 blocks. -/
def twoBanks : Device where
  type := ⟨0x1580F1EC, 1024, 968, 0x40, 6⟩
  banksExponent := 1
  known := by decide
  banks_le := by decide

/-- Each logical block is mapped to the vBlock of its number, the log is empty, and of the 20
blocks behind the map the first `n` are in the pool. -/
def newState (n : Nat) (nand : Nat → Option (Page Nat)) : State Nat where
  cxt :=
    { usn := 0, nextblockusn := 0, freecount := n, nextfreeidx := 0, swapcounter := 0
      blockpool := fun i => 968 + i, ftlMapPages := fun _ => 0, ftlErasectrPages := fun _ => 0
      erasedirty := 0, ftlctrlblocks := fun i => 988 + i, ftlctrlpage := 988 * 128, cleanFlag := 0 }
  map := id
  erasectr := fun _ => 0
  erasectrDirt := fun _ => 0
  log := fun _ => LogEntry.unused
  vflUsn := 0
  vflCxt := fun _ => ⟨0, fun i => 988 + i⟩
  nand
  vflStored := fun _ => ⟨0, fun i => 988 + i⟩

theorem newState_logBlocks (n : Nat) (nand : Nat → Option (Page Nat)) :
    (newState n nand).logBlocks = 0 := by
  have hempty : ∀ e, ((newState n nand).log e).blocks = 0 := fun e => if_neg fun hc => hc rfl
  simp [State.logBlocks, hempty]

theorem newState_owned {n : Nat} (hn : n ≤ 0x14) (nand : Nat → Option (Page Nat)) :
    Owned twoBanks (newState n nand) ((Multiset.range (0x14 - n)).map (968 + n + ·)) := by
  have hpool : (newState n nand).cxt.poolBlocks = (Multiset.range n).map (968 + ·) := by
    refine Multiset.map_congr rfl fun i hi => ?_
    have hlt := Multiset.mem_range.1 hi
    show 968 + (if 0x14 ≤ 0 + i then 0 + i - 0x14 else 0 + i) = 968 + i
    rw [if_neg (by omega), Nat.zero_add]
  have hmap : (newState n nand).mapBlocks twoBanks = Multiset.range 968 := Multiset.map_id _
  have hctrl : (newState n nand).cxt.ctrlBlocks = (Multiset.range 3).map (968 + n + (0x14 - n) + ·) := by
    refine Multiset.map_congr rfl fun i _ => ?_
    show 988 + i = _
    omega
  have hsum : twoBanks.vblocks = 968 + n + (0x14 - n) + 3 := by
    show 968 + 0x17 = _
    omega
  unfold Owned
  rw [newState_logBlocks, hpool, hmap, hctrl, hsum, Multiset.range_add (968 + n + (0x14 - n)) 3,
    Multiset.range_add (968 + n) (0x14 - n), Multiset.range_add 968 n]
  abel

theorem twoBanks_ppb : twoBanks.ppb = 128 := rfl

theorem newState_inv {n : Nat} (hn : n ≤ 0x14) {nand : Nat → Option (Page Nat)}
    (he : ∀ p, p / 128 = 988 → nand p = none) :
    Inv twoBanks (newState n nand) ((Multiset.range (0x14 - n)).map (968 + n + ·)) where
  owned := newState_owned hn nand
  start := by
    show 0 < 0x14
    omega
  logical _ _ hu := absurd rfl hu
  unique _ _ _ _ hu := absurd rfl hu
  entry _ _ hu := absurd rfl hu
  ctrl := by
    have hblock : 988 * 128 / twoBanks.ppb = 988 := by rw [twoBanks_ppb]
    refine ⟨⟨0, by omega, hblock⟩, fun p _ hp => he p ?_⟩
    exact hp.trans hblock

end Ftl
end Freemyipod
