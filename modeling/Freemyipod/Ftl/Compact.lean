import Freemyipod.Ftl.Commit

/-!
# Ftl.Compact

`ftl_compact_scattered`: the current pages of a log entry move, in order, to a new block.

* `Compacting`: the loop invariant, after the first `j` pages of the logical block.
* `Compacted`: what the whole function leaves.
-/

namespace Freemyipod
namespace Ftl

open Effect

variable {α : Type} {d : Device} {s t u : State α} {hand : Multiset Nat} {e b j : Nat}

/-- A page that can be read is copied as it is. -/
theorem copyPage_spec {source destination lpn type : Nat} {pg : Page α}
    (hs : source < d.vblocks * d.ppb) (hpg : s.nand source = some pg)
    (hr : destination + 1 ≤ d.vblocks * d.ppb) (he : s.nand destination = none) :
    Wp (copyPage d source destination lpn type) s fun r t => r = 0 ∧ ∃ usn ty,
      t = { s with
        cxt := { s.cxt with nextblockusn := usn }
        nand := programmed s.nand destination 1 (fun _ => pg.data) fun _ =>
          .user lpn usn ty 0xFF } := by
  simp only [copyPage, wp_bind, wp_get, wp_set, vflRead_some hs hpg]
  refine (vflWrite_spec hr fun i hi => ?_).mono fun r t ht => ?_
  · rw [show i = 0 by omega]
    exact he
  · obtain ⟨rfl, rfl⟩ := ht
    exact ⟨rfl, _, _, rfl⟩

/-- The pages of the logical block below `j` that have an offset. -/
def LogEntry.mappedBelow (x : LogEntry) (j : Nat) : Finset Nat :=
  (Finset.range j).filter fun p => x.pageoffsets p ≠ 0xFFFF

namespace LogEntry

theorem mappedBelow_card_le (x : LogEntry) (j : Nat) : (x.mappedBelow j).card ≤ j :=
  (Finset.card_filter_le _ _).trans (Finset.card_range j).le

theorem mappedBelow_succ_of_ne {x : LogEntry} (h : x.pageoffsets j ≠ 0xFFFF) :
    (x.mappedBelow (j + 1)).card = (x.mappedBelow j).card + 1 := by
  unfold mappedBelow
  rw [Finset.range_add_one, Finset.filter_insert, if_pos h, Finset.card_insert_of_notMem (by simp)]

theorem mappedBelow_succ_of_eq {x : LogEntry} (h : x.pageoffsets j = 0xFFFF) :
    x.mappedBelow (j + 1) = x.mappedBelow j := by
  unfold mappedBelow
  rw [Finset.range_add_one, Finset.filter_insert, if_neg (not_not.2 h)]

end LogEntry

/-- In state `s` the block `b` was just allocated; in `t` the pages below `j` are there. -/
structure Compacting (d : Device) (s : State α) (e b j : Nat) (t : State α) : Prop where
  eq : t = { s.setLog e (t.log e) with
    cxt := { s.cxt with nextblockusn := t.cxt.nextblockusn }
    nand := t.nand }
  scat : (t.log e).scatteredvblock = b
  logical : (t.log e).logicalvblock = (s.log e).logicalvblock
  used : (t.log e).pagesused = ((s.log e).mappedBelow j).card
  current : (t.log e).pagescurrent = (t.log e).pagesused
  ahead : ∀ p, j ≤ p → (t.log e).pageoffsets p = (s.log e).pageoffsets p
  free : ∀ p < j, (s.log e).pageoffsets p = 0xFFFF → (t.log e).pageoffsets p = 0xFFFF
  offset_lt : ∀ p < j, (s.log e).pageoffsets p ≠ 0xFFFF →
    (t.log e).pageoffsets p < (t.log e).pagesused
  inj : ∀ p < j, ∀ q < j, (s.log e).pageoffsets p ≠ 0xFFFF → (s.log e).pageoffsets q ≠ 0xFFFF →
    (t.log e).pageoffsets p = (t.log e).pageoffsets q → p = q
  page : ∀ p < j, (s.log e).pageoffsets p ≠ 0xFFFF →
    ∃ pg, t.nand (b * d.ppb + (t.log e).pageoffsets p) = some pg ∧
      pg.spare.lpn = (s.log e).logicalvblock * d.ppb + p ∧ pg.spare.eccmark = 0xFF ∧
      readsAs (some pg) =
        readsAs (s.nand ((s.log e).scatteredvblock * d.ppb + (s.log e).pageoffsets p))
  other : ∀ p, p / d.ppb ≠ b → t.nand p = s.nand p
  erased : ∀ k < d.ppb, (t.log e).pagesused ≤ k → t.nand (b * d.ppb + k) = none
  flag : (t.log e).issequential = 0 ∨ (t.log e).issequential = 1
  sequential : (t.log e).issequential = 1 →
    ∀ p < j, (t.log e).pageoffsets p = if p < (t.log e).pagesused then p else 0xFFFF

namespace Compacting

theorem log_ne (h : Compacting d s e b j t) {i : Nat} (hi : i ≠ e) : t.log i = s.log i := by
  rw [h.eq]
  exact State.setLog_log_ne hi

/-- A page without an offset is passed over. -/
theorem skip (h : Compacting d s e b j t) (ho : (s.log e).pageoffsets j = 0xFFFF) :
    Compacting d s e b (j + 1) t := by
  have hsplit : ∀ p, p < j + 1 → p ≠ j → p < j := fun p hp hne => by omega
  have hcard := (s.log e).mappedBelow_card_le j
  have hused := h.used
  refine ⟨h.eq, h.scat, h.logical, ?_, h.current, fun p hp => h.ahead p (by omega),
    fun p hp hp' => ?_, fun p hp hp' => ?_, fun p hp q hq hp' hq' => ?_, fun p hp hp' => ?_,
    h.other, h.erased, h.flag, fun hs p hp => ?_⟩
  · rw [LogEntry.mappedBelow_succ_of_eq ho]
    exact h.used
  · by_cases hpj : p = j
    · rw [hpj, h.ahead j le_rfl, ho]
    · exact h.free p (hsplit p hp hpj) hp'
  · exact h.offset_lt p (hsplit p hp (fun hpj => hp' (hpj ▸ ho))) hp'
  · exact h.inj p (hsplit p hp fun hpj => hp' (hpj ▸ ho)) q
      (hsplit q hq fun hqj => hq' (hqj ▸ ho)) hp' hq'
  · exact h.page p (hsplit p hp fun hpj => hp' (hpj ▸ ho)) hp'
  · by_cases hpj : p = j
    · rw [hpj, h.ahead j le_rfl, ho, if_neg (by omega)]
    · exact h.sequential hs p (hsplit p hp hpj)

/-- A page with an offset goes to the next page of the block. -/
theorem copy (h : Compacting d s e b j t) (hj : j < d.ppb)
    (ho : (s.log e).pageoffsets j ≠ 0xFFFF) (hl : (s.log e).logicalvblock < d.type.userblocks)
    {pg : Page α} (usn : UInt32) (ty : Nat)
    (hpg : s.nand ((s.log e).scatteredvblock * d.ppb + (s.log e).pageoffsets j) = some pg)
    (hecc : pg.spare.eccmark = 0xFF)
    (hu : u = { t.setLog e ({ t.log e with
        pageoffsets := upd (t.log e).pageoffsets j (t.log e).pagesused
        pagesused := (t.log e).pagesused + 1
        pagescurrent := (t.log e).pagescurrent + 1 }.checkStillSequential j) with
      cxt := { t.cxt with nextblockusn := usn }
      nand := programmed t.nand (b * d.ppb + (t.log e).pagesused) 1 (fun _ => pg.data) fun _ =>
        .user ((s.log e).logicalvblock * d.ppb + j) usn ty 0xFF }) :
    Compacting d s e b (j + 1) u := by
  have hcard := (s.log e).mappedBelow_card_le j
  have hused := h.used
  have hcurrent := h.current
  have hlt : (t.log e).pagesused < d.ppb := by omega
  have hsplit : ∀ p, p < j + 1 → p ≠ j → p < j := fun p hp hne => by omega
  let x : LogEntry := { t.log e with
    pageoffsets := upd (t.log e).pageoffsets j (t.log e).pagesused
    pagesused := (t.log e).pagesused + 1
    pagescurrent := (t.log e).pagescurrent + 1 }
  have hlog : u.log e = x.checkStillSequential j := by
    rw [hu]
    exact State.setLog_log_self
  -- the check changes the flag only
  have hx : (u.log e).scatteredvblock = (t.log e).scatteredvblock ∧
      (u.log e).logicalvblock = (t.log e).logicalvblock ∧
      (u.log e).pageoffsets = upd (t.log e).pageoffsets j (t.log e).pagesused ∧
      (u.log e).pagesused = (t.log e).pagesused + 1 ∧
      (u.log e).pagescurrent = (t.log e).pagescurrent + 1 := by
    rw [hlog]
    unfold LogEntry.checkStillSequential
    split <;> exact ⟨rfl, rfl, rfl, rfl, rfl⟩
  obtain ⟨hscat, hlogical, hoff, hused', hcurrent'⟩ := hx
  have hnand : u.nand = programmed t.nand (b * d.ppb + (t.log e).pagesused) 1 (fun _ => pg.data)
      fun _ => .user ((s.log e).logicalvblock * d.ppb + j) usn ty 0xFF := by rw [hu]
  have hself : upd (t.log e).pageoffsets j (t.log e).pagesused j = (t.log e).pagesused :=
    upd_self _ _ _
  have hne : ∀ p, p ≠ j →
      upd (t.log e).pageoffsets j (t.log e).pagesused p = (t.log e).pageoffsets p :=
    fun p hp => upd_ne _ _ hp
  have hflag : (u.log e).issequential = 0 ∨
      (u.log e).issequential = (t.log e).issequential ∧ (t.log e).pagesused = j := by
    rw [hlog]
    unfold LogEntry.checkStillSequential
    split
    · exact .inl rfl
    · rename_i hc
      refine .inr ⟨rfl, ?_⟩
      have hc' := (not_or.1 hc).2
      rw [not_not] at hc'
      exact hself.symm.trans hc'
  refine ⟨?_, hscat.trans h.scat, hlogical.trans h.logical, ?_, ?_, fun p hp => ?_,
    fun p hp hp' => ?_, fun p hp hp' => ?_, fun p hp q hq hp' hq' hpq => ?_, fun p hp hp' => ?_,
    fun p hp => ?_, fun k hk hk' => ?_, ?_, fun hs p hp => ?_⟩
  · rw [hlog, hnand, hu, h.eq]
    simp only [State.setLog, upd_upd, upd_self, x]
  · rw [hused', LogEntry.mappedBelow_succ_of_ne ho]
    omega
  · omega
  · rw [hoff, hne p (by omega)]
    exact h.ahead p (by omega)
  · have hpj : p ≠ j := fun hpj => ho (hpj ▸ hp')
    rw [hoff, hne p hpj]
    exact h.free p (hsplit p hp hpj) hp'
  · rw [hoff, hused']
    by_cases hpj : p = j
    · rw [hpj, hself]
      omega
    · rw [hne p hpj]
      have := h.offset_lt p (hsplit p hp hpj) hp'
      omega
  · rw [hoff] at hpq
    by_cases hpj : p = j
    · by_cases hqj : q = j
      · rw [hpj, hqj]
      · rw [hpj, hself, hne q hqj] at hpq
        have := h.offset_lt q (hsplit q hq hqj) hq'
        omega
    · by_cases hqj : q = j
      · rw [hqj, hself, hne p hpj] at hpq
        have := h.offset_lt p (hsplit p hp hpj) hp'
        omega
      · rw [hne p hpj, hne q hqj] at hpq
        exact h.inj p (hsplit p hp hpj) q (hsplit q hq hqj) hp' hq' hpq
  · rw [hoff, hnand]
    by_cases hpj : p = j
    · subst hpj
      have hat : programmed t.nand (b * d.ppb + (t.log e).pagesused) 1 (fun _ => pg.data)
          (fun _ => .user ((s.log e).logicalvblock * d.ppb + p) usn ty 0xFF)
          (b * d.ppb + (t.log e).pagesused + 0) =
            some ⟨pg.data, .user ((s.log e).logicalvblock * d.ppb + p) usn ty 0xFF⟩ :=
        programmed_at (by omega)
      rw [hself]
      refine ⟨_, hat, Spare.lpn_user ?_ _ _ _, rfl, ?_⟩
      · exact (Device.page_lt hl hj).trans d.sectors_lt
      · rw [hpg]
        unfold readsAs
        simp only [hecc]
        rfl
    · rw [hne p hpj]
      have := h.offset_lt p (hsplit p hp hpj) hp'
      rw [programmed_off (by omega)]
      exact h.page p (hsplit p hp hpj) hp'
  · rw [hnand, programmed_block (Device.block_page hlt) (by rw [Device.page_page hlt]; omega) hp]
    exact h.other p hp
  · rw [hused'] at hk'
    rw [hnand, programmed_off (by omega)]
    exact h.erased k hk (by omega)
  · rcases hflag with hf | ⟨hf, -⟩
    · exact .inl hf
    · rw [hf]
      exact h.flag
  · rcases hflag with hf | ⟨hf, huj⟩
    · rw [hf] at hs
      cases hs
    · rw [hf] at hs
      rw [hoff, hused']
      by_cases hpj : p = j
      · rw [hpj, hself, if_pos (by omega), huj]
      · have hp' := hsplit p hp hpj
        rw [hne p hpj, h.sequential hs p hp', if_pos (by omega), if_pos (by omega)]

end Compacting

theorem compactPage_spec (hs : Inv d s (b ::ₘ hand)) (he : e < 0x11) (hu : (s.log e).Used)
    (h : Compacting d s e b j t) (hj : j < d.ppb) :
    Wp (compactPage d e (s.log e).scatteredvblock b j) t fun r u => r = none ∧
      Compacting d s e b (j + 1) u := by
  have hx := hs.entry e he hu
  have hl := hs.logical e he hu
  have hoff := h.ahead j le_rfl
  have hcard := (s.log e).mappedBelow_card_le j
  have hused := h.used
  have hb : b < d.vblocks := hs.owned.hand_lt (Multiset.mem_cons_self _ _)
  have hne : (s.log e).scatteredvblock ≠ b := by
    rintro rfl
    exact (hs.owned.disjoint.2.1 (.inr (State.mem_logBlocks.2 ⟨e, he, hu, rfl⟩))).2.2
      (Multiset.mem_cons_self _ _)
  simp only [compactPage, wp_bind, wp_get, wp_ite, wp_pure, hoff]
  refine ⟨fun ho => ⟨trivial, h.skip ho⟩, fun ho => ?_⟩
  have hlt := hx.offset_lt_ppb hj ho
  obtain ⟨pg, hpg, -, hecc⟩ := hx.page j hj ho
  have hsource : t.nand ((s.log e).scatteredvblock * d.ppb + (s.log e).pageoffsets j) = some pg := by
    rw [h.other _ (by rw [Device.block_page hlt]; exact hne), hpg]
  refine (copyPage_spec (Device.page_lt (hs.owned.log_lt he hu) hlt) hsource
    (Device.page_lt hb (by omega)) (h.erased _ (by omega) le_rfl)).mono fun r v hv => ?_
  obtain ⟨rfl, usn, ty, rfl⟩ := hv
  simp only [wp_modify]
  refine ⟨fun hc => absurd rfl hc, fun _ => ⟨trivial, ?_⟩⟩
  refine h.copy hj ho hl usn ty hpg hecc ?_
  rw [h.logical]
  rfl

/-- What `ftl_compact_scattered` leaves. -/
structure Compacted (d : Device) (s : State α) (hand : Multiset Nat) (e : Nat) (t : State α) :
    Prop where
  inv : Inv d t hand
  log : ∀ i, i ≠ e → t.log i = s.log i
  used : (t.log e).Used
  logical : (t.log e).logicalvblock = (s.log e).logicalvblock
  pagesused : (t.log e).pagesused = (s.log e).pagescurrent
  pagescurrent : (t.log e).pagescurrent = (s.log e).pagescurrent
  freecount : t.cxt.freecount = s.cxt.freecount
  ctrl : SameCtrl d s t
  view : SameView d s t

namespace Compacting

/-- All pages moved: the entry describes its new block. -/
theorem entry (h : Compacting d s e b d.ppb t) :
    EntryOk d t.nand (t.log e) := by
  have hcard := (s.log e).mappedBelow_card_le d.ppb
  have hused := h.used
  have hcurrent := h.current
  have hmapped : ∀ p < d.ppb,
      ((t.log e).pageoffsets p ≠ 0xFFFF ↔ (s.log e).pageoffsets p ≠ 0xFFFF) := by
    intro p hp
    have hppb := d.ppb_cases
    constructor
    · intro ho ho'
      exact ho (h.free p hp ho')
    · intro ho
      have := h.offset_lt p hp ho
      omega
  refine ⟨by omega, ?_, by omega, fun p hp ho => h.offset_lt p hp ((hmapped p hp).1 ho),
    fun p hp q hq ho hpq => ?_, fun p hp ho => ?_, fun k hk hk' => ?_, h.flag, fun hs p hp => ?_⟩
  · rw [hcurrent, hused]
    unfold LogEntry.mapped LogEntry.mappedBelow
    refine congrArg Finset.card (Finset.filter_congr fun p hp => ?_)
    exact (hmapped p (Finset.mem_range.1 hp)).symm
  · refine h.inj p hp q hq ((hmapped p hp).1 ho) ((hmapped q hq).1 ?_) hpq
    rw [← hpq]
    exact ho
  · obtain ⟨pg, hpg, hlpn, hecc, -⟩ := h.page p hp ((hmapped p hp).1 ho)
    exact ⟨pg, by rw [h.scat]; exact hpg, by rw [h.logical]; exact hlpn, hecc⟩
  · rw [h.scat]
    exact h.erased k hk hk'
  · rw [hcurrent]
    exact h.sequential hs p hp

theorem inv (h : Compacting d s e b d.ppb t) (hs : Inv d s (b ::ₘ hand)) (he : e < 0x11)
    (hu : (s.log e).Used) : Inv d t ((s.log e).scatteredvblock ::ₘ hand) := by
  have h1 := hs.replace he hu h.scat h.logical (fun p hp _ => h.other p hp)
    h.entry
  have h2 := h1.of_cxt (c := { s.cxt with nextblockusn := t.cxt.nextblockusn }) rfl rfl rfl rfl rfl
  rw [h.eq]
  exact h2

theorem sameView (h : Compacting d s e b d.ppb t) (hs : Inv d s (b ::ₘ hand)) (he : e < 0x11)
    (hu : (s.log e).Used) : SameView d s t := by
  intro k hk
  have hl := Device.sector_block hk
  have hp := Device.mod_lt_ppb (d := d) k
  have hb : b ∈ b ::ₘ hand := Multiset.mem_cons_self _ _
  have hut : (t.log e).Used := by
    have := hs.owned.hand_lt hb
    have := d.vblocks_lt
    show (t.log e).scatteredvblock ≠ 0xFFFF
    rw [h.scat]
    omega
  have hmap : t.map = s.map := by
    rw [h.eq]
    rfl
  have hget : t.getLogEntry (k / d.ppb) = s.getLogEntry (k / d.ppb) := by
    refine State.getLogEntry_congr fun i => ?_
    by_cases hi : i = e
    · rw [hi, h.logical]
      exact ⟨⟨fun _ => hu, fun _ => hut⟩, fun _ => Iff.rfl⟩
    · rw [h.log_ne hi]
      exact ⟨Iff.rfl, fun _ => Iff.rfl⟩
  -- nothing was read from the new block before
  have hnb : ∀ a, a / d.ppb ∈ s.mapBlocks d ∨ a / d.ppb ∈ s.logBlocks → t.nand a = s.nand a := by
    intro a ha
    refine h.other a ?_
    rintro rfl
    exact (hs.owned.disjoint.2.1 ha).2.2 hb
  have hbusy := hs.abspage_busy hl hp
  rw [State.sector_eq_nand, State.sector_eq_nand]
  cases hg : s.getLogEntry (k / d.ppb) with
  | none =>
    rw [State.abspage_of_none hg] at hbusy ⊢
    rw [State.abspage_of_none (hget.trans hg), hmap, hnb _ hbusy]
  | some i =>
    rw [State.abspage_of_some hg] at hbusy ⊢
    rw [State.abspage_of_some (hget.trans hg)]
    by_cases hi : i = e
    · subst hi
      by_cases ho : (s.log i).pageoffsets (k % d.ppb) ≠ 0xFFFF
      · obtain ⟨pg, hpg, -, -, hreads⟩ := h.page _ hp ho
        have hlt := h.offset_lt _ hp ho
        have hle := h.entry.used_le
        have hppb := d.ppb_cases
        rw [if_pos ho, if_pos (by omega), h.scat, hpg, hreads]
      · rw [if_neg ho] at hbusy ⊢
        rw [if_neg (not_not.2 (h.free _ hp (not_not.1 ho))), hmap, hnb _ hbusy]
    · rw [h.log_ne hi, hmap, hnb _ hbusy]

end Compacting

theorem compactScattered_spec (h : Inv d s hand) (he : e < 0x11) (hu : (s.log e).Used)
    (hpos : 0 < (s.log e).pagescurrent) (hf : 2 ≤ s.cxt.freecount) :
    Wp (compactScattered d e) s fun r t => r = 0 ∧ Compacted d s hand e t := by
  simp only [compactScattered, compactTries, wp_bind, wp_get, wp_ite]
  refine ⟨fun hc => by omega, fun _ => ?_⟩
  refine (allocatePoolBlock_spec h.owned h.start hf).mono fun r v hv => ?_
  obtain ⟨b, rfl, hv⟩ := hv
  have hinv := hv.inv h
  have hlog := hv.log
  have huv : (v.log e).Used := by rw [hlog]; exact hu
  have hb := hinv.owned.hand_lt (Multiset.mem_cons_self b hand)
  simp only [wp_bind, wp_modify]
  have h0 : Compacting d v e b 0 (v.modifyLog e fun x =>
      { x with pagesused := 0, pagescurrent := 0, issequential := 1, scatteredvblock := b }) := by
    have hself : (v.modifyLog e fun x =>
        { x with pagesused := 0, pagescurrent := 0, issequential := 1, scatteredvblock := b }).log e =
        { v.log e with
          pagesused := 0, pagescurrent := 0, issequential := 1, scatteredvblock := b } :=
      State.setLog_log_self
    refine ⟨?_, ?_, ?_, ?_, ?_, fun p _ => ?_, fun p hp => by omega, fun p hp => by omega,
      fun p hp => by omega, fun p hp => by omega, fun _ _ => rfl,
      fun k hk _ => hv.erased (Device.block_page hk), ?_, fun _ p hp => by omega⟩
    · rw [hself]
      rfl
    · rw [hself]
    · rw [hself]
    · rw [hself]
      rfl
    · rw [hself]
    · rw [hself]
    · rw [hself]
      exact .inr rfl
  refine (wp_loopUntil (fun j t => Compacting d v e b j t) h0 fun j t _ hj ht => ?_).mono
    fun r t ht => ?_
  · rw [← hlog]
    exact compactPage_spec hinv he huv ht (by omega)
  obtain ⟨rfl, ht⟩ := ht
  rw [Nat.zero_add] at ht
  have hx := hinv.entry e he huv
  have hcur : (t.log e).pagescurrent = (s.log e).pagescurrent := by
    rw [ht.current, ht.used, ← hlog, hx.current]
    rfl
  simp only [wp_get, wp_ite, wp_bind, wp_pure]
  refine ⟨fun _ => ?_, fun hc => absurd ⟨trivial, hcur.symm⟩ hc⟩
  have hinvt := ht.inv hinv he huv
  rw [hlog] at hinvt
  have hcount := hinvt.count
  rw [Multiset.card_cons] at hcount
  refine (releasePoolBlock_spec (h.owned.log_lt he hu) (by omega)).mono fun _ w hw => ?_
  subst hw
  have hfree : t.cxt.freecount = v.cxt.freecount := by rw [ht.eq]
  have hctrl : SameCtrl d v t := by
    have hnand : ∀ p, p / d.ppb ∈ v.cxt.ctrlBlocks → t.nand p = v.nand p := by
      intro p hp
      refine ht.other p ?_
      rintro rfl
      exact hinv.owned.disjoint.2.2.2 hp (Multiset.mem_cons_self _ _)
    refine ⟨?_, ?_, ?_, ?_, ?_, ?_, ?_, ?_, hnand⟩ <;> rw [ht.eq] <;> rfl
  refine ⟨trivial, ⟨hinvt.released, fun i hi => ?_, ?_, ?_, ?_, hcur, ?_, ?_, ?_⟩⟩
  · show t.log i = _
    rw [ht.log_ne hi, hlog]
  · have := d.vblocks_lt
    show (t.log e).scatteredvblock ≠ 0xFFFF
    rw [ht.scat]
    omega
  · show (t.log e).logicalvblock = _
    rw [ht.logical, hlog]
  · show (t.log e).pagesused = _
    rw [← hcur, ht.current]
  · show t.cxt.freecount + 1 = _
    rw [hfree]
    exact hv.freecount
  · exact ((hv.sameCtrl h).trans hctrl).trans
      ⟨rfl, rfl, rfl, rfl, rfl, rfl, rfl, rfl, fun _ _ => rfl⟩
  · exact (hv.sameView h).trans (ht.sameView hinv he huv)

end Ftl
end Freemyipod
