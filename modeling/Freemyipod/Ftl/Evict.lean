import Freemyipod.Ftl.Compact

/-!
# Ftl.Evict

Making room in the log: `ftl_remove_scattered_block` and `ftl_allocate_log_entry`.

* `removeOldest_spec`: with no entry given, the oldest one is committed.
* `removeFull_spec`: a full entry is compacted or committed.
* `allocateLogEntry_spec`: there is always a block and a slot, and the entry is `Ready`.
-/

namespace Freemyipod
namespace Ftl

open Effect

variable {α : Type} {d : Device} {s t u : State α} {hand : Multiset Nat} {e block : Nat}

/-- The entry that `ftl_remove_scattered_block` picks if it is given none. -/
def State.victim (s : State α) : Option Nat := (s.oldest 0x11).bind Oldest.entry

/-! ## Removing an entry -/

theorem SameCtrl.of_swapcounter (s : State α) (n : UInt16) :
    SameCtrl d s (s.modifyCxt fun c => { c with swapcounter := n }) :=
  ⟨rfl, rfl, rfl, rfl, rfl, rfl, rfl, rfl, fun _ _ => rfl⟩

theorem commitEntry_spec (h : Inv d s hand) (he : e < 0x11) (hu : (s.log e).Used)
    (hseq : (s.log e).issequential = 1 → (s.log e).pagescurrent = (s.log e).pagesused)
    (hf : 2 ≤ s.cxt.freecount) :
    Wp (commitEntry d e) s fun r t => r = 0 ∧ Dropped d s hand e t ∧
      (((s.log e).issequential = 1 → s.Unmixed d e) → SameView d s t) := by
  simp only [commitEntry, wp_bind, wp_modify, wp_get, wp_ite]
  let v := s.modifyCxt fun c => { c with swapcounter := c.swapcounter + 1 }
  have hv : Inv d v hand := h.of_cxt rfl rfl rfl rfl rfl
  have hctrl : SameCtrl d s v := .of_swapcounter s _
  have hdrop : ∀ {t}, Dropped d v hand e t → Dropped d s hand e t :=
    fun ht => ⟨ht.inv, ht.log, ht.unused, ht.freecount, hctrl.trans ht.ctrl⟩
  refine ⟨fun h1 => ?_, fun h0 => ?_⟩
  · refine (commitSequential_spec hv he hu h1 (hseq h1)).mono fun r t ht => ?_
    exact ⟨ht.1, hdrop ht.2.1, fun hmix => ht.2.2.sameView (hmix h1)⟩
  · refine (commitScattered_spec hv he hu hf).mono fun r t ht => ?_
    exact ⟨ht.1, hdrop ht.2.1, fun _ => ht.2.2⟩

/-- With every entry sound, the search picks an entry in use if there is one. -/
theorem oldest_cases (h : Inv d s hand) (hidle : Idle d s) :
    ∀ n ≤ 0x11, ∃ o, s.oldest n = some o ∧
      ((o = ⟨0xFFFFFFFF, 0, none⟩ ∧ ∀ e < n, ¬ (s.log e).Used) ∨
        ∃ e < n, o.entry = some e ∧ (s.log e).Used) := by
  intro n
  induction n with
  | zero => intro _; exact ⟨_, rfl, .inl ⟨rfl, fun e he => by omega⟩⟩
  | succ n ih =>
    intro hn
    obtain ⟨o, ho, hcases⟩ := ih (by omega)
    have hkeep : (∃ e < n, o.entry = some e ∧ (s.log e).Used) →
        ∃ e < n + 1, o.entry = some e ∧ (s.log e).Used := by
      rintro ⟨e, he, hr⟩
      exact ⟨e, by omega, hr⟩
    have hstep : s.oldest (n + 1) =
        if ¬ (s.log n).Used then some o
        else if (s.log n).pagesused = 0 ∨ (s.log n).pagescurrent = 0 then none
        else if (s.log n).usn < o.age ∨ (s.log n).usn = o.age ∧ o.used < (s.log n).pagescurrent then
          some ⟨(s.log n).usn, (s.log n).pagescurrent, some n⟩
        else some o := by
      rw [State.oldest, ho]
    rw [hstep]
    by_cases hu : (s.log n).Used
    · have hpos := (hidle n (by omega) hu).1
      have hcur := (h.entry n (by omega) hu).current_pos hpos
      rw [if_neg (not_not.2 hu), if_neg (by omega)]
      split
      · exact ⟨_, rfl, .inr ⟨n, by omega, rfl, hu⟩⟩
      · rename_i hage
        rcases hcases with ⟨rfl, -⟩ | hsome
        · -- the first entry in use always counts as older
          refine absurd ?_ hage
          have hle : (s.log n).usn.toNat < 2 ^ 32 := (s.log n).usn.toNat_lt
          by_cases hlt : (s.log n).usn < 0xFFFFFFFF
          · exact .inl hlt
          · refine .inr ⟨UInt32.toNat_inj.1 ?_, hcur⟩
            rw [UInt32.lt_iff_toNat_lt] at hlt
            have hmax : (0xFFFFFFFF : UInt32).toNat = 0xFFFFFFFF := rfl
            show (s.log n).usn.toNat = (0xFFFFFFFF : UInt32).toNat
            omega
        · exact ⟨o, rfl, .inr (hkeep hsome)⟩
    · rw [if_pos hu]
      refine ⟨o, rfl, ?_⟩
      rcases hcases with ⟨rfl, hnone⟩ | hsome
      · refine .inl ⟨rfl, fun e he => ?_⟩
        by_cases hen : e = n
        · rw [hen]
          exact hu
        · exact hnone e (by omega)
      · exact .inr (hkeep hsome)

theorem removeOldest_spec (h : Inv d s hand) (hidle : Idle d s)
    (hsome : ∃ e < 0x11, (s.log e).Used) (hf : 2 ≤ s.cxt.freecount) :
    Wp (removeScatteredBlock d none) s fun r t => r = 0 ∧ ∃ e < 0x11, s.victim = some e ∧
      (s.log e).Used ∧ Dropped d s hand e t ∧
      (((s.log e).issequential = 1 → s.Unmixed d e) → SameView d s t) := by
  obtain ⟨i, hi, hui⟩ := hsome
  obtain ⟨o, ho, hcases⟩ := oldest_cases h hidle 0x11 le_rfl
  rcases hcases with ⟨-, hnone⟩ | ⟨e, he, hoe, hu⟩
  · exact absurd hui (hnone i hi)
  · have hvictim : s.victim = some e := by
      unfold State.victim
      rw [ho]
      exact hoe
    obtain ⟨hpos, -, hseq⟩ := hidle e he hu
    simp only [removeScatteredBlock, wp_bind, wp_get, ho, hoe]
    refine (commitEntry_spec h he hu hseq hf).mono fun r t ht => ?_
    exact ⟨ht.1, e, he, hvictim, hu, ht.2⟩

/-- What becomes of a full log entry: either it is gone, or its block has room again. -/
structure Relieved (d : Device) (s : State α) (hand : Multiset Nat) (e : Nat) (t : State α) :
    Prop where
  inv : Inv d t hand
  log : ∀ i, i ≠ e → t.log i = s.log i
  room : (t.log e).Used → 0 < (t.log e).pagesused ∧ (t.log e).pagesused < d.ppb ∧
    (t.log e).pagescurrent = (t.log e).pagesused
  freecount : s.cxt.freecount ≤ t.cxt.freecount
  ctrl : SameCtrl d s t
  view : SameView d s t

theorem removeFull_spec (h : Inv d s hand) (he : e < 0x11) (hu : (s.log e).Used)
    (hfull : (s.log e).pagesused = d.ppb)
    (hseq : (s.log e).issequential = 1 → (s.log e).pagescurrent = (s.log e).pagesused)
    (hf : 2 ≤ s.cxt.freecount) :
    Wp (removeScatteredBlock d (some e)) s fun _ t => Relieved d s hand e t := by
  have hppb := d.ppb_cases
  have hcur := (h.entry e he hu).current_pos (by omega)
  simp only [removeScatteredBlock, wp_bind, wp_get, wp_ite, wp_modify]
  refine ⟨fun hhalf => ?_, fun _ => ?_⟩
  · let v := s.modifyCxt fun c => { c with swapcounter := c.swapcounter + 1 }
    have hv : Inv d v hand := h.of_cxt rfl rfl rfl rfl rfl
    refine (compactScattered_spec hv he hu hcur hf).mono fun r t ht => ?_
    obtain ⟨-, ht⟩ := ht
    have hpu : (t.log e).pagesused = (s.log e).pagescurrent := ht.pagesused
    have hpc : (t.log e).pagescurrent = (s.log e).pagescurrent := ht.pagescurrent
    have hctrl : SameCtrl d s v := .of_swapcounter s _
    exact ⟨ht.inv, ht.log, fun _ => by omega, le_of_eq ht.freecount.symm, hctrl.trans ht.ctrl,
      ht.view⟩
  · refine (commitEntry_spec h he hu hseq hf).mono fun r t ht => ?_
    obtain ⟨-, ht, hview⟩ := ht
    refine ⟨ht.inv, ht.log, fun hc => absurd hc ht.unused, ?_, ht.ctrl, hview fun _ => ?_⟩
    · have := ht.freecount
      omega
    · -- a full block needs no page copied
      intro k k' hk hk'
      omega

/-! ## An entry for a block -/

/-- The sequential commit that making room for `block` brings about, if any, copies no group of
pages of which some can be read and some cannot. -/
def EvictOk (d : Device) (s : State α) (block : Nat) : Prop :=
  s.getLogEntry block = none → s.cxt.freecount = 3 →
    ∀ e, s.victim = some e → (s.log e).issequential = 1 → s.Unmixed d e

/-- Log entry `e` is there for `block`, with room for a page. -/
structure Ready (d : Device) (s : State α) (block e : Nat) (t : State α) : Prop where
  lt : e < 0x11
  inv : Inv d t 0
  used : (t.log e).Used
  logical : (t.log e).logicalvblock = block
  room : (t.log e).pagesused < d.ppb
  sequential : (t.log e).issequential = 1 → (t.log e).pagescurrent = (t.log e).pagesused
  idle : ∀ i < 0x11, i ≠ e → (t.log i).Used → 0 < (t.log i).pagesused ∧
    (t.log i).pagesused < d.ppb ∧
    ((t.log i).issequential = 1 → (t.log i).pagescurrent = (t.log i).pagesused)
  ctrl : SameCtrl d s t
  view : EvictOk d s block → SameView d s t

/-- Changes of the log that no sector is told from. -/
theorem SameView.of_log (hnand : t.nand = s.nand)
    (hget : ∀ l < d.type.userblocks, ∀ p < d.ppb, t.abspage d l p = s.abspage d l p) :
    SameView d s t := by
  intro k hk
  rw [State.sector_eq_nand, State.sector_eq_nand, hnand,
    hget _ (Device.sector_block hk) _ (Device.mod_lt_ppb k)]

theorem EntryOk.of_usn {nand : Nat → Option (Page α)} {x : LogEntry} (h : EntryOk d nand x)
    (usn : UInt32) : EntryOk d nand { x with usn := usn } :=
  ⟨h.used_le, h.current, h.current_pos, h.offset_lt, h.offset_inj, h.page, h.erased, h.flag,
    h.sequential⟩

/-- The block has an entry: only its age changes. -/
theorem ready_of_found (h : Inv d s 0) (hidle : Idle d s) (hg : s.getLogEntry block = some e)
    (usn : UInt32) : Ready d s block e (s.setLog e { s.log e with usn := usn }) := by
  obtain ⟨he, hu, hl⟩ := State.getLogEntry_some hg
  obtain ⟨-, hroom, hseq⟩ := hidle e he hu
  have hself : (s.setLog e { s.log e with usn := usn }).log e = { s.log e with usn := usn } :=
    State.setLog_log_self
  have hinv : Inv d (s.setLog e { s.log e with usn := usn }) 0 := h.rewrite he hu rfl
    (h.logical e he hu) (fun i hi hie hui hl' => hie (h.unique i hi e he hui hu hl'))
    (fun _ _ => rfl) ((h.entry e he hu).of_usn usn)
  refine ⟨he, hinv, by rw [hself]; exact hu, by rw [hself]; exact hl, by rw [hself]; exact hroom,
    by rw [hself]; exact hseq, fun i hi hie hui => ?_,
    ⟨rfl, rfl, rfl, rfl, rfl, rfl, rfl, rfl, fun _ _ => rfl⟩, fun _ => ?_⟩
  · rw [State.setLog_log_ne hie] at hui ⊢
    exact hidle i hi hui
  · refine SameView.of_log rfl fun l _ p _ => ?_
    have hget : (s.setLog e { s.log e with usn := usn }).getLogEntry l = s.getLogEntry l := by
      refine State.getLogEntry_congr fun i => ?_
      by_cases hi : i = e
      · rw [hi, hself]
        exact ⟨Iff.rfl, fun _ => Iff.rfl⟩
      · rw [State.setLog_log_ne hi]
        exact ⟨Iff.rfl, fun _ => Iff.rfl⟩
    unfold State.abspage
    rw [hget]
    cases s.getLogEntry l with
    | none => rfl
    | some i =>
      by_cases hi : i = e
      · rw [hi]
        simp only [hself]
        rfl
      · simp only [State.setLog_log_ne hi]
        rfl

/-- A new entry in a free slot, with a block off the pool. -/
theorem Allocated.open {v w : State α} {b : Nat} (hv : Inv d v 0) (hw : Allocated d v b w)
    (hidle : Idle d v) (he : e < 0x11) (hun : ¬ (v.log e).Used)
    (hnone : v.getLogEntry block = none) (hl : block < d.type.userblocks) (usn : UInt32) :
    let x : LogEntry := ⟨usn, b, block, fun _ => 0xFFFF, 0, 0, 1⟩
    Ready d v block e (w.setLog e x) ∧ SameView d v (w.setLog e x) := by
  intro x
  have hinv := hw.inv hv
  have hb := hinv.owned.hand_lt (Multiset.mem_cons_self b 0)
  have hvb := d.vblocks_lt
  have hppb := d.ppb_cases
  have hxu : x.Used := by
    show b ≠ 0xFFFF
    omega
  have hself : (w.setLog e x).log e = x := State.setLog_log_self
  have hother : ∀ i, i ≠ e → (w.setLog e x).log i = v.log i := by
    intro i hi
    rw [State.setLog_log_ne hi, hw.log]
  have huniq : ∀ i < 0x11, (v.log i).Used → (v.log i).logicalvblock ≠ block :=
    State.getLogEntry_eq_none.1 hnone
  have hentry : EntryOk d w.nand x := by
    refine ⟨Nat.zero_le _, ?_, fun hc => absurd hc (lt_irrefl 0), fun p _ ho => absurd rfl ho,
      fun p _ q _ ho => absurd rfl ho, fun p _ ho => absurd rfl ho,
      fun k hk _ => hw.erased (Device.block_page hk), .inr rfl, fun _ p _ => ?_⟩
    · show 0 = _
      unfold LogEntry.mapped
      simp [x]
    · rfl
  have hins := Inv.insert (x := x) hinv he (by rw [hw.log]; exact hun) hxu hl
    (fun i hi _ hui => by rw [hw.log] at hui ⊢; exact huniq i hi hui) hentry
  have hview : SameView d v (w.setLog e x) := by
    refine (hw.sameView hv).trans (SameView.of_log rfl fun l _ p _ => ?_)
    by_cases hlb : l = block
    · have hgw : w.getLogEntry l = none := by
        rw [State.getLogEntry_of_log hw.log, hlb, hnone]
      have hgt := hins.getLogEntry_eq_some he (by rw [hself]; exact hxu) (l := l)
        (by rw [hself]; exact hlb.symm)
      rw [State.abspage_of_none hgw, State.abspage_of_some hgt, hself]
      exact if_neg fun hc => hc rfl
    · have hget : (w.setLog e x).getLogEntry l = w.getLogEntry l := by
        unfold State.getLogEntry
        congr 1
        funext i
        by_cases hi : i = e
        · rw [hi, hself, hw.log, decide_eq_decide]
          exact ⟨fun hc => absurd hc.2.symm hlb, fun hc => absurd hc.1 hun⟩
        · rw [State.setLog_log_ne hi]
      unfold State.abspage
      rw [hget]
      cases hg : w.getLogEntry l with
      | none => rfl
      | some i =>
        have hi : i ≠ e := by
          rintro rfl
          have := (State.getLogEntry_some hg).2.1
          rw [hw.log] at this
          exact hun this
        simp only [State.setLog_log_ne hi]
        rfl
  refine ⟨⟨he, hins, by rw [hself]; exact hxu, by rw [hself], ?_, fun _ => by rw [hself],
    fun i hi hie hui => ?_, ?_, fun _ => hview⟩, hview⟩
  · rw [hself]
    exact d.ppb_pos
  · rw [hother i hie] at hui ⊢
    exact hidle i hi hui
  · exact (hw.sameCtrl hv).trans ⟨rfl, rfl, rfl, rfl, rfl, rfl, rfl, rfl, fun _ _ => rfl⟩

/-- Taking the entry into use once there is a free slot and a pool to choose from. -/
theorem openSlot_spec {v : State α} (hv : Inv d v 0) (hidle : Idle d v)
    (hcard : v.logBlocks.card < 0x11) (hf : 2 ≤ v.cxt.freecount)
    (hnone : v.getLogEntry block = none) (hl : block < d.type.userblocks) :
    Wp (openSlot d block) v fun r t => ∃ e, r = some e ∧ Ready d v block e t ∧ SameView d v t := by
  obtain ⟨e, hfind⟩ : ∃ e, ((List.range 0x11).find? fun i => ¬ (v.log i).Used) = some e := by
    cases hc : (List.range 0x11).find? fun i => ¬ (v.log i).Used with
    | some e => exact ⟨e, rfl⟩
    | none =>
      have hall := State.card_logBlocks_of_all (s := v) fun e he => by
        have := List.find?_eq_none.1 hc e (List.mem_range.2 he)
        simpa using this
      omega
  have he : e < 0x11 := List.mem_range.1 (List.mem_of_find?_eq_some hfind)
  have hun : ¬ (v.log e).Used := by
    have := List.find?_some hfind
    simpa using this
  simp only [openSlot, wp_bind, wp_get, hfind]
  refine (allocatePoolBlock_spec hv.owned hv.start hf).mono fun r w hw => ?_
  obtain ⟨b, rfl, hw⟩ := hw
  simp only [wp_modify, openLogEntry, wp_bind, wp_pure]
  have hready := hw.open hv hidle he hun hnone hl (w.cxt.nextblockusn - 1)
  have heq : ∀ f g h : LogEntry → LogEntry,
      ((w.modifyLog e f).modifyLog e g).modifyLog e h = w.setLog e (h (g (f (w.log e)))) := by
    intro f g h
    simp only [State.modifyLog_eq, State.setLog_log_self, State.setLog_setLog]
  refine ⟨e, rfl, ?_⟩
  rw [heq]
  exact hready

theorem allocateLogEntry_spec (h : Inv d s 0) (hidle : Idle d s)
    (hl : block < d.type.userblocks) :
    Wp (allocateLogEntry d block) s fun r t => ∃ e, r = some e ∧ Ready d s block e t := by
  have hcount := h.count
  rw [Multiset.card_zero] at hcount
  have hle := s.card_logBlocks_le
  simp only [allocateLogEntry, wp_bind, wp_get]
  cases hg : s.getLogEntry block with
  | some e =>
    simp only [wp_bind, wp_modify, wp_pure]
    exact ⟨e, rfl, ready_of_found h hidle hg _⟩
  | none =>
    have hnoempty : ((List.range 0x11).find? fun i => (s.log i).Used ∧ (s.log i).pagesused = 0) =
        none := by
      refine List.find?_eq_none.2 fun i hi => ?_
      simp only [decide_eq_true_eq]
      rintro ⟨hu, h0⟩
      have := (hidle i (List.mem_range.1 hi) hu).1
      omega
    simp only [hnoempty, wp_bind, wp_faultIf, wp_ite]
    refine ⟨by omega, fun h3 => ?_, fun h3 => ?_⟩
    · -- all slots are taken: the oldest entry goes
      have hsome : ∃ e < 0x11, (s.log e).Used := by
        by_contra hcon
        have := State.card_logBlocks_of_none (s := s) fun e he hu => hcon ⟨e, he, hu⟩
        omega
      refine (removeOldest_spec h hidle hsome (by omega)).mono fun r v hv => ?_
      obtain ⟨rfl, e, he, hvictim, hu, hdrop, hview⟩ := hv
      refine ⟨fun hc => absurd rfl hc, fun _ => ?_⟩
      have hcount' := hdrop.inv.count
      rw [Multiset.card_zero] at hcount'
      have hfree := hdrop.freecount
      have hidle' : Idle d v := by
        intro i hi hui
        have hie : i ≠ e := by
          rintro rfl
          exact hdrop.unused hui
        rw [hdrop.log i hie] at hui ⊢
        exact hidle i hi hui
      have hnone : v.getLogEntry block = none := by
        refine State.getLogEntry_eq_none.2 fun i hi hui => ?_
        have hie : i ≠ e := by
          rintro rfl
          exact hdrop.unused hui
        rw [hdrop.log i hie] at hui ⊢
        exact State.getLogEntry_eq_none.1 hg i hi hui
      refine (openSlot_spec hdrop.inv hidle' (by omega) (by omega) hnone hl).mono fun r t ht => ?_
      obtain ⟨e', rfl, hready, hview'⟩ := ht
      exact ⟨e', rfl, hready.lt, hready.inv, hready.used, hready.logical, hready.room,
        hready.sequential, hready.idle, hdrop.ctrl.trans hready.ctrl,
        fun hok => (hview (hok hg h3 e hvictim)).trans hview'⟩
    · simp only [wp_pure]
      refine ⟨fun hc => absurd rfl hc, fun _ => ?_⟩
      refine (openSlot_spec h hidle (by omega) (by omega) hg hl).mono fun r t ht => ?_
      obtain ⟨e', rfl, hready, -⟩ := ht
      exact ⟨e', rfl, hready⟩

end Ftl
end Freemyipod
