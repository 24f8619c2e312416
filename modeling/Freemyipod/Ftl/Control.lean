import Freemyipod.Ftl.Evict

/-!
# Ftl.Control

The control pages: `ftl_save_erasectr_page` and `ftl_next_ctrl_pool_page`.

* `Moving`: the loop invariant while erase counter pages move out of the oldest control block.
* `Started`: a new control block was started.
* `CtrlNext`: what `ftl_next_ctrl_pool_page` leaves, whether it started one or not.
-/

namespace Freemyipod
namespace Ftl

open Effect

variable {α : Type} {d : Device} {s t u : State α} {hand : Multiset Nat} {b : Nat}

namespace Device

theorem ctrPagestoread_le : d.ctrPagestoread ≤ 8 := by
  have h := d.userblocks_cases
  unfold ctrPagestoread vblocks
  rcases h with h | h | h | h <;> rw [h] <;> decide

theorem ctrpages_eq : d.ctrpages = d.ctrPagestoread := by
  have h := d.userblocks_cases
  unfold ctrpages ctrPagestoread vblocks
  rcases h with h | h | h | h <;> rw [h] <;> decide

theorem mappages_eq : d.mappages = d.mapPagestoread := by
  have h := d.userblocks_cases
  unfold mappages mapPagestoread
  rcases h with h | h | h | h <;> rw [h] <;> decide

theorem mappages_le : d.mappages ≤ 8 := by
  have h := d.userblocks_cases
  unfold mappages
  rcases h with h | h | h | h <;> rw [h] <;> decide

theorem mappages_ge : d.type.userblocks ≤ d.mappages * 1024 := by
  unfold mappages
  omega

theorem ctrpages_ge : d.vblocks ≤ d.ctrpages * 1024 := by
  unfold ctrpages
  omega

/-- The page after one that is not the last of its block. -/
theorem succ_block {p : Nat} (h : (p + 1) % d.ppb ≠ 0) : (p + 1) / d.ppb = p / d.ppb := by
  rw [Nat.succ_div, if_neg fun hdvd => h (Nat.mod_eq_zero_of_dvd hdvd), Nat.add_zero]

end Device

theorem Spare.idx_meta (usn : UInt32) {i : Nat} (hi : i < 0x10000) (type : Nat) :
    (Spare.meta usn i type).idx = i := by
  show (UInt32.ofNat (0xFFFF0000 + i)).toNat % 2 ^ 16 = i
  rw [UInt32.toNat_ofNat_of_lt' (by show _ < 2 ^ 32; omega)]
  omega

theorem programmed_one {nand : Nat → Option (Page α)} {vpage : Nat} {buffer : Nat → Payload α}
    {spare : Nat → Spare} :
    programmed nand vpage 1 buffer spare = upd nand vpage (some ⟨buffer 0, spare 0⟩) := by
  have h0 : programmed nand vpage 0 buffer spare = nand := by
    funext p
    exact programmed_off (by omega)
  rw [programmed_succ, h0]
  rfl

/-! ## Saving a page of erase counters -/

/-- The state after page `index` of the erase counters is programmed to the control page. -/
def State.saved (s : State α) (index : Nat) : State α :=
  { s with
    cxt := { s.cxt with
      ftlErasectrPages := upd s.cxt.ftlErasectrPages index s.cxt.ftlctrlpage }
    erasectrDirt := upd s.erasectrDirt index 0
    nand := upd s.nand s.cxt.ftlctrlpage
      (some ⟨.erasectr (s.erasectrPage index), .meta s.cxt.usn index 0x46⟩) }

theorem saveErasectrPage_spec {index : Nat} (hi : index < 0x10000)
    (hr : s.cxt.ftlctrlpage < d.vblocks * d.ppb) (he : s.nand s.cxt.ftlctrlpage = none) :
    Wp (saveErasectrPage d index) s fun r t => r = 0 ∧ t = s.saved index := by
  simp only [saveErasectrPage, wp_bind, wp_get]
  refine (vflWrite_spec (by omega) fun i hi => ?_).mono fun r t ht => ?_
  · rw [show i = 0 by omega]
    exact he
  obtain ⟨rfl, rfl⟩ := ht
  have hread : vflRead d (upd s.nand s.cxt.ftlctrlpage
      (some ⟨.erasectr (s.erasectrPage index), .meta s.cxt.usn index 0x46⟩)) s.cxt.ftlctrlpage 1 =
      (0, .erasectr (s.erasectrPage index), .meta s.cxt.usn index 0x46) :=
    vflRead_some hr (upd_self _ _ _)
  have hsame : (Payload.erasectr (α := α) (s.erasectrPage index)).isErasectr
      (s.erasectrPage index) = true := by simp [Payload.isErasectr]
  rw [programmed_one]
  simp only [hread, hsame, Spare.idx_meta _ hi, wp_ite, wp_bind, wp_set, wp_pure]
  refine ⟨fun hc => ?_, fun _ => ⟨trivial, rfl⟩⟩
  simp [Spare.meta, Spare.metaUsn] at hc

/-! ## Starting a control block -/

/-- The erase counter pages below `n` that lie in block `old`. -/
def Cxt.inBlock (d : Device) (c : Cxt) (old n : Nat) : Finset Nat :=
  (Finset.range n).filter fun i => c.ftlErasectrPages i / d.ppb = old

namespace Cxt

variable {c : Cxt} {old n : Nat}

theorem inBlock_card_le : (c.inBlock d old n).card ≤ n :=
  (Finset.card_filter_le _ _).trans (Finset.card_range n).le

theorem inBlock_succ_of_eq (h : c.ftlErasectrPages n / d.ppb = old) :
    (c.inBlock d old (n + 1)).card = (c.inBlock d old n).card + 1 := by
  unfold inBlock
  rw [Finset.range_add_one, Finset.filter_insert, if_pos h, Finset.card_insert_of_notMem (by simp)]

theorem inBlock_succ_of_ne (h : c.ftlErasectrPages n / d.ppb ≠ old) :
    c.inBlock d old (n + 1) = c.inBlock d old n := by
  unfold inBlock
  rw [Finset.range_add_one, Finset.filter_insert, if_neg h]

end Cxt

/-- Of the erase counter pages below `j`, those in `old` were saved to the new block `b`. -/
structure Moving (d : Device) (s : State α) (old b j : Nat) (t : State α) : Prop where
  eq : t = { s with
    cxt := { s.cxt with
      usn := s.cxt.usn - UInt32.ofNat (s.cxt.inBlock d old j).card
      ftlctrlpage := b * d.ppb + (s.cxt.inBlock d old j).card
      ftlErasectrPages := t.cxt.ftlErasectrPages }
    erasectrDirt := t.erasectrDirt
    nand := t.nand }
  ahead : ∀ i, j ≤ i → t.cxt.ftlErasectrPages i = s.cxt.ftlErasectrPages i
  other : ∀ p, p / d.ppb ≠ b → t.nand p = s.nand p
  first : 0 < (s.cxt.inBlock d old j).card → ∃ pg, t.nand (b * d.ppb) = some pg ∧
    pg.spare.metaUsn = s.cxt.usn - 1 ∧ pg.spare.type = 0x46
  erased : ∀ k, (s.cxt.inBlock d old j).card ≤ k → k < d.ppb → t.nand (b * d.ppb + k) = none

theorem moveErasectrPage_spec {old j : Nat} (hb : b < d.vblocks) (h : Moving d s old b j t)
    (hj : j < d.ctrPagestoread) :
    Wp (moveErasectrPage d old b j) t fun r u => r = none ∧ Moving d s old b (j + 1) u := by
  have hpages := Device.ctrPagestoread_le (d := d)
  have hppb := d.ppb_cases
  have hcard : (s.cxt.inBlock d old j).card ≤ j := Cxt.inBlock_card_le
  have hahead := h.ahead j le_rfl
  have hin : old * d.ppb ≤ t.cxt.ftlErasectrPages j ∧
      t.cxt.ftlErasectrPages j < (old + 1) * d.ppb ↔ s.cxt.ftlErasectrPages j / d.ppb = old := by
    rw [hahead, Nat.div_eq_iff d.ppb_pos, Nat.add_mul]
    omega
  simp only [moveErasectrPage, wp_bind, wp_get, wp_ite, wp_set, wp_pure, hin]
  refine ⟨fun hold => ?_, fun hold => ⟨trivial, ?_⟩⟩
  · have hpage : t.cxt.ftlctrlpage = b * d.ppb + (s.cxt.inBlock d old j).card := by rw [h.eq]
    have husn : t.cxt.usn = s.cxt.usn - UInt32.ofNat (s.cxt.inBlock d old j).card := by rw [h.eq]
    let v := t.modifyCxt fun c => { c with usn := c.usn - 1 }
    have hv : v.cxt.ftlctrlpage = b * d.ppb + (s.cxt.inBlock d old j).card := hpage
    refine (saveErasectrPage_spec (s := v) (by omega) ?_ ?_).mono fun r u hu => ?_
    · rw [hv]
      exact Device.page_lt hb (by omega)
    · rw [hv]
      exact h.erased _ le_rfl (by omega)
    obtain ⟨rfl, rfl⟩ := hu
    simp only [wp_modify]
    refine ⟨fun hc => absurd rfl hc, fun _ => ⟨trivial, ?_⟩⟩
    have hsucc := Cxt.inBlock_succ_of_eq hold
    refine ⟨?_, fun i hi => ?_, fun p hp => ?_, fun _ => ?_, fun k hk hk' => ?_⟩
    · have husn' : t.cxt.usn - 1 =
          s.cxt.usn - UInt32.ofNat ((s.cxt.inBlock d old j).card + 1) := by
        rw [husn, UInt32.ofNat_add, sub_sub]
        rfl
      rw [hsucc, ← husn']
      simp only [State.modifyCxt, State.saved, v, hpage]
      rw [h.eq]
      rfl
    · show upd t.cxt.ftlErasectrPages j _ i = _
      rw [upd_ne _ _ (by omega)]
      exact h.ahead i (by omega)
    · show upd t.nand v.cxt.ftlctrlpage _ p = _
      rw [upd_ne]
      · exact h.other p hp
      · rw [hv]
        rintro rfl
        exact hp (Device.block_page (by omega))
    · show ∃ pg, upd t.nand v.cxt.ftlctrlpage _ (b * d.ppb) = some pg ∧ _
      by_cases h0 : (s.cxt.inBlock d old j).card = 0
      · refine ⟨_, by rw [hv, h0, Nat.add_zero, upd_self], ?_, rfl⟩
        show t.cxt.usn - 1 = _
        rw [husn, h0]
        simp
      · rw [upd_ne _ _ (by omega)]
        exact h.first (by omega)
    · show upd t.nand v.cxt.ftlctrlpage _ _ = none
      rw [upd_ne _ _ (by omega)]
      exact h.erased k (by omega) hk'
  · have hsame := Cxt.inBlock_succ_of_ne hold
    exact ⟨by rw [hsame]; exact h.eq, fun i hi => h.ahead i (by omega), h.other,
      by rw [hsame]; exact h.first, by rw [hsame]; exact h.erased⟩

/-- Which control block the control page lies in. -/
def Active (d : Device) (c : Cxt) (i : Nat) : Prop := i < 3 ∧ c.ftlctrlpage / d.ppb = c.ftlctrlblocks i

/-- Control block `i` was replaced by the new block `b`, the erase counter pages in it moved. -/
structure Started (d : Device) (s : State α) (i b : Nat) (t : State α) : Prop where
  lt : i < 3
  pool : b ∈ s.cxt.poolBlocks
  ftlctrlblocks : t.cxt.ftlctrlblocks = upd s.cxt.ftlctrlblocks i b
  ftlctrlpage : t.cxt.ftlctrlpage =
    b * d.ppb + (s.cxt.inBlock d (s.cxt.ftlctrlblocks i) d.ctrPagestoread).card
  usn : t.cxt.usn =
    s.cxt.usn - UInt32.ofNat (s.cxt.inBlock d (s.cxt.ftlctrlblocks i) d.ctrPagestoread).card
  other : ∀ p, p / d.ppb ≠ b → t.nand p = s.nand p
  first : 0 < (s.cxt.inBlock d (s.cxt.ftlctrlblocks i) d.ctrPagestoread).card →
    ∃ pg, t.nand (b * d.ppb) = some pg ∧ pg.spare.metaUsn = s.cxt.usn - 1 ∧ pg.spare.type = 0x46
  erased : ∀ k, (s.cxt.inBlock d (s.cxt.ftlctrlblocks i) d.ctrPagestoread).card ≤ k → k < d.ppb →
    t.nand (b * d.ppb + k) = none
  vflUsn : t.vflUsn = s.vflUsn + 1
  vflStored : ∃ k < d.banks, t.vflStored =
    upd s.vflStored k ⟨s.vflUsn + 1, t.cxt.ftlctrlblocks⟩

/-- What `ftl_next_ctrl_pool_page` leaves: the control page is one that is erased. -/
structure CtrlNext (d : Device) (s : State α) (hand : Multiset Nat) (t : State α) : Prop where
  inv : Inv d t hand
  free : t.nand t.cxt.ftlctrlpage = none
  map : t.map = s.map
  log : t.log = s.log
  freecount : t.cxt.freecount = s.cxt.freecount
  cleanFlag : t.cxt.cleanFlag = s.cxt.cleanFlag
  view : SameView d s t
  cases : (s.cxt.ftlctrlpage + 1) % d.ppb ≠ 0 ∧
      t = s.modifyCxt (fun c => { c with ftlctrlpage := c.ftlctrlpage + 1 }) ∨
    (s.cxt.ftlctrlpage + 1) % d.ppb = 0 ∧
      ∃ i b, Active d s.cxt i ∧ Started d s ((i + 1) % 3) b t

/-- The page before a block boundary is the last of its block. -/
theorem ctrlIdx_eq (h : Inv d s hand) {i : Nat} (hi : Active d s.cxt i)
    (hmod : (s.cxt.ftlctrlpage + 1) % d.ppb = 0) :
    Cxt.ctrlIdx { s.cxt with ftlctrlpage := s.cxt.ftlctrlpage + 1 } d.ppb = i := by
  obtain ⟨hi3, hact⟩ := hi
  have hp := Device.eq_block_page (d := d) s.cxt.ftlctrlpage
  have hlt := Device.mod_lt_ppb (d := d) s.cxt.ftlctrlpage
  obtain ⟨q, hq⟩ := Nat.dvd_of_mod_eq_zero hmod
  have hqi : q = s.cxt.ftlctrlblocks i + 1 := by
    rw [← hact]
    have h1 : s.cxt.ftlctrlpage / d.ppb < q := by
      rw [Nat.div_lt_iff_lt_mul d.ppb_pos, Nat.mul_comm]
      omega
    have h2 : q - 1 ≤ s.cxt.ftlctrlpage / d.ppb := by
      rw [Nat.le_div_iff_mul_le d.ppb_pos, Nat.sub_mul, Nat.one_mul, Nat.mul_comm]
      have := d.ppb_pos
      omega
    omega
  have hiff : ∀ j, j < 3 →
      ((s.cxt.ftlctrlblocks j + 1) * d.ppb = s.cxt.ftlctrlpage + 1 ↔ j = i) := by
    intro j hj
    rw [hq, hqi, Nat.mul_comm d.ppb]
    constructor
    · intro he
      have := Nat.eq_of_mul_eq_mul_right d.ppb_pos he
      exact h.owned.ctrl_inj hj hi3 (by omega)
    · rintro rfl
      rfl
  unfold Cxt.ctrlIdx
  simp only [hiff 0 (by omega), hiff 1 (by omega), hiff 2 (by omega)]
  split
  · omega
  · split
    · omega
    · split <;> omega

/-- The blocks after control block `i` is exchanged for the block `b` in hand. -/
theorem Owned.exchange (h : Owned d s (b ::ₘ hand)) {i : Nat} (hi : i < 3)
    (hmap : t.map = s.map) (hlog : t.log = s.log) (hpool : t.cxt.poolBlocks = s.cxt.poolBlocks)
    (hctrl : t.cxt.ftlctrlblocks = upd s.cxt.ftlctrlblocks i b) :
    Owned d t (s.cxt.ftlctrlblocks i ::ₘ hand) := by
  have hx := map_range_upd s.cxt.ftlctrlblocks b hi
  unfold Owned at h ⊢
  rw [← h]
  have hm : t.mapBlocks d = s.mapBlocks d := by unfold State.mapBlocks; rw [hmap]
  have hl : t.logBlocks = s.logBlocks := by unfold State.logBlocks; rw [hlog]
  have hc : t.cxt.ctrlBlocks = (Multiset.range 3).map (upd s.cxt.ftlctrlblocks i b) := by
    unfold Cxt.ctrlBlocks
    rw [hctrl]
  rw [hm, hl, hpool, hc]
  have hadd := congrArg (s.mapBlocks d + s.logBlocks + s.cxt.poolBlocks + hand + ·) hx
  simp only [← Multiset.singleton_add] at hadd ⊢
  calc _ = s.mapBlocks d + s.logBlocks + s.cxt.poolBlocks + hand +
        ({s.cxt.ftlctrlblocks i} + (Multiset.range 3).map (upd s.cxt.ftlctrlblocks i b)) := by abel
    _ = _ := hadd
    _ = _ := by
      show _ = s.mapBlocks d + s.logBlocks + s.cxt.poolBlocks +
        (Multiset.range 3).map s.cxt.ftlctrlblocks + _
      abel

theorem storeCtrlBlockList_spec (s : State α) :
    Wp (storeCtrlBlockList d) s fun r t => r = 0 ∧ ∃ k < d.banks, ∃ vflCxt, t = { s with
      vflUsn := s.vflUsn + 1
      vflCxt := vflCxt
      vflStored := upd s.vflStored k ⟨s.vflUsn + 1, s.cxt.ftlctrlblocks⟩ } := by
  have hpos : 0 < d.banks := by
    have := d.banks_cases
    omega
  have hk : s.vflUsn.toNat % d.banks < d.banks := Nat.mod_lt _ hpos
  simp only [storeCtrlBlockList, vflCommitCxt, wp_bind, wp_modify, wp_get, wp_pure]
  rw [if_pos hk]
  exact ⟨trivial, s.vflUsn.toNat % d.banks, hk, _, rfl⟩

theorem startCtrlBlock_spec (hs : Inv d s hand) (hf : 2 ≤ s.cxt.freecount) {i : Nat}
    (hi : Active d s.cxt i) (hmod : (s.cxt.ftlctrlpage + 1) % d.ppb = 0) :
    Wp (startCtrlBlock d) (s.modifyCxt fun c => { c with ftlctrlpage := c.ftlctrlpage + 1 })
      fun r t => r = 0 ∧ CtrlNext d s hand t := by
  have hi3 : (i + 1) % 3 < 3 := Nat.mod_lt _ (by omega)
  have hpages := Device.ctrPagestoread_le (d := d)
  have hppb := d.ppb_cases
  let j := (i + 1) % 3
  let old := s.cxt.ftlctrlblocks j
  let s₁ := s.modifyCxt fun c => { c with ftlctrlpage := c.ftlctrlpage + 1 }
  have hidx : (Cxt.ctrlIdx s₁.cxt d.ppb + 1) % 3 = j := by
    rw [show Cxt.ctrlIdx s₁.cxt d.ppb = i from ctrlIdx_eq hs hi hmod]
  have hcount := hs.count
  simp only [startCtrlBlock, wp_bind, wp_get]
  refine (allocatePoolBlock_spec (s := s₁) hs.owned hs.start hf).mono fun r v hv => ?_
  obtain ⟨b, rfl, hv⟩ := hv
  have hvowned := hv.owned hs.owned hs.start
  have hb := hvowned.hand_lt (Multiset.mem_cons_self b hand)
  have hbpool : b ∈ s.cxt.poolBlocks := hv.mem_pool
  have hvfree : v.cxt.freecount + 1 = s.cxt.freecount := hv.freecount
  have hvctrl : v.cxt.ftlctrlblocks = s.cxt.ftlctrlblocks := hv.ftlctrlblocks
  obtain ⟨n, -, -, hveq⟩ := hv.live
  have hvpages : v.cxt.ftlErasectrPages = s.cxt.ftlErasectrPages := by rw [hveq]; rfl
  have hvusn : v.cxt.usn = s.cxt.usn := by rw [hveq]; rfl
  have hvclean : v.cxt.cleanFlag = s.cxt.cleanFlag := by rw [hveq]; rfl
  have hvvfl : v.vflUsn = s.vflUsn ∧ v.vflStored = s.vflStored := by rw [hveq]; exact ⟨rfl, rfl⟩
  simp only [wp_bind, wp_modify]
  rw [show (Cxt.ctrlIdx (s.modifyCxt fun c => { c with ftlctrlpage := c.ftlctrlpage + 1 }).cxt
    d.ppb + 1) % 3 = j from hidx]
  let v₂ := v.modifyCxt fun c =>
    { c with ftlctrlblocks := upd c.ftlctrlblocks j b, ftlctrlpage := b * d.ppb }
  have hin : v₂.cxt.inBlock d old d.ctrPagestoread = s.cxt.inBlock d old d.ctrPagestoread := by
    show (Finset.range _).filter (fun i => v.cxt.ftlErasectrPages i / d.ppb = old) = _
    rw [hvpages]
    rfl
  have h0 : Moving d v₂ old b 0 v₂ := by
    refine ⟨?_, fun _ _ => rfl, fun _ _ => rfl, fun hc => absurd hc (lt_irrefl 0), fun k _ hk =>
      hv.erased (Device.block_page hk)⟩
    show v₂ = { v₂ with cxt := { v₂.cxt with usn := v₂.cxt.usn - 0, ftlctrlpage := b * d.ppb + 0 } }
    rw [sub_zero]
    rfl
  refine (wp_loopUntil (fun j t => Moving d v₂ old b j t) h0 fun k t _ hk ht =>
    moveErasectrPage_spec hb ht (by omega)).mono fun r w hw => ?_
  obtain ⟨rfl, hw⟩ := hw
  rw [Nat.zero_add] at hw
  simp only [wp_bind]
  have hold : old < d.vblocks := hs.owned.ctrl_lt hi3
  have hwfree : w.cxt.freecount = v.cxt.freecount := by rw [hw.eq]; rfl
  refine (releasePoolBlock_spec hold (by omega)).mono fun _ x hx => ?_
  refine (storeCtrlBlockList_spec x).mono fun r t ht => ?_
  obtain ⟨rfl, k, hk, vfl, ht⟩ := ht
  subst hx
  refine ⟨rfl, ?_⟩
  -- the state at the end, field by field
  have hmap : t.map = s.map := by rw [ht, hw.eq]; exact hv.map
  have hlog : t.log = s.log := by rw [ht, hw.eq]; exact hv.log
  have hctrl : t.cxt.ftlctrlblocks = upd s.cxt.ftlctrlblocks j b := by
    rw [ht, hw.eq, ← hvctrl]
    rfl
  have hpage : t.cxt.ftlctrlpage =
      b * d.ppb + (s.cxt.inBlock d old d.ctrPagestoread).card := by
    rw [ht, hw.eq, hin]
    rfl
  have htnand : t.nand = w.nand := by rw [ht]; rfl
  have hother : ∀ p, p / d.ppb ≠ b → t.nand p = s.nand p := by
    intro p hp
    rw [htnand, hw.other p hp]
    exact hv.nand_ne hp
  have herased : ∀ k, (s.cxt.inBlock d old d.ctrPagestoread).card ≤ k → k < d.ppb →
      t.nand (b * d.ppb + k) = none := by
    intro k hk hk'
    rw [htnand]
    exact hw.erased k (by rw [hin]; exact hk) hk'
  have hcard : (s.cxt.inBlock d old d.ctrPagestoread).card ≤ d.ctrPagestoread :=
    Cxt.inBlock_card_le
  have hwowned : Owned d w (old ::ₘ hand) := by
    have hx := hvowned.exchange (t := w) hi3 (by rw [hw.eq]; rfl) (by rw [hw.eq]; rfl)
      (by rw [hw.eq]; rfl) (by rw [hw.eq]; rfl)
    rw [hvctrl] at hx
    exact hx
  have howned : Owned d t hand := by
    have hr := hwowned.released
    rw [ht]
    exact hr
  have hblock : t.cxt.ftlctrlpage / d.ppb = b := by
    rw [hpage]
    exact Device.block_page (by omega)
  have hbusy : ∀ p, p / d.ppb ∈ s.mapBlocks d ∨ p / d.ppb ∈ s.logBlocks →
      t.nand p = s.nand p := by
    intro p hp
    refine hother p ?_
    rintro rfl
    exact (hs.owned.disjoint.2.1 hp).1 hbpool
  have hCtrl : CtrlOk d t := by
    refine ⟨⟨j, hi3, by rw [hblock, hctrl, upd_self]⟩, fun p hp hpb => ?_⟩
    rw [hblock] at hpb
    have hpe := Device.eq_block_page (d := d) p
    rw [hpb] at hpe
    rw [hpe]
    exact herased _ (by omega) (Device.mod_lt_ppb p)
  refine ⟨hs.of_log hlog (fun p hp => hbusy p (.inr hp)) howned ?_ hCtrl, ?_, hmap, hlog, ?_, ?_,
    .of_frame hs hmap hlog hbusy, .inr ⟨hmod, i, b, hi, ⟨hi3, hbpool, hctrl, hpage, ?_, hother, ?_,
      herased, ?_, k, hk, ?_⟩⟩⟩
  · rw [ht, hw.eq]
    exact hv.start hs.start
  · rw [hpage]
    exact herased _ le_rfl (by omega)
  · rw [ht]
    show w.cxt.freecount + 1 = _
    omega
  · rw [ht, hw.eq]
    exact hvclean
  · rw [ht, hw.eq, hin]
    show v.cxt.usn - _ = _
    rw [hvusn]
  · intro hpos
    have hfirst := hw.first (by rw [hin]; exact hpos)
    rw [htnand]
    obtain ⟨pg, hpg, husn, hty⟩ := hfirst
    refine ⟨pg, hpg, husn.trans ?_, hty⟩
    show v.cxt.usn - 1 = _
    rw [hvusn]
  · rw [ht, hw.eq]
    exact congrArg (· + 1) hvvfl.1
  · rw [hctrl, ← hvctrl, ← hvvfl.1, ← hvvfl.2, ht, hw.eq]
    rfl

theorem nextCtrlPoolPage_spec (hs : Inv d s hand) (hf : 2 ≤ s.cxt.freecount) :
    Wp (nextCtrlPoolPage d) s fun r t => r = 0 ∧ CtrlNext d s hand t := by
  obtain ⟨i, hi⟩ := hs.ctrl.inside
  simp only [nextCtrlPoolPage, wp_bind, wp_modify, wp_get, wp_ite, wp_pure]
  refine ⟨fun hmod => ⟨trivial, ?_⟩, fun hmod => ?_⟩
  · have hmod : (s.cxt.ftlctrlpage + 1) % d.ppb ≠ 0 := hmod
    have hblock := Device.succ_block hmod
    refine ⟨hs.of_log rfl (fun _ _ => rfl) hs.owned hs.start ⟨⟨i, hi.1, ?_⟩, fun p hp hpb => ?_⟩,
      hs.ctrl.erased _ (Nat.lt_succ_self _) hblock, rfl, rfl, rfl, rfl, SameView.refl s,
      .inl ⟨hmod, rfl⟩⟩
    · show (s.cxt.ftlctrlpage + 1) / d.ppb = _
      rw [hblock]
      exact hi.2
    · have hp : s.cxt.ftlctrlpage + 1 < p := hp
      have hpb : p / d.ppb = (s.cxt.ftlctrlpage + 1) / d.ppb := hpb
      exact hs.ctrl.erased p (by omega) (by rw [hpb, hblock])
  · exact startCtrlBlock_spec hs hf hi (not_not.1 hmod)

end Ftl
end Freemyipod
