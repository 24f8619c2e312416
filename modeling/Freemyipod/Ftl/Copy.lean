import Freemyipod.Ftl.Read

/-!
# Ftl.Copy

Moving a logical block to a new vBlock: `ftl_copy_block`. The copy of a block with a log entry
reads as the block; of others the pages are read together, so that an erased page becomes one that
holds its bytes (`State.copied`).
-/

namespace Freemyipod
namespace Ftl

open Effect

variable {α : Type} {d : Device} {s t u : State α} {hand : Multiset Nat}

theorem Spare.lpn_user {n : Nat} (hn : n < 2 ^ 32) (usn : UInt32) (type eccmark : Nat) :
    (Spare.user n usn type eccmark).lpn = n := by
  show (UInt32.ofNat n).toNat = n
  exact UInt32.toNat_ofNat_of_lt' hn

/-- Only the context and the pages were changed so far, and now the pages once more. -/
theorem State.set_nand {c : Cxt} (h : t = { s with cxt := c, nand := t.nand })
    (nand : Nat → Option (Page α)) :
    { t with nand := nand } = { s with cxt := c, nand := nand } := by
  rw [h]

/-! ## What a step leaves of the control pages -/

/-- The control pages, the context that says where they are, and the VFL's list of them stay. -/
structure SameCtrl (d : Device) (s t : State α) : Prop where
  ftlctrlblocks : t.cxt.ftlctrlblocks = s.cxt.ftlctrlblocks
  ftlctrlpage : t.cxt.ftlctrlpage = s.cxt.ftlctrlpage
  usn : t.cxt.usn = s.cxt.usn
  cleanFlag : t.cxt.cleanFlag = s.cxt.cleanFlag
  ftlErasectrPages : t.cxt.ftlErasectrPages = s.cxt.ftlErasectrPages
  vflUsn : t.vflUsn = s.vflUsn
  vflCxt : t.vflCxt = s.vflCxt
  vflStored : t.vflStored = s.vflStored
  nand : ∀ p, p / d.ppb ∈ s.cxt.ctrlBlocks → t.nand p = s.nand p

namespace SameCtrl

theorem refl (s : State α) : SameCtrl d s s :=
  ⟨rfl, rfl, rfl, rfl, rfl, rfl, rfl, rfl, fun _ _ => rfl⟩

theorem ctrlBlocks (h : SameCtrl d s t) : t.cxt.ctrlBlocks = s.cxt.ctrlBlocks := by
  unfold Cxt.ctrlBlocks
  rw [h.ftlctrlblocks]

theorem trans (h : SameCtrl d s t) (h' : SameCtrl d t u) : SameCtrl d s u where
  ftlctrlblocks := h'.ftlctrlblocks.trans h.ftlctrlblocks
  ftlctrlpage := h'.ftlctrlpage.trans h.ftlctrlpage
  usn := h'.usn.trans h.usn
  cleanFlag := h'.cleanFlag.trans h.cleanFlag
  ftlErasectrPages := h'.ftlErasectrPages.trans h.ftlErasectrPages
  vflUsn := h'.vflUsn.trans h.vflUsn
  vflCxt := h'.vflCxt.trans h.vflCxt
  vflStored := h'.vflStored.trans h.vflStored
  nand p hp := (h'.nand p (by rw [h.ctrlBlocks]; exact hp)).trans (h.nand p hp)

end SameCtrl

theorem Allocated.sameCtrl {b : Nat} (h : Allocated d s b t) (hs : Inv d s hand) :
    SameCtrl d s t := by
  have hb := h.mem_pool
  have hnand : ∀ p, p / d.ppb ∈ s.cxt.ctrlBlocks → t.nand p = s.nand p := by
    intro p hp
    refine h.nand_ne ?_
    rintro rfl
    exact ((hs.owned.disjoint).2.2.1 hb).1 hp
  obtain ⟨i, -, -, ht⟩ := h.live
  refine ⟨?_, ?_, ?_, ?_, ?_, ?_, ?_, ?_, hnand⟩ <;> rw [ht] <;> rfl

/-- A change of the blocks in hand. -/
theorem Inv.sameCtrl_of_hand (h : Inv d s hand) {nand : Nat → Option (Page α)}
    (hn : ∀ p, p / d.ppb ∉ hand → nand p = s.nand p) : SameCtrl d s { s with nand := nand } :=
  ⟨rfl, rfl, rfl, rfl, rfl, rfl, rfl, rfl, fun p hp => hn p fun hh =>
    (h.owned.disjoint (b := p / d.ppb)).2.2.2 hp hh⟩

/-! ## Copying a block -/

namespace State

/-- One of the pages that are read together with page `k` of logical block `l` to be copied cannot
be read. -/
def CopyBad (d : Device) (s : State α) (l k : Nat) : Prop :=
  ∃ k' < d.ppb, k' / copybufSize = k / copybufSize ∧ (s.sector d (l * d.ppb + k')).2 = true

instance (l k : Nat) : Decidable (s.CopyBad d l k) :=
  inferInstanceAs (Decidable (∃ k' < d.ppb, _ ∧ (_ : Bool) = true))

/-- What a copy of page `k` of logical block `l` reads as. -/
def copied (d : Device) (s : State α) (l k : Nat) : Payload α × Bool :=
  if s.CopyBad d l k then s.single d (l * d.ppb + k)
  else if s.getLogEntry l = none then readsRaw (s.source d (l * d.ppb + k))
  else s.sector d (l * d.ppb + k)

/-- The copy of a block with a log entry reads as the block. -/
theorem copied_logged {l k : Nat} (hk : k < d.ppb) (hg : s.getLogEntry l ≠ none) :
    s.copied d l k = s.sector d (l * d.ppb + k) := by
  have hsingle : s.single d (l * d.ppb + k) = s.sector d (l * d.ppb + k) := by
    rw [single, Device.block_page hk]
    exact if_neg fun hc => hg hc.2
  rw [copied, hsingle, if_neg hg, ite_self]

theorem single_bad {k : Nat} (h : (s.single d k).2 = true) : s.single d k = (.zeros, true) := by
  unfold single at h ⊢
  split at h
  case isTrue hc =>
    rw [if_pos hc]
    exact readsRaw_bad h
  case isFalse hc =>
    rw [if_neg hc]
    exact readsAs_bad h

end State

/-- Logical block `l` was copied to block `b`, page by page. -/
structure Copied (d : Device) (s : State α) (l b : Nat) (t : State α) : Prop where
  eq : t = { s with
    cxt := { s.cxt with nextblockusn := s.cxt.nextblockusn + 1 }
    nand := t.nand }
  other : ∀ p, p / d.ppb ≠ b → t.nand p = s.nand p
  page : ∀ k < d.ppb, readsAs (t.nand (b * d.ppb + k)) = s.copied d l k
  written : ∀ k < d.ppb, ∃ pg, t.nand (b * d.ppb + k) = some pg

/-- The first `n` pages are copied, the others still erased. -/
structure Copying (d : Device) (s : State α) (l b n : Nat) (t : State α) : Prop where
  eq : t = { s with
    cxt := { s.cxt with nextblockusn := s.cxt.nextblockusn + 1 }
    nand := t.nand }
  other : ∀ p, p / d.ppb ≠ b → t.nand p = s.nand p
  page : ∀ k < n, k < d.ppb → readsAs (t.nand (b * d.ppb + k)) = s.copied d l k
  written : ∀ k < n, k < d.ppb → ∃ pg, t.nand (b * d.ppb + k) = some pg
  erased : ∀ k, n ≤ k → k < d.ppb → t.nand (b * d.ppb + k) = none

namespace Copying

variable {l b n : Nat}

theorem inv (h : Copying d s l b n t) (hs : Inv d s (b ::ₘ hand)) :
    Inv d t (b ::ₘ hand) ∧ SameView d s t ∧ SameCtrl d s t := by
  have hn : ∀ p, p / d.ppb ∉ b ::ₘ hand → t.nand p = s.nand p := by
    intro p hp
    refine h.other p ?_
    rintro rfl
    exact hp (Multiset.mem_cons_self _ _)
  have hinv := hs.of_hand hn
  have hview := hs.sameView_of_hand hn
  have hctrl := hs.sameCtrl_of_hand hn
  rw [h.eq]
  refine ⟨hinv.of_frame rfl rfl rfl (fun _ _ => rfl) hinv.owned hinv.start, fun k hk => ?_, ?_⟩
  · exact hview k hk
  · exact ⟨rfl, rfl, rfl, rfl, rfl, rfl, rfl, rfl, hctrl.nand⟩

theorem log (h : Copying d s l b n t) : t.log = s.log := by
  rw [h.eq]

/-- The sectors are still read from the same pages. -/
theorem source (h : Copying d s l b n t) (hs : Inv d s (b ::ₘ hand)) {k : Nat}
    (hk : k < d.sectors) : t.source d k = s.source d k := by
  refine hs.source_of_frame (by rw [h.eq]) h.log (fun p hp => h.other p ?_) hk
  rintro rfl
  exact (hs.owned.disjoint.2.1 hp).2.2 (Multiset.mem_cons_self _ _)

theorem single (h : Copying d s l b n t) (hs : Inv d s (b ::ₘ hand)) {k : Nat}
    (hk : k < d.sectors) : t.single d k = s.single d k := by
  unfold State.single
  rw [State.getLogEntry_of_log h.log, State.sector_eq, State.sector_eq, h.source hs hk]

end Copying

/-- A page that `ftl_copy_block` writes reads as what it was read as. -/
theorem readsAs_copied {v : Payload α × Bool} {data : Payload α} {spare : Spare}
    (hv : v.2 = true → v = (.zeros, true))
    (hgood : v.2 = false → data = v.1 ∧ spare.eccmark = 0xFF)
    (hbad : v.2 = true → spare.eccmark ≠ 0xFF) : readsAs (some ⟨data, spare⟩) = v := by
  show (if spare.eccmark ≠ 0xFF then (Payload.zeros, true) else (data, false)) = v
  cases hb : v.2 with
  | false =>
    obtain ⟨hd, he⟩ := hgood hb
    rw [if_neg (not_not.2 he), hd, ← hb]
  | true =>
    rw [if_pos (hbad hb), hv hb]

/-- The pages that `ftl_copy_block` reads at once: all of them together with the other banks', or
none. -/
theorem copy_inGroup {l n j : Nat} (hn : n % copybufSize = 0) (hlt : n + copybufSize ≤ d.ppb)
    (hj : j < copybufSize) : InGroup d s (l * d.ppb + n) copybufSize j ↔
      s.getLogEntry l = none := by
  have hsize : copybufSize = 4 := rfl
  have hpos := d.banks_cases
  have hmod : ∀ i, (l * d.ppb + n + i) % d.banks = i % d.banks := by
    intro i
    obtain ⟨m, hm⟩ := d.banks_dvd
    obtain ⟨q, hq⟩ : d.banks ∣ n := by
      have hfour : d.banks ∣ 4 := by
        rcases hpos with h | h | h <;> rw [h] <;> decide
      exact hfour.trans (Nat.dvd_of_mod_eq_zero hn)
    rw [hm, hq, Nat.mul_left_comm, ← Nat.mul_add, Nat.mul_add_mod]
  have hblock : ∀ i < copybufSize, (l * d.ppb + n + i) / d.ppb = l := by
    intro i hi
    rw [Nat.add_assoc]
    exact Device.block_page (by omega)
  have hle : j % d.banks ≤ j := Nat.mod_le _ _
  have hend : j - j % d.banks + d.banks ≤ copybufSize := by
    rcases hpos with h | h | h <;> rw [h] <;> omega
  have hzero : (j - j % d.banks) % d.banks = 0 := by
    rcases hpos with h | h | h <;> rw [h] <;> omega
  rw [InGroup, Together, hmod, hmod, hblock _ (by omega)]
  exact ⟨fun hc => hc.2.2.2, fun hc => ⟨hle, hend, hzero, hc⟩⟩

theorem copyGroup_spec {l b n : Nat} (hs : Inv d s (b ::ₘ hand)) (hl : l < d.type.userblocks)
    (h : Copying d s l b n t) (hmod : n % copybufSize = 0) (hn : n + copybufSize ≤ d.ppb) :
    Wp (copyGroup d l b n) t fun r u => r = none ∧ Copying d s l b (n + copybufSize) u := by
  obtain ⟨hinv, hview, -⟩ := h.inv hs
  have hb : b < d.vblocks := hs.owned.hand_lt (Multiset.mem_cons_self _ _)
  have hsec : ∀ j < copybufSize, l * d.ppb + n + j < d.sectors := by
    intro j hj
    rw [Nat.add_assoc]
    exact Device.page_lt hl (by omega)
  have hsize : copybufSize = 4 := rfl
  have hrange : l * d.ppb + n + copybufSize ≤ d.sectors := by
    have := hsec 3 (by omega)
    omega
  let r := ftlRead d t (l * d.ppb + n) copybufSize fun _ => .zeros
  have hr : Read (outAt d t (l * d.ppb + n) copybufSize) copybufSize (fun _ => .zeros) r :=
    ftlRead_spec hinv.mapping hrange _
  -- what the pages of this group are read as
  have hsource : ∀ j < copybufSize,
      t.source d (l * d.ppb + n + j) = s.source d (l * d.ppb + n + j) :=
    fun j hj => h.source hs (hsec j hj)
  have hsector : ∀ j < copybufSize,
      t.sector d (l * d.ppb + n + j) = s.sector d (l * d.ppb + n + j) :=
    fun j hj => hview _ (hsec j hj)
  have hout : ∀ j < copybufSize, outAt d t (l * d.ppb + n) copybufSize j =
      if s.getLogEntry l = none then readsRaw (s.source d (l * d.ppb + n + j))
      else s.sector d (l * d.ppb + n + j) := by
    intro j hj
    rw [outAt, hsource j hj, hsector j hj]
    by_cases hg : s.getLogEntry l = none
    · rw [if_pos ((copy_inGroup hmod hn hj).2 (by rwa [State.getLogEntry_of_log h.log])), if_pos hg]
    · rw [if_neg (fun hc => hg ?_), if_neg hg]
      rw [← State.getLogEntry_of_log h.log]
      exact (copy_inGroup hmod hn hj).1 hc
  have herr : ∀ j < copybufSize, (outAt d t (l * d.ppb + n) copybufSize j).2 =
      (s.sector d (l * d.ppb + n + j)).2 := by
    intro j hj
    rw [hout j hj]
    split
    · exact readsRaw_error _
    · rfl
  have hbad : ∀ j < copybufSize, (r.error ≠ 0 ↔ s.CopyBad d l (n + j)) := by
    intro j hj
    rw [hr.error]
    constructor
    · rintro ⟨i, hi, he⟩
      refine ⟨n + i, by omega, by rw [hsize] at hmod ⊢; omega, ?_⟩
      rw [← Nat.add_assoc, ← herr i hi, he]
    · rintro ⟨k, hk, hdiv, he⟩
      rw [hsize] at hdiv hmod
      obtain ⟨i, rfl⟩ : ∃ i, k = n + i := ⟨k - n, by omega⟩
      refine ⟨i, by omega, ?_⟩
      rw [herr i (by omega), Nat.add_assoc, he]
  simp only [copyGroup, wp_bind, wp_get, wp_pure, wp_readSectors hrange]
  refine (vflWrite_spec (d := d) ?_ fun i hi => ?_).mono fun rc u hu => ?_
  · have := Device.page_lt (d := d) (k := n + 3) hb (by omega)
    omega
  · rw [Nat.add_assoc]
    exact h.erased _ (by omega) (by omega)
  obtain ⟨rfl, hu⟩ := hu
  have hnand := congrArg State.nand hu
  simp only at hnand
  refine ⟨if_neg (by simp), ⟨?_, fun p hp => ?_, fun k hk hkp => ?_, fun k hk hkp => ?_,
    fun k hk hkp => ?_⟩⟩
  · rw [hu]
    exact State.set_nand h.eq _
  · rw [hnand, programmed_block (Device.block_page (by omega))
      (by rw [Device.page_page (by omega)]; exact hn) hp]
    exact h.other p hp
  · rw [hnand]
    by_cases hkn : k < n
    · rw [programmed_off (by omega)]
      exact h.page k hkn hkp
    · obtain ⟨j, rfl⟩ : ∃ j, k = n + j := ⟨k - n, by omega⟩
      have hj : j < copybufSize := by omega
      have hone := ftlRead_one hinv.mapping (hsec j hj) fun _ => r.buffer j
      rw [h.single hs (hsec j hj), hsector j hj] at hone
      rw [show b * d.ppb + (n + j) = b * d.ppb + n + j by omega, programmed_at hj, State.copied,
        ← Nat.add_assoc]
      by_cases hc : s.CopyBad d l (n + j)
      · have he : r.error ≠ 0 := (hbad j hj).2 hc
        rw [if_pos hc]
        refine readsAs_copied State.single_bad (fun hgood => ⟨?_, ?_⟩) fun hfail => ?_
        · rw [← hone.1]
          exact if_pos he
        · refine if_neg fun hcon => ?_
          have := hone.2.1 hcon.2
          rw [s.single_error] at hgood
          rw [hgood] at this
          cases this
        · rw [s.single_error] at hfail
          show (if _ then 0x55 else 0xFF) ≠ 0xFF
          rw [if_pos ⟨he, hone.2.2 hfail⟩]
          decide
      · have he : ¬ r.error ≠ 0 := fun hcon => hc ((hbad j hj).1 hcon)
        have hgood : (outAt d t (l * d.ppb + n) copybufSize j).2 = false := by
          rw [herr j hj, ← Bool.not_eq_true]
          intro hfail
          exact he (hr.error.2 ⟨j, hj, by rw [herr j hj, hfail]⟩)
        rw [if_neg hc, ← hout j hj]
        refine readsAs_copied (fun hfail => ?_) (fun _ => ⟨?_, ?_⟩) fun hfail => ?_
        · rw [hgood] at hfail
          cases hfail
        · rw [← hr.data j hj]
          exact if_neg he
        · exact if_neg fun hcon => he hcon.1
        · rw [hgood] at hfail
          cases hfail
  · rw [hnand]
    by_cases hkn : k < n
    · rw [programmed_off (by omega)]
      exact h.written k hkn hkp
    · obtain ⟨j, rfl⟩ : ∃ j, k = n + j := ⟨k - n, by omega⟩
      rw [← Nat.add_assoc, programmed_at (by omega)]
      exact ⟨_, rfl⟩
  · rw [hnand, programmed_off (by omega)]
    exact h.erased k (by omega) hkp

theorem copyBlock_spec {l b : Nat} (hs : Inv d s (b ::ₘ hand)) (hl : l < d.type.userblocks)
    (he : ∀ p, p / d.ppb = b → s.nand p = none) :
    Wp (copyBlock d l b) s fun r t => r = 0 ∧ Copied d s l b t := by
  have hppb := d.ppb_cases
  have hsize : copybufSize = 4 := rfl
  have h0 : Copying d s l b (0 * copybufSize)
      (s.modifyCxt fun c => { c with nextblockusn := c.nextblockusn + 1 }) :=
    ⟨rfl, fun _ _ => rfl, fun k hk => by omega, fun k hk => by omega,
      fun k _ hk => he _ (Device.block_page hk)⟩
  simp only [copyBlock, wp_bind, wp_modify]
  refine (wp_loopUntil (fun j t => Copying d s l b (j * copybufSize) t) h0
    fun j t _ hj ht => ?_).mono fun r t ht => ?_
  · rw [Nat.add_mul, Nat.one_mul]
    rw [hsize] at hj
    exact copyGroup_spec hs hl ht (Nat.mul_mod_left _ _) (by rw [hsize]; omega)
  · obtain ⟨rfl, ht⟩ := ht
    have hall : ∀ k < d.ppb, k < (0 + (d.ppb + copybufSize - 1) / copybufSize) * copybufSize := by
      intro k hk
      rw [hsize]
      omega
    exact (wp_pure _ _ _).2 ⟨rfl, ⟨ht.eq, ht.other, fun k hk => ht.page k (hall k hk) hk,
      fun k hk => ht.written k (hall k hk) hk⟩⟩

namespace Copied

variable {l b : Nat}

theorem copying (h : Copied d s l b t) : Copying d s l b d.ppb t :=
  ⟨h.eq, h.other, fun k _ hk => h.page k hk, fun k _ hk => h.written k hk,
    fun k hk hk' => absurd hk' (by omega)⟩

theorem inv (h : Copied d s l b t) (hs : Inv d s (b ::ₘ hand)) :
    Inv d t (b ::ₘ hand) ∧ SameView d s t ∧ SameCtrl d s t := h.copying.inv hs

end Copied

end Ftl
end Freemyipod
