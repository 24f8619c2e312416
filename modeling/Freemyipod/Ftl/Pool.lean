import Freemyipod.Ftl.Invariant

/-!
# Ftl.Pool

One lemma for each of the functions the others are made of: programming pages, erasing a block,
taking a block off the pool and giving one back. Each says what the state is afterwards.
-/

namespace Freemyipod
namespace Ftl

open Effect

variable {α : Type} {d : Device} {s t : State α} {hand : Multiset Nat}

theorem wp_faultIf {c : Prop} [Decidable c] {f : Fault} {Q : Unit → State α → Prop} :
    Wp (faultIf c f) s Q ↔ ¬ c ∧ Q () s := by
  unfold faultIf
  by_cases h : c
  · simp [h]
  · simp [h]

/-! ## Programming -/

/-- The pages after `count` of them are programmed from `vpage` on. -/
def programmed (nand : Nat → Option (Page α)) (vpage count : Nat) (buffer : Nat → Payload α)
    (spare : Nat → Spare) : Nat → Option (Page α) :=
  fun p => if vpage ≤ p ∧ p < vpage + count then some ⟨buffer (p - vpage), spare (p - vpage)⟩
    else nand p

section Programmed

variable {nand : Nat → Option (Page α)} {vpage count : Nat} {buffer : Nat → Payload α}
  {spare : Nat → Spare}

theorem programmed_at {i : Nat} (hi : i < count) :
    programmed nand vpage count buffer spare (vpage + i) = some ⟨buffer i, spare i⟩ := by
  unfold programmed
  rw [if_pos (by omega), Nat.add_sub_cancel_left]

theorem programmed_off {p : Nat} (hp : p < vpage ∨ vpage + count ≤ p) :
    programmed nand vpage count buffer spare p = nand p := by
  unfold programmed
  rw [if_neg (by omega)]

theorem programmed_succ :
    programmed nand vpage (count + 1) buffer spare =
      upd (programmed nand vpage count buffer spare) (vpage + count)
        (some ⟨buffer count, spare count⟩) := by
  funext p
  by_cases hp : p = vpage + count
  · rw [hp, upd_self, programmed_at (by omega)]
  · rw [upd_ne _ _ hp]
    unfold programmed
    by_cases hin : vpage ≤ p ∧ p < vpage + count
    · rw [if_pos hin, if_pos (by omega)]
    · rw [if_neg hin, if_neg (by omega)]

/-- Pages of one block are programmed: no other block changes. -/
theorem programmed_block {b p : Nat} (hv : vpage / d.ppb = b) (hc : vpage % d.ppb + count ≤ d.ppb)
    (hp : p / d.ppb ≠ b) : programmed nand vpage count buffer spare p = nand p := by
  refine programmed_off ?_
  by_contra hcon
  have hb : vpage = b * d.ppb + vpage % d.ppb := by
    rw [← hv]
    exact Device.eq_block_page vpage
  have hk : p = b * d.ppb + (p - b * d.ppb) := by omega
  have : p - b * d.ppb < d.ppb := by omega
  exact hp (by rw [hk]; exact Device.block_page this)

end Programmed

theorem vflWrite_spec {vpage count : Nat} {buffer : Nat → Payload α} {spare : Nat → Spare}
    (hr : vpage + count ≤ d.vblocks * d.ppb) (he : ∀ i < count, s.nand (vpage + i) = none) :
    Wp (vflWrite d vpage count buffer spare) s fun r t =>
      r = 0 ∧ t = { s with nand := programmed s.nand vpage count buffer spare } := by
  unfold vflWrite
  rw [if_neg (by omega), wp_bind]
  let I := fun (i : Nat) (t : State α) =>
    t = { s with nand := programmed s.nand vpage i buffer spare }
  have h0 : I 0 s := by
    have : programmed s.nand vpage 0 buffer spare = s.nand := by
      funext p
      exact programmed_off (by omega)
    show s = _
    rw [this]
  have hloop : Wp (loop count fun i => programPage (vpage + i) (buffer i) (spare i)) s
      fun _ t => I count t := wp_loop I h0 fun i t hi ht => ?_
  · exact hloop.mono fun _ t ht => (wp_pure _ _ _).2 ⟨rfl, ht⟩
  · subst ht
    have hnone : programmed s.nand vpage i buffer spare (vpage + i) = none := by
      rw [programmed_off (by omega), he i hi]
    simp only [programPage, wp_bind, wp_get]
    rw [hnone]
    refine (wp_set _ _ _).2 ?_
    show _ = _
    rw [programmed_succ]

/-! ## Erasing -/

/-- The pages after block `b` is erased. -/
def erasedPages (d : Device) (nand : Nat → Option (Page α)) (b : Nat) : Nat → Option (Page α) :=
  fun p => if p / d.ppb = b then none else nand p

theorem erasedPages_ne {nand : Nat → Option (Page α)} {b p : Nat} (h : p / d.ppb ≠ b) :
    erasedPages d nand b p = nand p := if_neg h

/-- Block `b` was erased and its erase counted. -/
structure Erased (d : Device) (s : State α) (b : Nat) (t : State α) : Prop where
  eq : t = { s with
    cxt := { s.cxt with erasedirty := t.cxt.erasedirty }
    erasectr := upd s.erasectr b (s.erasectr b + 1)
    erasectrDirt := t.erasectrDirt
    nand := erasedPages d s.nand b }

theorem eraseBlock_spec {b : Nat} (hb : b < d.vblocks) :
    Wp (eraseBlock d b) s fun r t => r = 0 ∧ Erased d s b t := by
  simp only [eraseBlock, eraseBlockInternal, if_neg (Nat.not_le.2 hb), wp_bind, wp_get, wp_set,
    wp_modify, wp_pure, wp_ite]
  exact ⟨fun _ => ⟨trivial, ⟨rfl⟩⟩, fun _ => ⟨trivial, ⟨rfl⟩⟩⟩

/-! ## The pool -/

theorem releasePoolBlock_spec {b : Nat} (hb : b < d.vblocks) (hf : s.cxt.freecount < 0x14) :
    Wp (releasePoolBlock d b) s fun _ t => t = s.modifyCxt (Cxt.released b) := by
  simp only [releasePoolBlock, wp_bind, wp_faultIf, wp_get, wp_set]
  exact ⟨by omega, by omega, rfl⟩

/-- The search finds a live index, unless all blocks looked at are block 0. -/
theorem bestPool_cases (s : State α) (n : Nat) :
    (∃ i < n, (s.bestPool n).2 = s.cxt.poolIdx i) ∨
      s.bestPool n = (0xFFFFFFFF, 0xFFFFFFFF) ∧
        ∀ i < n, s.cxt.blockpool (s.cxt.poolIdx i) = 0 := by
  induction n with
  | zero => exact .inr ⟨rfl, fun i hi => by omega⟩
  | succ n ih =>
    have hlt := (s.erasectr (s.cxt.blockpool (s.cxt.poolIdx n))).toNat_lt
    have hkeep : (∃ i < n, (s.bestPool n).2 = s.cxt.poolIdx i) →
        ∃ i < n + 1, (s.bestPool n).2 = s.cxt.poolIdx i := by
      rintro ⟨i, hi, he⟩
      exact ⟨i, by omega, he⟩
    by_cases h0 : s.cxt.blockpool (s.cxt.poolIdx n) = 0
    · have heq : s.bestPool (n + 1) = s.bestPool n := if_pos h0
      rw [heq]
      rcases ih with h | ⟨h, hall⟩
      · exact .inl (hkeep h)
      · refine .inr ⟨h, fun i hi => ?_⟩
        by_cases hin : i = n
        · rw [hin, h0]
        · exact hall i (by omega)
    · have heq : s.bestPool (n + 1) =
          if (s.erasectr (s.cxt.blockpool (s.cxt.poolIdx n))).toNat < (s.bestPool n).1 then
            ((s.erasectr (s.cxt.blockpool (s.cxt.poolIdx n))).toNat, s.cxt.poolIdx n)
          else s.bestPool n := if_neg h0
      rw [heq]
      split
      · exact .inl ⟨n, by omega, rfl⟩
      · rename_i hge
        rcases ih with h | ⟨h, -⟩
        · exact .inl (hkeep h)
        · rw [h] at hge
          simp only at hge
          omega

/-- `b` was taken off the pool, at the `i`-th live index, and erased. -/
structure Allocated (d : Device) (s : State α) (b : Nat) (t : State α) : Prop where
  live : ∃ i < s.cxt.freecount, b = s.cxt.blockpool (s.cxt.poolIdx i) ∧
    t = { s with
      cxt := { s.cxt.taken (s.cxt.poolIdx i) with erasedirty := t.cxt.erasedirty }
      erasectr := upd s.erasectr b (s.erasectr b + 1)
      erasectrDirt := t.erasectrDirt
      nand := erasedPages d s.nand b }

/-- Two blocks in the pool are enough: at most one of them is block 0, which is passed over. -/
theorem allocatePoolBlock_spec (h : Owned d s hand) (hstart : s.cxt.nextfreeidx < 0x14)
    (hf : 2 ≤ s.cxt.freecount) :
    Wp (allocatePoolBlock d) s fun r t => ∃ b, r = some b ∧ Allocated d s b t := by
  obtain ⟨i, hi, hbest⟩ : ∃ i < s.cxt.freecount,
      (s.bestPool s.cxt.freecount).2 = s.cxt.poolIdx i := by
    rcases bestPool_cases s s.cxt.freecount with hc | ⟨-, hall⟩
    · exact hc
    · have h01 := h.pool_inj (i := 0) (j := 1) (by omega) (by omega)
        ((hall 0 (by omega)).trans (hall 1 (by omega)).symm)
      omega
  have hcount := h.count
  have hidx := Cxt.poolIdx_lt hstart (i := i) (by omega)
  have hb : s.cxt.blockpool (s.cxt.poolIdx i) < d.vblocks :=
    h.mem_iff.2 (.inr (.inr (.inl (Cxt.mem_poolBlocks.2 ⟨i, hi, rfl⟩))))
  -- with the best block in front already, the exchange of the two changes nothing
  have hsame : s.cxt.poolIdx i = s.cxt.nextfreeidx →
      upd (upd s.cxt.blockpool (s.cxt.poolIdx i) (s.cxt.blockpool s.cxt.nextfreeidx))
        s.cxt.nextfreeidx (s.cxt.blockpool (s.cxt.poolIdx i)) = s.cxt.blockpool := by
    intro he
    rw [he, upd_eq_self, upd_eq_self]
  simp only [allocatePoolBlock, wp_bind, wp_get, wp_faultIf, hbest, wp_ite, wp_modify, wp_pure]
  refine ⟨by omega, fun hne => ⟨by omega, ?_⟩, fun he => ⟨by omega, ?_⟩⟩
  · refine (eraseBlock_spec hb).mono fun r t ht => ?_
    obtain ⟨rfl, ht⟩ := ht
    refine ⟨fun hc => absurd rfl hc, fun _ => ⟨_, rfl, ⟨i, hi, rfl, ?_⟩⟩⟩
    rw [ht.eq]
    rfl
  · refine (eraseBlock_spec hb).mono fun r t ht => ?_
    obtain ⟨rfl, ht⟩ := ht
    refine ⟨fun hc => absurd rfl hc, fun _ => ⟨_, rfl, ⟨i, hi, rfl, ?_⟩⟩⟩
    have hs := hsame (not_not.1 he)
    rw [ht.eq]
    simp only [State.modifyCxt, Cxt.taken, hs]

namespace Allocated

variable {b : Nat}

theorem map (h : Allocated d s b t) : t.map = s.map := by
  obtain ⟨i, -, -, ht⟩ := h.live
  rw [ht]

theorem log (h : Allocated d s b t) : t.log = s.log := by
  obtain ⟨i, -, -, ht⟩ := h.live
  rw [ht]

theorem nand (h : Allocated d s b t) : t.nand = erasedPages d s.nand b := by
  obtain ⟨i, -, -, ht⟩ := h.live
  rw [ht]

theorem freecount (h : Allocated d s b t) : t.cxt.freecount + 1 = s.cxt.freecount := by
  obtain ⟨i, hi, -, ht⟩ := h.live
  rw [ht]
  show s.cxt.freecount - 1 + 1 = _
  omega

theorem ftlctrlblocks (h : Allocated d s b t) : t.cxt.ftlctrlblocks = s.cxt.ftlctrlblocks := by
  obtain ⟨i, -, -, ht⟩ := h.live
  rw [ht]
  rfl

theorem ftlctrlpage (h : Allocated d s b t) : t.cxt.ftlctrlpage = s.cxt.ftlctrlpage := by
  obtain ⟨i, -, -, ht⟩ := h.live
  rw [ht]
  rfl

theorem ftlErasectrPages (h : Allocated d s b t) :
    t.cxt.ftlErasectrPages = s.cxt.ftlErasectrPages := by
  obtain ⟨i, -, -, ht⟩ := h.live
  rw [ht]
  rfl

theorem erasectr (h : Allocated d s b t) : t.erasectr = upd s.erasectr b (s.erasectr b + 1) := by
  obtain ⟨i, -, -, ht⟩ := h.live
  rw [ht]

theorem erased (h : Allocated d s b t) {p : Nat} (hp : p / d.ppb = b) : t.nand p = none := by
  rw [h.nand]
  exact if_pos hp

theorem nand_ne (h : Allocated d s b t) {p : Nat} (hp : p / d.ppb ≠ b) : t.nand p = s.nand p := by
  rw [h.nand]
  exact if_neg hp

theorem mem_pool (h : Allocated d s b t) : b ∈ s.cxt.poolBlocks := by
  obtain ⟨i, hi, hb, -⟩ := h.live
  exact Cxt.mem_poolBlocks.2 ⟨i, hi, hb.symm⟩

theorem start (h : Allocated d s b t) (hs : s.cxt.nextfreeidx < 0x14) :
    t.cxt.nextfreeidx < 0x14 := by
  obtain ⟨i, -, -, ht⟩ := h.live
  rw [ht]
  exact Cxt.taken_nextfreeidx_lt hs (s.cxt.poolIdx i)

theorem pool (h : Allocated d s b t) (hstart : s.cxt.nextfreeidx < 0x14)
    (hf : s.cxt.freecount ≤ 0x14) : s.cxt.poolBlocks = b ::ₘ t.cxt.poolBlocks := by
  obtain ⟨i, hi, hb, ht⟩ := h.live
  rw [Cxt.poolBlocks_taken hstart hf hi, ← hb, ht]
  rfl

theorem owned (h : Allocated d s b t) (hs : Owned d s hand) (hstart : s.cxt.nextfreeidx < 0x14) :
    Owned d t (b ::ₘ hand) := by
  have hcount := hs.count
  have hpool := h.pool hstart (by omega)
  have hmap : t.mapBlocks d = s.mapBlocks d := by
    unfold State.mapBlocks
    rw [h.map]
  have hlog : t.logBlocks = s.logBlocks := by
    unfold State.logBlocks
    rw [h.log]
  have hctrl : t.cxt.ctrlBlocks = s.cxt.ctrlBlocks := by
    unfold Cxt.ctrlBlocks
    rw [h.ftlctrlblocks]
  unfold Owned at hs ⊢
  rw [← hs, hpool, hmap, hlog, hctrl]
  simp only [← Multiset.singleton_add]
  abel

theorem inv (h : Allocated d s b t) (hs : Inv d s hand) : Inv d t (b ::ₘ hand) := by
  have hdis := hs.owned.disjoint (b := b)
  refine hs.of_frame h.log h.ftlctrlblocks h.ftlctrlpage (fun p hp => h.nand_ne ?_)
    (h.owned hs.owned hs.start) (h.start hs.start)
  rintro rfl
  have hbp := h.mem_pool
  rcases hp with hp | hp
  · exact (hdis.2.1 (.inr hp)).1 hbp
  · exact (hdis.2.2.1 hbp).1 hp

theorem sameView (h : Allocated d s b t) (hs : Inv d s hand) : SameView d s t := by
  refine .of_frame hs h.map h.log fun p hp => h.nand_ne ?_
  rintro rfl
  exact ((hs.owned.disjoint).2.1 hp).1 h.mem_pool

end Allocated

namespace Inv

theorem sameView_of_hand (h : Inv d s hand) {nand : Nat → Option (Page α)}
    (hn : ∀ p, p / d.ppb ∉ hand → nand p = s.nand p) : SameView d s { s with nand := nand } := by
  refine .of_frame (t := { s with nand := nand }) h rfl rfl fun p hp => hn p fun hh => ?_
  exact ((h.owned.disjoint (b := p / d.ppb)).2.1 hp).2.2 hh

/-- A block in hand goes back to the pool. -/
theorem released {b : Nat} (h : Inv d s (b ::ₘ hand)) :
    Inv d (s.modifyCxt (Cxt.released b)) hand :=
  h.of_frame (t := s.modifyCxt (Cxt.released b)) rfl rfl rfl (fun _ _ => rfl) h.owned.released
    h.start

/-- A block in hand takes the place of one in the map, which is in hand then. -/
theorem mapped {b l : Nat} (h : Inv d s (b ::ₘ hand)) (hl : l < d.type.userblocks) :
    Inv d { s with map := upd s.map l b } (s.map l ::ₘ hand) := by
  refine h.of_frame (t := { s with map := upd s.map l b }) rfl rfl rfl (fun _ _ => rfl) ?_ h.start
  have ho := h.owned
  have hm := s.mapBlocks_upd hl b
  unfold Owned at ho ⊢
  rw [← ho]
  have hadd := congrArg (· + s.logBlocks + s.cxt.poolBlocks + s.cxt.ctrlBlocks + hand) hm
  simp only [← Multiset.singleton_add] at hadd ⊢
  calc _ = {s.map l} + State.mapBlocks d { s with map := upd s.map l b } + s.logBlocks +
        s.cxt.poolBlocks + s.cxt.ctrlBlocks + hand := by
        show State.mapBlocks d { s with map := upd s.map l b } + s.logBlocks + s.cxt.poolBlocks +
          s.cxt.ctrlBlocks + _ = _
        abel
    _ = _ := hadd
    _ = _ := by abel

end Inv

end Ftl
end Freemyipod
