import Freemyipod.Ftl.Model
import Mathlib

/-!
# Ftl.Blocks

Who has which vBlock. At any time a vBlock is in the map, in the pool, the scattered block of a
log entry, a control block, or in the hands of the function at work: `Owned`. The moves between
these are lemmas about multisets of block numbers.
-/

namespace Freemyipod
namespace Ftl

open Effect

variable {α β : Type} (d : Device)

/-! ## The device -/

theorem table_bounds : ∀ t ∈ nandDeviceinfotable,
    6 ≤ t.blocksizeexponent ∧ t.blocksizeexponent ≤ 7 ∧
      (t.userblocks = 968 ∨ t.userblocks = 1936 ∨ t.userblocks = 3872 ∨ t.userblocks = 7744) := by
  decide

namespace Device

theorem userblocks_cases : d.type.userblocks = 968 ∨ d.type.userblocks = 1936 ∨
    d.type.userblocks = 3872 ∨ d.type.userblocks = 7744 :=
  (table_bounds _ d.known).2.2

theorem exponent_bounds : 6 ≤ d.type.blocksizeexponent + d.banksExponent ∧
    d.type.blocksizeexponent + d.banksExponent ≤ 9 := by
  have h := table_bounds _ d.known
  have hb := d.banks_le
  omega

theorem ppb_cases : d.ppb = 64 ∨ d.ppb = 128 ∨ d.ppb = 256 ∨ d.ppb = 512 := by
  have h := d.exponent_bounds
  unfold ppb
  generalize d.type.blocksizeexponent + d.banksExponent = n at h
  have hn : n = 6 ∨ n = 7 ∨ n = 8 ∨ n = 9 := by omega
  rcases hn with rfl | rfl | rfl | rfl <;> simp

theorem ppb_pos : 0 < d.ppb := by
  have h := d.ppb_cases
  omega

theorem banks_cases : d.banks = 1 ∨ d.banks = 2 ∨ d.banks = 4 := by
  have h := d.banks_le
  unfold banks
  generalize d.banksExponent = n at h
  have hn : n = 0 ∨ n = 1 ∨ n = 2 := by omega
  rcases hn with rfl | rfl | rfl <;> simp

theorem banks_dvd : d.banks ∣ d.ppb := by
  unfold banks ppb
  exact pow_dvd_pow 2 (by omega)

theorem vblocks_lt : d.vblocks < 0xFFFF := by
  have h := d.userblocks_cases
  unfold vblocks
  omega

theorem sectors_lt : d.sectors < 2 ^ 32 := by
  have h := d.userblocks_cases
  have hp := d.ppb_cases
  have hle : d.type.userblocks ≤ 7744 := by omega
  have hle' : d.ppb ≤ 512 := by omega
  calc d.sectors ≤ 7744 * 512 := Nat.mul_le_mul hle hle'
    _ < 2 ^ 32 := by norm_num

variable {d}

theorem block_page {b k : Nat} (hk : k < d.ppb) : (b * d.ppb + k) / d.ppb = b := by
  rw [Nat.mul_comm, Nat.mul_add_div d.ppb_pos, Nat.div_eq_of_lt hk, Nat.add_zero]

theorem page_page {b k : Nat} (hk : k < d.ppb) : (b * d.ppb + k) % d.ppb = k := by
  rw [Nat.mul_comm, Nat.mul_add_mod, Nat.mod_eq_of_lt hk]

theorem block_page_start (b : Nat) : b * d.ppb / d.ppb = b :=
  Nat.mul_div_cancel b d.ppb_pos

theorem page_lt {b k n : Nat} (hb : b < n) (hk : k < d.ppb) : b * d.ppb + k < n * d.ppb := by
  calc b * d.ppb + k < b * d.ppb + d.ppb := by omega
    _ = (b + 1) * d.ppb := by rw [Nat.add_mul, Nat.one_mul]
    _ ≤ n * d.ppb := Nat.mul_le_mul_right _ hb

theorem sector_block {k : Nat} (hk : k < d.sectors) : k / d.ppb < d.type.userblocks :=
  Nat.div_lt_of_lt_mul (by rw [Nat.mul_comm]; exact hk)

theorem eq_block_page (p : Nat) : p = p / d.ppb * d.ppb + p % d.ppb := by
  rw [Nat.mul_comm]
  exact (Nat.div_add_mod p d.ppb).symm

theorem mod_lt_ppb (p : Nat) : p % d.ppb < d.ppb := Nat.mod_lt _ d.ppb_pos

end Device

/-! ## Arrays -/

@[simp] theorem upd_self (a : Nat → β) (i : Nat) (v : β) : upd a i v i = v := if_pos rfl

theorem upd_ne (a : Nat → β) {i j : Nat} (v : β) (h : j ≠ i) : upd a i v j = a j := if_neg h

theorem upd_eq_self (a : Nat → β) (i : Nat) : upd a i (a i) = a := by
  funext j
  by_cases h : j = i
  · rw [h, upd_self]
  · rw [upd_ne _ _ h]

theorem upd_upd (a : Nat → β) (i : Nat) (v w : β) : upd (upd a i v) i w = upd a i w := by
  funext j
  by_cases h : j = i
  · rw [h, upd_self, upd_self]
  · rw [upd_ne _ _ h, upd_ne _ _ h, upd_ne _ _ h]

/-- Writing one array element exchanges its old value for the new one. -/
theorem map_range_upd (f : Nat → β) (v : β) {j n : Nat} (hj : j < n) :
    f j ::ₘ (Multiset.range n).map (upd f j v) = v ::ₘ (Multiset.range n).map f := by
  induction n with
  | zero => omega
  | succ n ih =>
    rw [Multiset.range_succ, Multiset.map_cons, Multiset.map_cons]
    by_cases hjn : j = n
    · subst hjn
      have hrest : (Multiset.range j).map (upd f j v) = (Multiset.range j).map f := by
        refine Multiset.map_congr rfl fun i hi => ?_
        exact upd_ne _ _ (by have := Multiset.mem_range.1 hi; omega)
      rw [upd_self, hrest, Multiset.cons_swap]
    · rw [upd_ne _ _ (Ne.symm hjn), Multiset.cons_swap, ih (by omega), Multiset.cons_swap]

/-! ## The containers -/

namespace Cxt

def poolBlocks (c : Cxt) : Multiset Nat :=
  (Multiset.range c.freecount).map fun i => c.blockpool (c.poolIdx i)

def ctrlBlocks (c : Cxt) : Multiset Nat := (Multiset.range 3).map c.ftlctrlblocks

end Cxt

/-- The scattered block of an entry in use. -/
def LogEntry.blocks (e : LogEntry) : Multiset Nat :=
  if e.Used then {e.scatteredvblock} else 0

namespace State

def mapBlocks (s : State α) : Multiset Nat := (Multiset.range d.type.userblocks).map s.map

def logBlocks (s : State α) : Multiset Nat :=
  ((Multiset.range 0x11).map fun e => (s.log e).blocks).join

end State

/-- Every vBlock is in exactly one of the map, the log, the pool, the control blocks and `hand`. -/
def Owned (s : State α) (hand : Multiset Nat) : Prop :=
  s.mapBlocks d + s.logBlocks + s.cxt.poolBlocks + s.cxt.ctrlBlocks + hand =
    Multiset.range d.vblocks

variable {d} {s t : State α} {hand : Multiset Nat}

theorem State.mem_mapBlocks {b : Nat} :
    b ∈ s.mapBlocks d ↔ ∃ l < d.type.userblocks, s.map l = b := by
  simp [State.mapBlocks]

theorem State.mem_logBlocks {b : Nat} :
    b ∈ s.logBlocks ↔ ∃ e < 0x11, (s.log e).Used ∧ (s.log e).scatteredvblock = b := by
  simp only [State.logBlocks, Multiset.mem_join, Multiset.mem_map, Multiset.mem_range,
    LogEntry.blocks]
  constructor
  · rintro ⟨m, ⟨e, he, rfl⟩, hb⟩
    by_cases hu : (s.log e).Used
    · rw [if_pos hu, Multiset.mem_singleton] at hb
      exact ⟨e, he, hu, hb.symm⟩
    · rw [if_neg hu] at hb
      exact absurd hb (Multiset.notMem_zero _)
  · rintro ⟨e, he, hu, rfl⟩
    exact ⟨_, ⟨e, he, rfl⟩, by rw [if_pos hu]; exact Multiset.mem_singleton_self _⟩

theorem Cxt.mem_poolBlocks {c : Cxt} {b : Nat} :
    b ∈ c.poolBlocks ↔ ∃ i < c.freecount, c.blockpool (c.poolIdx i) = b := by
  simp [Cxt.poolBlocks]

theorem Cxt.mem_ctrlBlocks {c : Cxt} {b : Nat} :
    b ∈ c.ctrlBlocks ↔ ∃ i < 3, c.ftlctrlblocks i = b := by
  simp only [Cxt.ctrlBlocks, Multiset.mem_map, Multiset.mem_range]

namespace Owned

theorem nodup (h : Owned d s hand) :
    (s.mapBlocks d + s.logBlocks + s.cxt.poolBlocks + s.cxt.ctrlBlocks + hand).Nodup := by
  rw [h]
  exact Multiset.nodup_range _

theorem mem_iff (h : Owned d s hand) {b : Nat} :
    b < d.vblocks ↔ b ∈ s.mapBlocks d ∨ b ∈ s.logBlocks ∨ b ∈ s.cxt.poolBlocks ∨
      b ∈ s.cxt.ctrlBlocks ∨ b ∈ hand := by
  rw [← Multiset.mem_range, ← h]
  simp only [Multiset.mem_add]
  tauto

/-- The map and the log share no block with each other, nor with the rest. -/
theorem disjoint (h : Owned d s hand) {b : Nat} :
    (b ∈ s.mapBlocks d → b ∉ s.logBlocks) ∧
      (b ∈ s.mapBlocks d ∨ b ∈ s.logBlocks →
        b ∉ s.cxt.poolBlocks ∧ b ∉ s.cxt.ctrlBlocks ∧ b ∉ hand) ∧
      (b ∈ s.cxt.poolBlocks → b ∉ s.cxt.ctrlBlocks ∧ b ∉ hand) ∧
      (b ∈ s.cxt.ctrlBlocks → b ∉ hand) := by
  have hn := Multiset.nodup_iff_count_le_one.1 h.nodup b
  simp only [Multiset.count_add] at hn
  simp only [← Multiset.count_pos]
  omega

theorem nodup_mapBlocks (h : Owned d s hand) : (s.mapBlocks d).Nodup :=
  Multiset.nodup_of_le (by simp only [add_assoc]; exact Multiset.le_add_right _ _) h.nodup

theorem nodup_logBlocks (h : Owned d s hand) : s.logBlocks.Nodup :=
  Multiset.nodup_of_le (by
    simp only [add_assoc]
    exact (Multiset.le_add_right _ _).trans (Multiset.le_add_left _ _)) h.nodup

theorem nodup_ctrlBlocks (h : Owned d s hand) : s.cxt.ctrlBlocks.Nodup :=
  Multiset.nodup_of_le ((Multiset.le_add_left _ _).trans (Multiset.le_add_right _ _)) h.nodup

theorem nodup_poolBlocks (h : Owned d s hand) : s.cxt.poolBlocks.Nodup :=
  Multiset.nodup_of_le (((Multiset.le_add_left _ _).trans (Multiset.le_add_right _ _)).trans
    (Multiset.le_add_right _ _)) h.nodup

theorem map_inj (h : Owned d s hand) {l l' : Nat} (hl : l < d.type.userblocks)
    (hl' : l' < d.type.userblocks) (he : s.map l = s.map l') : l = l' :=
  Multiset.inj_on_of_nodup_map h.nodup_mapBlocks l (Multiset.mem_range.2 hl) l'
    (Multiset.mem_range.2 hl') he

theorem ctrl_inj (h : Owned d s hand) {i j : Nat} (hi : i < 3) (hj : j < 3)
    (he : s.cxt.ftlctrlblocks i = s.cxt.ftlctrlblocks j) : i = j :=
  Multiset.inj_on_of_nodup_map h.nodup_ctrlBlocks i (Multiset.mem_range.2 hi) j
    (Multiset.mem_range.2 hj) he

theorem pool_inj (h : Owned d s hand) {i j : Nat} (hi : i < s.cxt.freecount)
    (hj : j < s.cxt.freecount)
    (he : s.cxt.blockpool (s.cxt.poolIdx i) = s.cxt.blockpool (s.cxt.poolIdx j)) : i = j :=
  Multiset.inj_on_of_nodup_map h.nodup_poolBlocks i (Multiset.mem_range.2 hi) j
    (Multiset.mem_range.2 hj) he

theorem map_lt (h : Owned d s hand) {l : Nat} (hl : l < d.type.userblocks) :
    s.map l < d.vblocks := h.mem_iff.2 (.inl (State.mem_mapBlocks.2 ⟨l, hl, rfl⟩))

theorem log_lt (h : Owned d s hand) {e : Nat} (he : e < 0x11) (hu : (s.log e).Used) :
    (s.log e).scatteredvblock < d.vblocks :=
  h.mem_iff.2 (.inr (.inl (State.mem_logBlocks.2 ⟨e, he, hu, rfl⟩)))

theorem ctrl_lt (h : Owned d s hand) {i : Nat} (hi : i < 3) :
    s.cxt.ftlctrlblocks i < d.vblocks :=
  h.mem_iff.2 (.inr (.inr (.inr (.inl (Cxt.mem_ctrlBlocks.2 ⟨i, hi, rfl⟩)))))

/-- The blocks in the ring, the log entries in use and the blocks in hand are 20. -/
theorem count (h : Owned d s hand) :
    s.cxt.freecount + (s.logBlocks).card + hand.card = 0x14 := by
  have hc := congrArg Multiset.card h
  simp only [Multiset.card_add, Multiset.card_range, State.mapBlocks, Multiset.card_map,
    Cxt.poolBlocks, Cxt.ctrlBlocks, Device.vblocks] at hc
  omega

theorem hand_lt (h : Owned d s hand) {b : Nat} (hb : b ∈ hand) : b < d.vblocks :=
  h.mem_iff.2 (.inr (.inr (.inr (.inr hb))))

end Owned

/-! ## How many entries there are -/

theorem State.card_logBlocks (s : State α) : s.logBlocks.card =
    ((Multiset.range 0x11).map fun e => if (s.log e).Used then 1 else 0).sum := by
  unfold logBlocks
  rw [Multiset.card_join, Multiset.map_map]
  refine congrArg Multiset.sum (Multiset.map_congr rfl fun e _ => ?_)
  simp only [Function.comp, LogEntry.blocks]
  split <;> simp

theorem State.card_logBlocks_le (s : State α) : s.logBlocks.card ≤ 0x11 := by
  rw [s.card_logBlocks]
  calc _ ≤ ((Multiset.range 0x11).map fun _ => 1).sum :=
        Multiset.sum_map_le_sum_map _ _ fun e _ => by split <;> simp
    _ = 0x11 := by simp

theorem State.card_logBlocks_of_all (h : ∀ e < 0x11, (s.log e).Used) :
    s.logBlocks.card = 0x11 := by
  rw [s.card_logBlocks]
  calc _ = ((Multiset.range 0x11).map fun _ => 1).sum :=
        congrArg Multiset.sum (Multiset.map_congr rfl fun e he =>
          if_pos (h e (Multiset.mem_range.1 he)))
    _ = 0x11 := by simp

theorem State.card_logBlocks_of_none (h : ∀ e < 0x11, ¬ (s.log e).Used) : s.logBlocks.card = 0 := by
  rw [s.card_logBlocks]
  calc _ = ((Multiset.range 0x11).map fun _ => 0).sum :=
        congrArg Multiset.sum (Multiset.map_congr rfl fun e he =>
          if_neg (h e (Multiset.mem_range.1 he)))
    _ = 0 := by simp

/-! ## Moves -/

theorem State.logBlocks_modifyLog (s : State α) {e : Nat} (he : e < 0x11) (f : LogEntry → LogEntry) :
    (s.log e).blocks + (s.modifyLog e f).logBlocks = (f (s.log e)).blocks + s.logBlocks := by
  have hm : (fun i => ((s.modifyLog e f).log i).blocks) =
      upd (fun i => (s.log i).blocks) e (f (s.log e)).blocks := by
    funext i
    by_cases hi : i = e
    · subst hi
      simp [State.modifyLog]
    · simp [State.modifyLog, upd_ne _ _ hi]
  have h := map_range_upd (fun i => (s.log i).blocks) (f (s.log e)).blocks he
  have hs := congrArg Multiset.join h
  rw [Multiset.join_cons, Multiset.join_cons, ← hm] at hs
  exact hs

theorem State.mapBlocks_upd (s : State α) {l : Nat} (hl : l < d.type.userblocks) (b : Nat) :
    s.map l ::ₘ State.mapBlocks d { s with map := upd s.map l b } = b ::ₘ s.mapBlocks d :=
  map_range_upd s.map b hl

namespace Cxt

theorem poolIdx_lt {c : Cxt} (hc : c.nextfreeidx < 0x14) {i : Nat} (hi : i < 0x14) :
    c.poolIdx i < 0x14 := by
  unfold poolIdx
  split <;> omega

theorem poolIdx_inj {c : Cxt} {i j : Nat} (hi : i < 0x14) (hj : j < 0x14)
    (h : c.poolIdx i = c.poolIdx j) : i = j := by
  unfold poolIdx at h
  split at h <;> split at h <;> omega

theorem poolIdx_zero {c : Cxt} (hc : c.nextfreeidx < 0x14) : c.poolIdx 0 = c.nextfreeidx := by
  unfold poolIdx
  split <;> omega

/-- The ring after `ftl_release_pool_block`. -/
def released (b : Nat) (c : Cxt) : Cxt :=
  { c with blockpool := upd c.blockpool (c.poolIdx c.freecount) b, freecount := c.freecount + 1 }

theorem poolBlocks_released {c : Cxt} (hf : c.freecount < 0x14) (b : Nat) :
    (c.released b).poolBlocks = b ::ₘ c.poolBlocks := by
  have hidx : ∀ i, (c.released b).poolIdx i = c.poolIdx i := fun _ => rfl
  unfold poolBlocks
  rw [show (c.released b).freecount = c.freecount + 1 from rfl, Multiset.range_succ,
    Multiset.map_cons, hidx]
  congr 1
  · exact upd_self _ _ _
  · refine Multiset.map_congr rfl fun i hi => ?_
    have hi := Multiset.mem_range.1 hi
    rw [hidx]
    refine upd_ne _ _ fun he => ?_
    have := poolIdx_inj (by omega) (by omega) he
    omega

end Cxt

/-- A block in hand goes back to the pool. -/
theorem Owned.released {b : Nat} (h : Owned d s (b ::ₘ hand)) :
    Owned d (s.modifyCxt (Cxt.released b)) hand := by
  have hcount := h.count
  rw [Multiset.card_cons] at hcount
  unfold Owned at h ⊢
  rw [← h]
  show s.mapBlocks d + s.logBlocks + (s.cxt.released b).poolBlocks + s.cxt.ctrlBlocks + hand = _
  rw [Cxt.poolBlocks_released (by omega)]
  simp only [← Multiset.singleton_add]
  abel

namespace Cxt

/-- The ring after `ftl_allocate_pool_block` took the block at `idx`. -/
def taken (idx : Nat) (c : Cxt) : Cxt :=
  { c with
    blockpool := upd (upd c.blockpool idx (c.blockpool c.nextfreeidx)) c.nextfreeidx
      (c.blockpool idx)
    nextfreeidx := if c.nextfreeidx + 1 = 0x14 then 0 else c.nextfreeidx + 1
    freecount := c.freecount - 1 }

theorem taken_nextfreeidx_lt {c : Cxt} (hc : c.nextfreeidx < 0x14) (idx : Nat) :
    (c.taken idx).nextfreeidx < 0x14 := by
  show (if c.nextfreeidx + 1 = 0x14 then 0 else c.nextfreeidx + 1) < 0x14
  split <;> omega

/-- Taking the block at index `idx` of the ring takes one block off the pool: it changes places
with the first one, and the ring starts behind it. -/
theorem poolBlocks_taken {c : Cxt} (hc : c.nextfreeidx < 0x14) (hf : c.freecount ≤ 0x14) {i : Nat}
    (hi : i < c.freecount) :
    c.poolBlocks = c.blockpool (c.poolIdx i) ::ₘ (c.taken (c.poolIdx i)).poolBlocks := by
  let f := fun k => c.blockpool (c.poolIdx k)
  let g := upd (upd f i (f 0)) 0 (f i)
  have hswap : (Multiset.range c.freecount).map g = (Multiset.range c.freecount).map f := by
    have h1 := map_range_upd f (f 0) hi
    have h2 := map_range_upd (upd f i (f 0)) (f i) (show 0 < c.freecount by omega)
    have h0 : upd f i (f 0) 0 = f 0 := by
      by_cases h : 0 = i
      · rw [← h, upd_self]
      · exact upd_ne _ _ h
    rw [h0, h1] at h2
    exact (Multiset.cons_inj_right _).1 h2
  have hg : ∀ k, k < 0x14 → g k =
      upd (upd c.blockpool (c.poolIdx i) (c.blockpool c.nextfreeidx)) c.nextfreeidx
        (c.blockpool (c.poolIdx i)) (c.poolIdx k) := by
    intro k hk
    have hz : c.poolIdx 0 = c.nextfreeidx := poolIdx_zero hc
    by_cases h0 : k = 0
    · subst h0
      rw [hz, upd_self]
      exact upd_self _ _ _
    · have hne : c.poolIdx k ≠ c.nextfreeidx := by
        intro he
        exact h0 (poolIdx_inj hk (by omega) (he.trans hz.symm))
      rw [upd_ne _ _ hne]
      show upd (upd f i (f 0)) 0 (f i) k = _
      rw [upd_ne _ _ h0]
      by_cases hki : k = i
      · subst hki
        rw [upd_self, upd_self]
        show c.blockpool (c.poolIdx 0) = _
        rw [hz]
      · rw [upd_ne _ _ hki, upd_ne]
        intro he
        exact hki (poolIdx_inj hk (by omega) he)
  have hnext : ∀ k, k + 1 < 0x14 → (c.taken (c.poolIdx i)).poolIdx k = c.poolIdx (k + 1) := by
    intro k hk
    show (if 0x14 ≤ (if c.nextfreeidx + 1 = 0x14 then 0 else c.nextfreeidx + 1) + k then
        (if c.nextfreeidx + 1 = 0x14 then 0 else c.nextfreeidx + 1) + k - 0x14
      else (if c.nextfreeidx + 1 = 0x14 then 0 else c.nextfreeidx + 1) + k) = _
    unfold poolIdx
    split <;> split <;> split <;> omega
  obtain ⟨n, hn⟩ : ∃ n, c.freecount = n + 1 := ⟨c.freecount - 1, by omega⟩
  have hlist : (Multiset.range (n + 1)).map g = g 0 ::ₘ (Multiset.range n).map fun k => g (k + 1) := by
    show ((List.range (n + 1)).map g : Multiset Nat) = _
    rw [List.range_succ_eq_map, List.map_cons, List.map_map]
    rfl
  show (Multiset.range c.freecount).map f = _
  rw [← hswap, hn, hlist]
  refine congrArg₂ Multiset.cons (upd_self _ _ _) ?_
  show _ = (Multiset.range (c.taken (c.poolIdx i)).freecount).map _
  rw [show (c.taken (c.poolIdx i)).freecount = n from by show c.freecount - 1 = n; omega]
  refine Multiset.map_congr rfl fun k hk => ?_
  have hk := Multiset.mem_range.1 hk
  rw [hnext k (by omega), hg (k + 1) (by omega)]
  rfl

end Cxt

end Ftl
end Freemyipod
