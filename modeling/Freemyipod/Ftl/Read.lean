import Freemyipod.Ftl.Pool

/-!
# Ftl.Read

What `ftl_read` gives for each sector asked for. Sectors that lie side by side on all banks, in a
block without a log entry, are read together, and then an erased page is not told from one that
holds its bytes.

* `Together`, `Between`: where the loop reads together, and that it does not start inside a group.
* `Read out i buffer r`: after turns for the first `i` sectors, read as `out` says.
* `ftlRead_spec`, `ftlRead_logged`, `ftlRead_one`: the whole call, a call for a block with a log
  entry, and a call for one sector.
-/

namespace Freemyipod
namespace Ftl

open Effect

variable {α : Type} {d : Device} {s t : State α} {hand : Multiset Nat}

/-- What a page reads as: its data, and whether reading it reports an error. -/
def readsAs (o : Option (Page α)) : Payload α × Bool :=
  match o with
  | none => (.zeros, false)
  | some p => if p.spare.eccmark ≠ 0xFF then (.zeros, true) else (p.data, false)

/-- What it reads as together with those of the other banks. -/
def readsRaw (o : Option (Page α)) : Payload α × Bool :=
  match o with
  | none => (.ones, false)
  | some p => readsAs (some p)

namespace State

/-- The page that a sector is read from. -/
def source (d : Device) (s : State α) (k : Nat) : Option (Page α) :=
  s.nand (s.abspage d (k / d.ppb) (k % d.ppb))

theorem sector_eq (s : State α) (k : Nat) : s.sector d k = readsAs (s.source d k) := rfl

theorem sector_eq_nand (s : State α) (k : Nat) :
    s.sector d k = readsAs (s.nand (s.abspage d (k / d.ppb) (k % d.ppb))) := rfl

end State

/-- A step that leaves the map, the log and the blocks behind them alone. -/
theorem Inv.source_of_frame (h : Inv d s hand) (hmap : t.map = s.map) (hlog : t.log = s.log)
    (hnand : ∀ p, p / d.ppb ∈ s.mapBlocks d ∨ p / d.ppb ∈ s.logBlocks → t.nand p = s.nand p)
    {k : Nat} (hk : k < d.sectors) : t.source d k = s.source d k := by
  have hb := h.abspage_busy (Device.sector_block hk) (Device.mod_lt_ppb k)
  unfold State.source
  rw [State.abspage_congr hlog (by rw [hmap]), hnand _ hb]

theorem readsRaw_error (o : Option (Page α)) : (readsRaw o).2 = (readsAs o).2 := by
  cases o <;> rfl

/-- An unreadable page gives zeros. -/
theorem readsAs_bad {o : Option (Page α)} (h : (readsAs o).2 = true) :
    readsAs o = (.zeros, true) := by
  cases o with
  | none => cases h
  | some p =>
    unfold readsAs at h ⊢
    by_cases he : p.spare.eccmark ≠ 0xFF
    · simp only [if_pos he]
    · simp only [if_neg he] at h
      cases h

theorem readsRaw_bad {o : Option (Page α)} (h : (readsRaw o).2 = true) :
    readsRaw o = (.zeros, true) := by
  cases o with
  | none => cases h
  | some p => exact readsAs_bad h

theorem vflRead_none {nand : Nat → Option (Page α)} {a c : Nat} (ha : a < d.vblocks * d.ppb)
    (hn : nand a = none) : vflRead d nand a c = (if c = 1 then 2 else 0x110, .ones, .blank) := by
  unfold vflRead
  rw [if_neg (by omega), hn]

theorem vflRead_some {nand : Nat → Option (Page α)} {a c : Nat} (ha : a < d.vblocks * d.ppb)
    {p : Page α} (hn : nand a = some p) : vflRead d nand a c = (0, p.data, p.spare) := by
  unfold vflRead
  rw [if_neg (by omega), hn]

/-! ## Where the pages are -/

/-- The map and the log lead to pages there are. -/
structure Mapped (d : Device) (s : State α) : Prop where
  map_lt : ∀ b < d.type.userblocks, s.map b < d.vblocks
  scattered_lt : ∀ e < 0x11, (s.log e).Used → (s.log e).scatteredvblock < d.vblocks
  offset_lt : ∀ e < 0x11, (s.log e).Used → ∀ p < d.ppb, (s.log e).pageoffsets p ≠ 0xFFFF →
    (s.log e).pageoffsets p < d.ppb

theorem Inv.mapping (h : Inv d s hand) : Mapped d s where
  map_lt _ hb := h.owned.map_lt hb
  scattered_lt _ he hu := h.owned.log_lt he hu
  offset_lt _ he hu _ hp ho := (h.entry _ he hu).offset_lt_ppb hp ho

theorem Mapped.abspage_lt (h : Mapped d s) {l p : Nat} (hl : l < d.type.userblocks)
    (hp : p < d.ppb) : s.abspage d l p < d.vblocks * d.ppb := by
  cases hg : s.getLogEntry l with
  | none =>
    rw [State.abspage_of_none hg]
    exact Device.page_lt (h.map_lt l hl) hp
  | some e =>
    obtain ⟨he, hu, -⟩ := State.getLogEntry_some hg
    rw [State.abspage_of_some hg]
    split
    case isTrue ho => exact Device.page_lt (h.scattered_lt e he hu) (h.offset_lt e he hu p hp ho)
    case isFalse => exact Device.page_lt (h.map_lt l hl) hp

/-- The pages of a bank group belong to one block. -/
theorem bank_group {k j : Nat} (hk : k % d.ppb % d.banks = 0) (hj : j < d.banks) :
    (k + j) / d.ppb = k / d.ppb ∧ (k + j) % d.ppb = k % d.ppb + j ∧ k % d.ppb + j < d.ppb := by
  obtain ⟨m, hm⟩ := d.banks_dvd
  obtain ⟨q, hq⟩ := Nat.dvd_of_mod_eq_zero hk
  have hlt := Device.mod_lt_ppb (d := d) k
  have hqm : q < m := by
    rw [hq, hm] at hlt
    exact Nat.lt_of_mul_lt_mul_left hlt
  have hle : d.banks * q + d.banks ≤ d.banks * m := by
    rw [← Nat.mul_succ]
    exact Nat.mul_le_mul_left _ hqm
  have hin : k % d.ppb + j < d.ppb := by
    rw [hq, hm]
    omega
  have hsum : k + j = k / d.ppb * d.ppb + (k % d.ppb + j) := by
    have := Device.eq_block_page (d := d) k
    omega
  exact ⟨by rw [hsum]; exact Device.block_page hin, by rw [hsum]; exact Device.page_page hin, hin⟩

/-- The sectors from `i` on are read together, one on each bank. -/
def Together (d : Device) (s : State α) (sector count i : Nat) : Prop :=
  i + d.banks ≤ count ∧ (sector + i) % d.banks = 0 ∧
    s.getLogEntry ((sector + i) / d.ppb) = none

instance (sector count i : Nat) : Decidable (Together d s sector count i) :=
  inferInstanceAs (Decidable (_ ∧ _ ∧ _))

/-- The loop stands at the start of a group, or after one that was not read together. -/
def Between (d : Device) (s : State α) (sector count i : Nat) : Prop :=
  (sector + i) % d.banks ≤ i →
    Together d s sector count (i - (sector + i) % d.banks) → (sector + i) % d.banks = 0

/-- The sector at `i` is read together with others. -/
def InGroup (d : Device) (s : State α) (sector count i : Nat) : Prop :=
  (sector + i) % d.banks ≤ i ∧ Together d s sector count (i - (sector + i) % d.banks)

instance (sector count i : Nat) : Decidable (InGroup d s sector count i) :=
  inferInstanceAs (Decidable (_ ∧ _))

section Group

variable {sector count i j : Nat}

/-- Inside a group that is read together the bank number counts from its first sector. -/
theorem group_mod (hf : Together d s sector count i) (hj : j < d.banks) :
    (sector + (i + j)) % d.banks = j := by
  rw [← Nat.add_assoc, Nat.add_mod, hf.2.1, Nat.zero_add, Nat.mod_mod, Nat.mod_eq_of_lt hj]

/-- The pages of the sectors that are read together lie side by side. -/
theorem Mapped.group (h : Mapped d s) (hk : sector + count ≤ d.sectors)
    (hf : Together d s sector count i) :
    let a := fun i => s.abspage d ((sector + i) / d.ppb) ((sector + i) % d.ppb)
    a i + d.banks ≤ d.vblocks * d.ppb ∧ a i % d.banks = 0 ∧ ∀ j < d.banks, a (i + j) = a i + j := by
  have hpos := d.banks_cases
  obtain ⟨hend, hbank, hnone⟩ := hf
  have hki : sector + i < d.sectors := by omega
  have hmod : (sector + i) % d.ppb % d.banks = 0 := by rwa [Nat.mod_mod_of_dvd _ d.banks_dvd]
  have hfirst : s.abspage d ((sector + i) / d.ppb) ((sector + i) % d.ppb) =
      s.map ((sector + i) / d.ppb) * d.ppb + (sector + i) % d.ppb := State.abspage_of_none hnone _
  refine ⟨?_, ?_, fun j hj => ?_⟩
  · have hlast := (bank_group hmod (show d.banks - 1 < d.banks by omega)).2.2
    have hlt := Device.page_lt (h.map_lt _ (Device.sector_block hki)) hlast
    show s.abspage d _ _ + _ ≤ _
    rw [hfirst]
    omega
  · obtain ⟨m, hm⟩ := d.banks_dvd
    show s.abspage d _ _ % _ = 0
    rw [hfirst, hm, Nat.mul_left_comm, Nat.mul_add_mod, ← hm, hmod]
  · obtain ⟨hdiv, hpage, -⟩ := bank_group hmod hj
    show s.abspage d _ _ = s.abspage d _ _ + j
    rw [hfirst, ← Nat.add_assoc, hdiv, hpage, State.abspage_of_none hnone, Nat.add_assoc]

theorem Together.inGroup (hf : Together d s sector count i) (hj : j < d.banks) :
    InGroup d s sector count (i + j) := by
  have hsub : i + j - j = i := by omega
  rw [InGroup, group_mod hf hj, hsub]
  exact ⟨by omega, hf⟩

theorem between_start (d : Device) (s : State α) (sector count : Nat) :
    Between d s sector count 0 := by
  intro hle _
  omega

theorem between_group (hf : Together d s sector count i) :
    Between d s sector count (i + d.banks) := by
  intro _ _
  rw [← Nat.add_assoc, Nat.add_mod_right]
  exact hf.2.1

theorem between_succ (hb : Between d s sector count i) (hf : ¬ Together d s sector count i) :
    Between d s sector count (i + 1) := by
  intro hle htogether
  have hpos := d.banks_cases
  by_contra hne
  have hstep : (sector + (i + 1)) % d.banks = (sector + i) % d.banks + 1 := by
    have hlt : (sector + i) % d.banks < d.banks := Nat.mod_lt _ (by omega)
    have hsum : (sector + (i + 1)) % d.banks = ((sector + i) % d.banks + 1) % d.banks := by
      rw [← Nat.add_assoc, Nat.mod_add_mod]
    rcases Nat.lt_or_ge ((sector + i) % d.banks + 1) d.banks with h | h
    · rw [hsum, Nat.mod_eq_of_lt h]
    · have heq : (sector + i) % d.banks + 1 = d.banks := by omega
      rw [hsum, heq, Nat.mod_self] at hne
      exact absurd rfl hne
  rw [hstep] at hle htogether
  have hsub : i + 1 - ((sector + i) % d.banks + 1) = i - (sector + i) % d.banks := by omega
  rw [hsub] at htogether
  have hzero := hb (by omega) htogether
  rw [hzero, Nat.sub_zero] at htogether
  exact hf htogether

theorem Between.not_inGroup (hb : Between d s sector count i)
    (hf : ¬ Together d s sector count i) : ¬ InGroup d s sector count i := by
  rintro ⟨hle, htogether⟩
  have hzero := hb hle htogether
  rw [hzero, Nat.sub_zero] at htogether
  exact hf htogether

/-- A block with a log entry is read page by page. -/
theorem not_inGroup_of_logged (hg : s.getLogEntry ((sector + i) / d.ppb) ≠ none) : ¬ InGroup d s sector count i := by
  rintro ⟨hle, -, hbank, hnone⟩
  have hpos : 0 < d.banks := by
    have := d.banks_cases
    omega
  have hlt : (sector + i) % d.banks < d.banks := Nat.mod_lt _ hpos
  have hmod : (sector + (i - (sector + i) % d.banks)) % d.ppb % d.banks = 0 := by
    rwa [Nat.mod_mod_of_dvd _ d.banks_dvd]
  have hdiv := (bank_group hmod hlt).1
  have hsum : sector + (i - (sector + i) % d.banks) + (sector + i) % d.banks = sector + i := by
    omega
  rw [hsum] at hdiv
  rw [← hdiv] at hnone
  exact hg hnone

end Group

/-! ## Reading a range -/

/-- The buffer and the return code once the first `i` sectors are read, each as `out` says. -/
structure Read (out : Nat → Payload α × Bool) (i : Nat) (buffer : Nat → Payload α)
    (r : Reading α) : Prop where
  data : ∀ j < i, r.buffer j = (out j).1
  rest : ∀ j, i ≤ j → r.buffer j = buffer j
  error : r.error ≠ 0 ↔ ∃ j < i, (out j).2 = true

namespace Read

variable {out : Nat → Payload α × Bool} {i : Nat} {buffer : Nat → Payload α} {r : Reading α}

/-- One more page, whatever the code an unreadable page gives. -/
theorem store (h : Read out i buffer r) {empty failed : Bool} {data : Payload α}
    {code : Int} (hcode : code ≠ 0)
    (hp : out i =
      if empty then (.zeros, false) else if failed then (.zeros, true) else (data, false)) :
    Read out (i + 1) buffer (r.store i empty failed data code) := by
  have hdata : ∀ v : Payload α, v = (out i).1 → ∀ j < i + 1, upd r.buffer i v j = (out j).1 := by
    intro v hv j hj
    by_cases hji : j = i
    · rw [hji, upd_self, hv]
    · rw [upd_ne _ _ hji]
      exact h.data j (by omega)
  have hrest : ∀ v : Payload α, ∀ j, i + 1 ≤ j → upd r.buffer i v j = buffer j := by
    intro v j hj
    rw [upd_ne _ _ (by omega)]
    exact h.rest j (by omega)
  have hgood : (out i).2 = false → (r.error ≠ 0 ↔ ∃ j < i + 1, (out j).2 = true) := by
    intro hf
    rw [h.error]
    constructor
    · rintro ⟨j, hj, hb⟩
      exact ⟨j, by omega, hb⟩
    · rintro ⟨j, hj, hb⟩
      refine ⟨j, ?_, hb⟩
      by_contra hge
      rw [show j = i by omega, hf] at hb
      cases hb
  unfold Reading.store
  split
  · rename_i he
    rw [if_pos he] at hp
    exact ⟨hdata _ (by rw [hp]), hrest _, hgood (by rw [hp])⟩
  · rename_i he
    rw [if_neg he] at hp
    split
    · rename_i hf
      rw [if_pos hf] at hp
      refine ⟨hdata _ (by rw [hp]), hrest _, fun _ => ⟨i, by omega, by rw [hp]⟩, fun _ => hcode⟩
    · rename_i hf
      rw [if_neg hf] at hp
      exact ⟨hdata _ (by rw [hp]), hrest _, hgood (by rw [hp])⟩

theorem congr {out' : Nat → Payload α × Bool} (h : Read out i buffer r)
    (hout : ∀ j < i, out' j = out j) : Read out' i buffer r where
  data j hj := by rw [h.data j hj, hout j hj]
  rest := h.rest
  error := by
    rw [h.error]
    exact exists_congr fun j => and_congr_right fun hj => by rw [hout j hj]

end Read

/-- The tests of `ftl_read` on a page read on its own. -/
theorem readsAs_vflRead {nand : Nat → Option (Page α)} {a : Nat} (ha : a < d.vblocks * d.ppb) :
    readsAs (nand a) =
      if decide ((vflRead d nand a 1).1 &&& 2 ≠ 0) then (.zeros, false)
      else if decide ((vflRead d nand a 1).1 &&& 0x11D ≠ 0 ∨
          (vflRead d nand a 1).2.2.eccmark ≠ 0xFF) then (.zeros, true)
      else ((vflRead d nand a 1).2.1, false) := by
  cases hn : nand a with
  | none =>
    rw [vflRead_none ha hn]
    simp [readsAs]
  | some p =>
    rw [vflRead_some ha hn]
    simp [readsAs]

/-- Its tests on a page read together with others. -/
theorem readsRaw_vflReadFast {nand : Nat → Option (Page α)} {a j : Nat}
    (ha : a + d.banks ≤ d.vblocks * d.ppb) (hj : j < d.banks) (buffer : Nat → Payload α) :
    readsRaw (nand (a + j)) =
      if decide ((vflReadFast d nand a 1 buffer j).1 &&& 2 ≠ 0) then (.zeros, false)
      else if decide ((vflReadFast d nand a 1 buffer j).1 &&& 0xd ≠ 0 ∨
          (vflReadFast d nand a 1 buffer j).2.2.eccmark ≠ 0xFF) then (.zeros, true)
      else ((vflReadFast d nand a 1 buffer j).2.1, false) := by
  have hfast : vflReadFast d nand a 1 buffer j = (0, (vflRead d nand (a + j) 1).2) := by
    unfold vflReadFast
    rw [if_neg (by omega)]
  rw [hfast]
  cases hn : nand (a + j) with
  | none =>
    rw [vflRead_none (by omega) hn]
    simp [readsRaw, Spare.blank]
  | some p =>
    rw [vflRead_some (by omega) hn]
    simp [readsRaw, readsAs]

/-- What a call reads at `i`, and whether it reports an error for it. -/
def outAt (d : Device) (s : State α) (sector count i : Nat) : Payload α × Bool :=
  if InGroup d s sector count i then readsRaw (s.source d (sector + i)) else s.sector d (sector + i)

section Loop

variable {sector count : Nat} {buffer : Nat → Payload α}

/-- The banks of one fast read. -/
theorem readBanks_spec {out : Nat → Payload α × Bool} {i abspage : Nat} {r : Reading α}
    (hr : Read out i buffer r) (hrange : abspage + d.banks ≤ d.vblocks * d.ppb)
    (hpage : ∀ j < d.banks, out (i + j) = readsRaw (s.nand (abspage + j))) :
    ∀ j ≤ d.banks, Read out (i + j) buffer (readBanks d s.nand abspage i r j) := by
  intro j
  induction j with
  | zero => intro _; exact hr
  | succ j ih =>
    intro hj
    refine (ih (by omega)).store (by decide) ?_
    rw [hpage j (by omega)]
    exact readsRaw_vflReadFast hrange (by omega) _

theorem readLoop_spec (hs : Mapped d s) (hrange : sector + count ≤ d.sectors) :
    ∀ n i (r : Reading α), i ≤ count → count ≤ i + n → Between d s sector count i →
      Read (outAt d s sector count) i buffer r →
      Read (outAt d s sector count) count buffer (readLoop d s sector count n i r) := by
  intro n
  induction n with
  | zero =>
    intro i r hi hn _ hr
    rw [show count = i by omega]
    rw [show count = i by omega] at hr
    exact hr
  | succ n ih =>
    intro i r hi hn hb hr
    have hlt := d.sectors_lt
    by_cases hdone : count ≤ i
    · have heq : i = count := by omega
      rw [heq] at hr
      rw [show readLoop d s sector count (n + 1) i r = r from if_pos hdone]
      exact hr
    · have hk : sector + i < d.sectors := by omega
      have hwrap : wrap (sector + i) = sector + i := Nat.mod_eq_of_lt (by omega)
      have hpos : 0 < d.banks := by
        have := d.banks_cases
        omega
      simp only [readLoop, if_neg hdone, hwrap, Nat.mod_mod_of_dvd _ d.banks_dvd]
      by_cases hf : Together d s sector count i
      · rw [if_pos (show i + d.banks ≤ count ∧ (sector + i) % d.banks = 0 ∧
          s.getLogEntry ((sector + i) / d.ppb) = none from hf)]
        obtain ⟨hlast, -, hside⟩ := hs.group hrange hf
        refine ih _ _ hf.1 (by omega) (between_group hf) ?_
        refine readBanks_spec hr hlast (fun j hj => ?_) _ le_rfl
        rw [outAt, if_pos (hf.inGroup hj), State.source]
        exact congrArg readsRaw (congrArg s.nand (hside j hj))
      · rw [if_neg (show ¬ (i + d.banks ≤ count ∧ (sector + i) % d.banks = 0 ∧
          s.getLogEntry ((sector + i) / d.ppb) = none) from hf)]
        refine ih _ _ (by omega) (by omega) (between_succ hb hf) (hr.store (by decide) ?_)
        rw [outAt, if_neg (hb.not_inGroup hf), State.sector_eq]
        exact readsAs_vflRead (hs.abspage_lt (Device.sector_block hk) (Device.mod_lt_ppb _))

end Loop

section Call

variable {sector count : Nat}

/-- `ftl_read` of sectors inside the device. -/
theorem ftlRead_spec (hs : Mapped d s) (hrange : sector + count ≤ d.sectors)
    (buffer : Nat → Payload α) :
    Read (outAt d s sector count) count buffer (ftlRead d s sector count buffer) := by
  have hlt := d.sectors_lt
  have hwrap : wrap (sector + count) = sector + count := Nat.mod_eq_of_lt (by omega)
  unfold ftlRead
  rw [hwrap, if_neg (by omega)]
  refine readLoop_spec hs hrange count 0 _ (by omega) (by omega)
    (between_start d s sector count) ⟨?_, fun _ _ => rfl, ?_⟩
  · intro j hj
    omega
  · constructor
    · intro hc
      exact absurd rfl hc
    · rintro ⟨j, hj, -⟩
      omega

/-- `ftl_read` of sectors of blocks with log entries. -/
theorem ftlRead_logged (hs : Mapped d s) (hrange : sector + count ≤ d.sectors)
    (hlog : ∀ i < count, s.getLogEntry ((sector + i) / d.ppb) ≠ none) (buffer : Nat → Payload α) :
    Read (fun i => s.sector d (sector + i)) count buffer (ftlRead d s sector count buffer) :=
  (ftlRead_spec hs hrange buffer).congr fun i hi =>
    (if_neg (not_inGroup_of_logged (hlog i hi))).symm

/-- What a call for a sector alone reads. -/
def State.single (d : Device) (s : State α) (k : Nat) : Payload α × Bool :=
  if d.banks = 1 ∧ s.getLogEntry (k / d.ppb) = none then readsRaw (s.source d k) else s.sector d k

theorem State.single_error (s : State α) (k : Nat) : (s.single d k).2 = (s.sector d k).2 := by
  unfold single
  split
  · exact readsRaw_error _
  · rfl

theorem outAt_one {k : Nat} : outAt d s k 1 0 = s.single d k := by
  have hiff : InGroup d s k 1 0 ↔ d.banks = 1 ∧ s.getLogEntry (k / d.ppb) = none := by
    have hpos := d.banks_cases
    simp only [InGroup, Together, Nat.le_zero, Nat.zero_sub, Nat.zero_add, Nat.add_zero]
    constructor
    · rintro ⟨-, hle, -, hnone⟩
      exact ⟨by omega, hnone⟩
    · rintro ⟨hone, hnone⟩
      rw [hone]
      exact ⟨Nat.mod_one k, le_rfl, Nat.mod_one k, hnone⟩
  unfold outAt State.single
  by_cases hin : InGroup d s k 1 0
  · rw [if_pos hin, if_pos (hiff.1 hin), Nat.add_zero]
  · rw [if_neg hin, if_neg fun hc => hin (hiff.2 hc), Nat.add_zero]

theorem ftlRead_one (hs : Mapped d s) {k : Nat} (hk : k < d.sectors) (buffer : Nat → Payload α) :
    (ftlRead d s k 1 buffer).buffer 0 = (s.single d k).1 ∧
      ((ftlRead d s k 1 buffer).error ≠ 0 ↔ (s.sector d k).2 = true) := by
  have hr := ftlRead_spec hs (show k + 1 ≤ d.sectors by omega) buffer
  rw [← s.single_error, ← outAt_one]
  refine ⟨hr.data 0 (by omega), hr.error.trans ⟨?_, fun hb => ⟨0, by omega, hb⟩⟩⟩
  rintro ⟨j, hj, hb⟩
  rw [show j = 0 by omega] at hb
  exact hb

/-- The blocks that the loop looks up in the map. -/
theorem readBlocks_lt (hrange : sector + count ≤ d.sectors) :
    ∀ n i, ∀ block ∈ s.readBlocks d sector count n i, block < d.type.userblocks := by
  intro n
  induction n with
  | zero =>
    intro i block hmem
    cases hmem
  | succ n ih =>
    intro i block hmem
    rw [State.readBlocks] at hmem
    split at hmem
    case isTrue => cases hmem
    case isFalse hi =>
      have hlt := d.sectors_lt
      rcases List.mem_cons.1 hmem with rfl | hrest
      · rw [wrap, Nat.mod_eq_of_lt (by omega)]
        exact Device.sector_block (by omega)
      · exact ih _ block hrest

theorem wp_readSectors (hrange : sector + count ≤ d.sectors) {buffer : Nat → Payload α}
    {Q : Reading α → State α → Prop} :
    Wp (readSectors d sector count buffer) s Q ↔ Q (ftlRead d s sector count buffer) s := by
  have hin : ¬ (¬ d.sectors < wrap (sector + count) ∧
      ∃ block ∈ s.readBlocks d sector count count 0, d.type.userblocks ≤ block) := by
    rintro ⟨-, block, hmem, hle⟩
    have := readBlocks_lt hrange count 0 block hmem
    omega
  simp only [readSectors, wp_bind, wp_get, wp_faultIf, wp_pure]
  exact and_iff_right hin

end Call

theorem wp_mapAt {block : Nat} {Q : Nat → State α → Prop} :
    Wp (mapAt d block) s Q ↔ block < d.type.userblocks ∧ Q (s.map block) s := by
  simp only [mapAt, wp_bind, wp_faultIf, wp_get, wp_pure, Nat.not_le]

theorem wp_setMap {block vblock : Nat} {Q : Unit → State α → Prop} :
    Wp (setMap d block vblock) s Q ↔
      block < d.type.userblocks ∧ Q () { s with map := upd s.map block vblock } := by
  simp only [setMap, wp_bind, wp_faultIf, wp_modify, Nat.not_le]

end Ftl
end Freemyipod
