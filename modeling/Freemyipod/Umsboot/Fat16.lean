import Freemyipod.Format.Mkfat32

/-!
# Umsboot.Fat16

The FAT16 that umsboot lays out on its RAM disk, one sector a cluster: how many sectors
`fat16_calc_fatsectors` gives the table.

* `Target`: the players umsboot is built for, with their `target.h`.
* `fat16_iff`: the loop ends with a table that is large enough.
* `fatSize_iff`: the same question for both loops of the firmware that size a table.
-/

namespace Freemyipod
namespace Umsboot

open While Mkfat32

inductive Target where
  | ipodnano2g
  | ipodnano4g
  | ipodclassic
  deriving DecidableEq, Repr

namespace Target

/-- `RAMDISK_SECTORSIZE` -/
def sectorsize : Target → UInt32
  | ipodnano2g => 2048
  | ipodnano4g => 4096
  | ipodclassic => 4096

/-- `RAMDISK_SECTORS` -/
def sectors : Target → UInt32
  | ipodnano2g => 16384
  | ipodnano4g => 8192
  | ipodclassic => 16384

end Target

variable (t : Target) (sectors : UInt32)

/-- The body of the loop of `fat16_calc_fatsectors`. -/
def fat16Turn (s : Sizes) : Sizes :=
  let clustercount := sectors - s.fatsectors - 2
  ⟨(2 * (clustercount + 2) + t.sectorsize - 1) / t.sectorsize, s.fatsectors, clustercount⟩

/-- `fat16_calc_fatsectors` returns `fatsectors`. -/
def Fat16CalcFatsectors (fatsectors : UInt32) : Prop :=
  ∃ s, Ends Sizes.changing (fat16Turn t sectors) Sizes.init s ∧ s.fatsectors = fatsectors

/-- The table has two bytes for every cluster of the sectors behind it and the two reserved ones;
the first cluster has the number 2. -/
def Room (fatsectors : UInt32) : Prop :=
  ∀ i, i + (fatsectors.toNat + 2) < sectors.toNat →
    2 * (i + 2) + 2 ≤ fatsectors.toNat * t.sectorsize.toNat

/-! ### One turn -/

/-- The entries in a sector of the table. -/
def perSector : Int := t.sectorsize.toNat / 2

/-- What a turn computes, before it is cut to 32 bits. -/
def size (z : Int) : Int := share (sectors.toNat - 1) (perSector t) z

variable {t sectors} {s : Sizes}

theorem perSector_eq : perSector t = 1024 ∨ perSector t = 2048 := by
  cases t
  · exact .inl rfl
  · exact .inr rfl
  · exact .inr rfl

theorem fat16Turn_eq (hs : sectors.toNat < 2147483648) (hf : s.fatsectors.toNat < 2097152)
    (h : perSector t * size t sectors s.fatsectors.toNat < 2147483648)
    (h0 : 0 ≤ size t sectors s.fatsectors.toNat) :
    (fat16Turn t sectors s).fatsectors.toNat = size t sectors s.fatsectors.toNat := by
  have hmod : (sectors - s.fatsectors - 2 + 2).toNat =
      (4294967296 + sectors.toNat - s.fatsectors.toNat) % 4294967296 := by
    simp only [UInt32.toNat_add, UInt32.toNat_sub, UInt32.reduceToNat]
    omega
  cases t <;>
  · simp only [fat16Turn, Target.sectorsize, UInt32.toNat_div, UInt32.toNat_sub, UInt32.toNat_add,
      UInt32.toNat_mul, UInt32.reduceToNat, hmod]
    simp only [size, share, perSector, Target.sectorsize, UInt32.reduceToNat] at h h0 ⊢
    omega

/-! ### The loop -/

theorem first_eq : size t sectors 1 = 1 + (sectors.toNat - 2) / perSector t := by
  unfold size share
  rw [show (sectors.toNat : Int) - 1 - 1 = sectors.toNat - 2 by omega]

/-- The table's size fits the 32 bits it is computed in. -/
theorem first_bounds (hs : (sectors.toNat : Int) ≤ 2147483649 - perSector t) :
    0 ≤ size t sectors 1 ∧ perSector t * size t sectors 1 < 2147483648 := by
  rw [first_eq]
  obtain h | h := perSector_eq (t := t) <;> rw [h] at hs ⊢ <;> omega

theorem turn_val (hs : (sectors.toNat : Int) ≤ 2147483649 - perSector t)
    (h : Orbit (sectors.toNat - 1) (perSector t) s.val.1) :
    (fat16Turn t sectors s).val = next (share (sectors.toNat - 1) (perSector t)) s.val := by
  have hd := perSector_eq (t := t)
  have hf := first_bounds hs
  have hstep := h.step (by omega) hf.1
  have h1 := h.le
  have h2 := hstep.nonneg
  have h3 := hstep.le
  have hlt : perSector t * size t sectors s.val.1 < 2147483648 ∧ s.val.1 < 2097152 := by
    unfold size at hf ⊢
    obtain hd | hd := hd <;> rw [hd] at hf h1 h3 ⊢ <;> omega
  unfold Sizes.val next at *
  rw [fat16Turn_eq (by omega) (by omega) hlt.1 h2]
  rfl

theorem ends_iff (hs : (sectors.toNat : Int) ≤ 2147483649 - perSector t) :
    (∃ s, Ends Sizes.changing (fat16Turn t sectors) Sizes.init s) ↔
      ¬ (perSector t + 1) ∣ (sectors.toNat - 1 : Int) := by
  have hd := perSector_eq (t := t)
  apply ends_iff_share _ (by omega) (first_bounds hs).1 Sizes.changed_val rfl (by decide)
  intro s h
  exact turn_val hs h

theorem room_of_ends (hs : (sectors.toNat : Int) ≤ 2147483649 - perSector t)
    (h : Ends Sizes.changing (fat16Turn t sectors) Sizes.init s) : Room t sectors s.fatsectors := by
  have hd := perSector_eq (t := t)
  obtain ⟨hfix, _⟩ := ends_share_fixed (fun _ h => turn_val hs h) (by omega) (first_bounds hs).1
    Sizes.changed_val rfl (by decide) h
  have hsize := (share_eq_iff (by omega)).1 hfix
  have hsector : (t.sectorsize.toNat : Int) = 2 * perSector t := by
    cases t <;> rfl
  intro i hi
  unfold Sizes.val at hsize
  zify
  rw [hsector]
  obtain hd | hd := hd <;> rw [hd] at hsize ⊢ <;> omega

/-- A disk so large that the first size wraps around to nothing: the loop ends with no table. -/
theorem ends_of_large (hs : sectors.toNat < 2147483648)
    (h : 2147483649 - perSector t < sectors.toNat) :
    ∃ s, Ends Sizes.changing (fat16Turn t sectors) Sizes.init s ∧ s.fatsectors = 0 := by
  have hturn : ∀ s : Sizes, s.fatsectors = 0 ∨ s.fatsectors = 1 →
      (fat16Turn t sectors s).fatsectors = 0 := by
    intro s hz
    have hf : s.fatsectors.toNat ≤ 1 := by
      obtain hz | hz := hz <;> rw [hz] <;> decide
    have hmod : (sectors - s.fatsectors - 2 + 2).toNat =
        (4294967296 + sectors.toNat - s.fatsectors.toNat) % 4294967296 := by
      simp only [UInt32.toNat_add, UInt32.toNat_sub, UInt32.reduceToNat]
      omega
    rw [← UInt32.toNat_inj]
    cases t <;>
    · simp only [perSector, Target.sectorsize, UInt32.reduceToNat] at h
      simp only [fat16Turn, Target.sectorsize, UInt32.toNat_div, UInt32.toNat_sub,
        UInt32.toNat_add, UInt32.toNat_mul, UInt32.reduceToNat, hmod]
      omega
  have h1 := hturn Sizes.init (.inr rfl)
  have h2 := hturn _ (.inl h1)
  refine ⟨_, .turn rfl (.turn ?_ (.done ?_)), h2⟩
  · simp only [Sizes.changing, h1]
    rfl
  · simp only [Sizes.changing, h2]
    rw [show (fat16Turn t sectors (fat16Turn t sectors Sizes.init)).oldfatsectors =
      (fat16Turn t sectors Sizes.init).fatsectors from rfl, h1]
    rfl

theorem fat16_iff (hs : sectors.toNat < 2147483648) :
    (∃ fatsectors, Fat16CalcFatsectors t sectors fatsectors ∧ Room t sectors fatsectors) ↔
      sectors.toNat + t.sectorsize.toNat / 2 ≤ 2147483649 ∧
        sectors.toNat % (t.sectorsize.toNat / 2 + 1) ≠ 1 := by
  have hper : perSector t = (t.sectorsize.toNat / 2 : Nat) := by
    unfold perSector
    omega
  have hdvd : (perSector t + 1) ∣ (sectors.toNat - 1 : Int) ↔
      sectors.toNat % (t.sectorsize.toNat / 2 + 1) = 1 := by
    rw [Int.dvd_iff_emod_eq_zero, hper]
    cases t <;> simp only [Target.sectorsize, UInt32.reduceToNat] <;> omega
  by_cases hle : (sectors.toNat : Int) ≤ 2147483649 - perSector t
  · have hends := ends_iff hle
    rw [hdvd] at hends
    constructor
    · rintro ⟨_, ⟨s, hs, _⟩, _⟩
      exact ⟨by omega, hends.1 ⟨s, hs⟩⟩
    · rintro ⟨_, hmod⟩
      obtain ⟨s, hs⟩ := hends.2 hmod
      exact ⟨_, ⟨s, hs, rfl⟩, room_of_ends hle hs⟩
  · constructor
    · rintro ⟨_, ⟨s, hend, rfl⟩, hroom⟩
      obtain ⟨s', hend', hzero⟩ := ends_of_large hs (t := t) (by omega)
      rw [hend.unique hend', hzero] at hroom
      have := hroom 0 (by simp; have := perSector_eq (t := t); omega)
      simp at this
    · rintro ⟨h, _⟩
      omega

/-- The RAM disks that umsboot has. -/
theorem fat16_ramdisk : ∃ fatsectors, Fat16CalcFatsectors t t.sectors fatsectors ∧
    Room t t.sectors fatsectors := by
  cases t <;> exact (fat16_iff (by decide)).2 (by decide)

/-! ### Both loops that size a table -/

theorem fatSize_iff {totalsectors : UInt32} {a b : Nat} (ha : 9 ≤ a) (ha' : a ≤ 30) (hb : b ≤ 30)
    (hs : sectors.toNat < 2147483648) :
    ((∃ s, Sized totalsectors (.ofNat (2 ^ a)) (.ofNat (2 ^ b)) s) ↔
      ¬ Alternates totalsectors.toNat (2 ^ a) (2 ^ b)) ∧
    ((∃ fatsectors, Fat16CalcFatsectors t sectors fatsectors ∧ Room t sectors fatsectors) ↔
      sectors.toNat + t.sectorsize.toNat / 2 ≤ 2147483649 ∧
        sectors.toNat % (t.sectorsize.toNat / 2 + 1) ≠ 1) :=
  ⟨mkfat32_ends_iff ha ha' hb, fat16_iff hs⟩

/-- A volume that is formatted, and the RAM disk of the nano2g. -/
theorem fatSize_formatted :
    (∃ s, Sized 100000 (.ofNat (2 ^ 9)) (.ofNat (2 ^ 3)) s) ∧
    ∃ fatsectors, Fat16CalcFatsectors .ipodnano2g 16384 fatsectors ∧
      Room .ipodnano2g 16384 fatsectors := by
  have h := @fatSize_iff .ipodnano2g 16384 100000 9 3 (by decide) (by decide) (by decide)
    (by decide)
  exact ⟨h.1.2 (by decide), h.2.2 (by decide)⟩

/-- 129 sectors of 512 bytes: two sectors of table for 126 clusters, one for 125. The same at 1026
sectors of the RAM disk. -/
theorem sizes_alternate :
    (¬ ∃ s, Sized 129 (.ofNat (2 ^ 9)) (.ofNat (2 ^ 0)) s) ∧
    ¬ ∃ fatsectors, Fat16CalcFatsectors .ipodnano2g 1026 fatsectors := by
  constructor
  · rw [mkfat32_ends_iff (by decide) (by decide) (by decide)]
    decide
  · rintro ⟨_, s, hs, _⟩
    have hends := (@ends_iff .ipodnano2g 1026 (by decide)).1 ⟨s, hs⟩
    exact hends (by decide)

end Umsboot
end Freemyipod
