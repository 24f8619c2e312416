import Mathlib.Data.Nat.ModEq
import Mathlib.Tactic.IntervalCases
import Freemyipod.Lib.Loop

/-!
# Format.Mkfat32

The size that `mkfat32` gives the file allocation table. The clusters are counted from the sectors
that the table leaves over and the table is sized for the clusters, in turn, until its size stays
as it is.

* `Share`: the loop repeats the map `x ↦ 1 + (n - x) / d` of Lib.Loop, which its 32-bit
  arithmetic moves by multiples of `d * 2 ^ 32 / sectorsize`.
* `mkfat32_ends_iff`: the loop ends unless the size alternates between two values.
-/

namespace Freemyipod
namespace Mkfat32

open While

/-- The locals of the loop; `clustercount` is not read before it is set. -/
structure Sizes where
  fatsectors : UInt32
  oldfatsectors : UInt32
  clustercount : UInt32
  deriving DecidableEq, Repr

def reserved : UInt32 := 2

def Sizes.init : Sizes := ⟨1, 0, 0⟩

def Sizes.changing (s : Sizes) : Bool := s.fatsectors != s.oldfatsectors

/-- The body of the loop. Both `int` parameters are converted to `uint32_t` in it. -/
def Sizes.turn (totalsectors sectorsize secperclus : UInt32) (s : Sizes) : Sizes :=
  let clustercount := (totalsectors - s.fatsectors - reserved) / secperclus
  ⟨(clustercount * 4 + sectorsize + 8) / sectorsize, s.fatsectors, clustercount⟩

/-- `mkfat32` up to the table's size: it goes on with the size and the cluster count in `t`. -/
def Sized (totalsectors sectorsize secperclus : UInt32) (t : Sizes) : Prop :=
  Ends Sizes.changing (Sizes.turn totalsectors sectorsize secperclus) Sizes.init t

/-! ### One turn in numbers -/

/-- A volume with `2 ^ a` bytes a sector, `2 ^ b` sectors a cluster; `x` is what `totalsectors`
leaves behind the reserved sectors, `2 ^ 32` when that is nothing. -/
structure Volume where
  a : Nat
  b : Nat
  x : Nat
  ha : 9 ≤ a
  ha' : a ≤ 30
  hb : b ≤ 30
  hx : 1 ≤ x
  hx' : x ≤ 4294967296

namespace Volume

variable (v : Volume)

@[grind =] def d : Nat := 2 ^ v.b * 2 ^ (v.a - 2)

/-- The sizes are taken modulo this. -/
def r : Nat := 2 ^ (32 - v.a)

def n : Nat := v.x + 2 * 2 ^ v.b

/-- How often the first size wraps around. -/
def wraps : Nat := (1 + (v.n - 1) / v.d) / v.r

def n' : Int := v.n - (v.wraps * v.r : Nat) * v.d

variable {v}

theorem two_pow_le {i j : Nat} (h : i ≤ j) : 2 ^ i ≤ 2 ^ j := Nat.pow_le_pow_right (by omega) h

theorem r_bounds : 4 ≤ v.r ∧ v.r ≤ 8388608 := by
  have h1 := two_pow_le (show 2 ≤ 32 - v.a by have := v.ha'; omega)
  have h2 := two_pow_le (show 32 - v.a ≤ 23 by have := v.ha; omega)
  exact ⟨h1, h2⟩

theorem d_ge : 128 * 2 ^ v.b ≤ v.d := by
  have := two_pow_le (show 7 ≤ v.a - 2 by have := v.ha; omega)
  rw [d, Nat.mul_comm]
  exact Nat.mul_le_mul_left _ this

theorem d_mul_r : v.d * v.r = 2 ^ v.b * 1073741824 := by
  have : 2 ^ (v.a - 2) * 2 ^ (32 - v.a) = 1073741824 := by
    rw [← Nat.pow_add, show 1073741824 = 2 ^ 30 from rfl]
    congr 1
    have := v.ha
    have := v.ha'
    omega
  rw [d, r, Nat.mul_assoc, this]

theorem cluster_pos : 0 < 2 ^ v.b := Nat.two_pow_pos _

/-- The size that a turn computes, before it is cut to 32 bits. -/
theorem turn_eq {c : Nat} : (4 * (c / 2 ^ v.b) + 2 ^ v.a + 8) % 4294967296 / 2 ^ v.a =
    (1 + (c + 2 * 2 ^ v.b) / v.d) % v.r := by
  have hwrap : 4294967296 = 2 ^ v.a * v.r := by
    rw [r, ← Nat.pow_add, show v.a + (32 - v.a) = 32 by have := v.ha'; omega]
  have hsector : 2 ^ v.a = 4 * 2 ^ (v.a - 2) := by
    rw [show 4 = 2 ^ 2 from rfl, ← Nat.pow_add, show 2 + (v.a - 2) = v.a by have := v.ha; omega]
  rw [hwrap, Nat.mod_mul_right_div_self]
  congr 1
  rw [show 4 * (c / 2 ^ v.b) + 2 ^ v.a + 8 = 4 * (c / 2 ^ v.b) + 8 + 2 ^ v.a by omega,
    Nat.add_div_right _ (Nat.two_pow_pos _), hsector,
    show 4 * (c / 2 ^ v.b) + 8 = 4 * (c / 2 ^ v.b + 2) by omega,
    Nat.mul_div_mul_left _ _ (by omega), ← Nat.add_mul_div_right _ _ (Nat.two_pow_pos v.b),
    Nat.div_div_eq_div_mul, d, Nat.add_comm]

/-! ### The sizes that the loop goes through -/

def first (v : Volume) : Int := share v.n' v.d 1

theorem d_pos : 2 ≤ (v.d : Int) := by
  have := v.d_ge
  have := v.cluster_pos
  omega

theorem share_wraps {z : Nat} (hz : z ≤ v.n) :
    ((1 + (v.n - z) / v.d : Nat) : Int) = share v.n' v.d z + (v.wraps * v.r : Nat) := by
  have hd := v.d_pos
  rw [← share_add_mul (by omega), n', Int.sub_add_cancel, share]
  push_cast [Nat.cast_sub hz]
  rfl

theorem one_le_n : 1 ≤ v.n := by
  have := v.hx
  unfold n
  omega

theorem first_eq : v.first = ((1 + (v.n - 1) / v.d) % v.r : Nat) := by
  have h := v.share_wraps (z := 1) v.one_le_n
  have hmod := Nat.mod_add_div (1 + (v.n - 1) / v.d) v.r
  rw [Nat.mul_comm] at hmod
  simp only [Nat.cast_one, wraps] at h
  unfold first
  omega

theorem first_bounds : 0 ≤ v.first ∧ v.first < v.r := by
  have := v.r_bounds
  have := Nat.mod_lt (1 + (v.n - 1) / v.d) (show 0 < v.r by omega)
  rw [first_eq]
  omega

/-- The table never takes up more than the sectors there are. -/
theorem first_le : v.first ≤ v.x := by
  have h1 := Nat.mod_le (1 + (v.n - 1) / v.d) v.r
  have h2 : (v.n - 1) / v.d ≤ v.x - 1 := by
    have hd := v.d_ge
    have hc := v.cluster_pos
    have hx := v.hx
    have h1 : 128 * 2 ^ v.b * v.x ≤ v.d * v.x := Nat.mul_le_mul_right _ hd
    have h2 : v.x ≤ 2 ^ v.b * v.x := Nat.le_mul_of_pos_left _ hc
    have h3 : 2 ^ v.b ≤ 2 ^ v.b * v.x := Nat.le_mul_of_pos_right _ hx
    have h4 : v.n - 1 < v.x * v.d := by
      rw [Nat.mul_comm v.x, n]
      rw [Nat.mul_assoc] at h1
      omega
    have := (Nat.div_lt_iff_lt_mul (by omega)).2 h4
    omega
  have := v.hx
  rw [first_eq]
  omega

def Visited (v : Volume) (z : Int) : Prop := Orbit v.n' v.d z

theorem Visited.bounds {z : Int} (h : v.Visited z) : 0 ≤ z ∧ z < v.r ∧ z ≤ v.x := by
  have h1 := v.first_bounds
  have h2 := v.first_le
  have h3 := v.r_bounds
  have h4 := v.hx
  have h5 := h.nonneg
  have h6 : z ≤ 1 ∨ z ≤ v.first := h.le
  omega

theorem Visited.step {z : Int} (h : v.Visited z) : v.Visited (share v.n' v.d z) :=
  Orbit.step v.d_pos v.first_bounds.1 h

/-- No sector behind the reserved ones: the first size is not cut to nothing. -/
theorem lt_of_visited_zero (h : v.Visited 0) : v.x < 4294967296 := by
  by_contra hx
  have hx' := v.hx'
  have hd := v.d_pos
  have hc := v.cluster_pos
  have hfirst : v.first = 0 := by
    have h1 := v.first_bounds
    have h2 : v.first ≤ 0 := h.of_zero
    omega
  obtain ⟨hlow, hhigh⟩ := (share_eq_iff (by omega)).1 hfirst
  have hprod : (v.wraps * v.r : Nat) * (v.d : Int) = (v.wraps * 2 ^ v.b : Nat) * 1073741824 := by
    rw [← Nat.cast_mul, Nat.mul_assoc, Nat.mul_comm v.r, d_mul_r, ← Nat.mul_assoc]
    rfl
  have hle : v.d ≤ 2 ^ v.b * 268435456 :=
    Nat.mul_le_mul_left _ (two_pow_le (show v.a - 2 ≤ 28 by have := v.ha'; omega))
  unfold n' n at hlow hhigh
  rw [hprod] at hlow hhigh
  by_cases hb : v.b ≤ 2
  · interval_cases hvb : v.b <;> omega
  · have h8 := two_pow_le (show 3 ≤ v.b by omega)
    have hw : v.wraps = 0 ∨ 2 ^ v.b ≤ v.wraps * 2 ^ v.b :=
      v.wraps.eq_zero_or_pos.imp_right fun hpos => Nat.le_mul_of_pos_left _ hpos
    obtain hw | hw := hw
    · rw [hw] at hhigh
      omega
    · omega

/-! ### One turn is one step of the map -/

theorem turn_share {totalsectors : UInt32} {s : Sizes}
    (hx : v.x = (totalsectors.toNat + 4294967293) % 4294967296 + 1)
    (h : v.Visited s.fatsectors.toNat) :
    (s.turn totalsectors (.ofNat (2 ^ v.a)) (.ofNat (2 ^ v.b))).fatsectors.toNat =
      share v.n' v.d s.fatsectors.toNat := by
  have hbound := h.bounds
  have hstep := h.step.bounds
  have hsector : (UInt32.ofNat (2 ^ v.a)).toNat = 2 ^ v.a :=
    UInt32.toNat_ofNat_of_lt' (Nat.pow_lt_pow_right Nat.one_lt_two (show v.a < 32 by have := v.ha'; omega))
  have hcluster : (UInt32.ofNat (2 ^ v.b)).toNat = 2 ^ v.b :=
    UInt32.toNat_ofNat_of_lt' (Nat.pow_lt_pow_right Nat.one_lt_two (show v.b < 32 by have := v.hb; omega))
  have hcount : (totalsectors - s.fatsectors - reserved).toNat = v.x - s.fatsectors.toNat := by
    have h1 := s.fatsectors.toNat_lt
    have h2 : s.fatsectors.toNat = 0 → v.x < 4294967296 := by
      intro h0
      rw [h0] at h
      exact lt_of_visited_zero h
    rw [UInt32.toNat_sub, UInt32.toNat_sub, show reserved.toNat = 2 from rfl]
    omega
  have hsize : (s.turn totalsectors (.ofNat (2 ^ v.a)) (.ofNat (2 ^ v.b))).fatsectors.toNat =
      (1 + (v.n - s.fatsectors.toNat) / v.d) % v.r := by
    have hn : v.n - s.fatsectors.toNat = v.x - s.fatsectors.toNat + 2 * 2 ^ v.b := by
      unfold n
      omega
    rw [hn, ← turn_eq, Sizes.turn]
    simp only [UInt32.toNat_div, UInt32.toNat_add, UInt32.toNat_mul, hcount, hsector, hcluster]
    congr 1
    simp only [UInt32.reduceToNat]
    omega
  have hwraps := v.share_wraps (z := s.fatsectors.toNat) (by unfold n; omega)
  obtain ⟨q, hq⟩ := Int.eq_ofNat_of_zero_le hstep.1
  have hsum : 1 + (v.n - s.fatsectors.toNat) / v.d = q + v.wraps * v.r := by
    rw [hq] at hwraps
    exact_mod_cast hwraps
  rw [hsize, hq, hsum, Nat.add_mul_mod_self_right, Nat.mod_eq_of_lt (by omega)]

end Volume

/-! ### The whole loop -/

/-- The size of this turn and the one of the turn before. -/
def Sizes.val (s : Sizes) : Int × Int := (s.fatsectors.toNat, s.oldfatsectors.toNat)

theorem Sizes.changed_val (s : Sizes) : changed s.val = s.changing := by
  unfold changed Sizes.changing Sizes.val
  by_cases he : s.fatsectors = s.oldfatsectors
  · simp [he]
  · have : (s.fatsectors.toNat : Int) ≠ s.oldfatsectors.toNat := by
      rwa [Ne, Nat.cast_inj, UInt32.toNat_inj]
    rw [bne_iff_ne.2 this, bne_iff_ne.2 he]

variable {v : Volume} {totalsectors : UInt32}

theorem sized_iff (hx : v.x = (totalsectors.toNat + 4294967293) % 4294967296 + 1) :
    (∃ t, Sized totalsectors (.ofNat (2 ^ v.a)) (.ofNat (2 ^ v.b)) t) ↔
      ¬ (v.d + 1 : Int) ∣ v.n' := by
  apply ends_iff_share _ v.d_pos v.first_bounds.1 Sizes.changed_val rfl (by decide)
  intro s hs
  have hturn := Volume.turn_share hx hs
  unfold Sizes.val next
  rw [hturn]
  rfl

/-- The table's size alternates: `d` are the sectors whose clusters fill one sector of the table,
and a volume that divides into runs of `d + 1` sectors has no size that fits. -/
def Alternates (totalsectors sectorsize secperclus : Nat) : Prop :=
  let d := secperclus * sectorsize / 4
  d + 1 ∣ ((totalsectors + 4294967293) % 4294967296 + 2 * secperclus + d) %
    (secperclus * 1073741824) + 2

instance (totalsectors sectorsize secperclus : Nat) :
    Decidable (Alternates totalsectors sectorsize secperclus) := by
  unfold Alternates
  infer_instance

theorem alternates_iff (hx : v.x = (totalsectors.toNat + 4294967293) % 4294967296 + 1) :
    Alternates totalsectors.toNat (2 ^ v.a) (2 ^ v.b) ↔ (v.d + 1 : Int) ∣ v.n' := by
  have hd : 2 ^ v.b * 2 ^ v.a / 4 = v.d := by
    rw [Volume.d, show 2 ^ v.a = 2 ^ (v.a - 2) * 4 by
      rw [show 4 = 2 ^ 2 from rfl, ← Nat.pow_add, Nat.sub_add_cancel (by have := v.ha; omega)],
      ← Nat.mul_assoc, Nat.mul_div_cancel _ (by omega)]
  have hpos := v.d_pos
  have hn := v.one_le_n
  have hsum : (totalsectors.toNat + 4294967293) % 4294967296 + 2 * 2 ^ v.b + v.d =
      v.n - 1 + v.d := by
    unfold Volume.n
    omega
  have hquot : (v.n - 1 + v.d) / (v.d * v.r) = v.wraps := by
    rw [← Nat.div_div_eq_div_mul, Nat.add_div_right _ (by omega), Nat.add_comm _ 1, Volume.wraps]
  have hmod := Nat.mod_add_div (v.n - 1 + v.d) (v.d * v.r)
  rw [hquot, Nat.mul_comm (v.d * v.r), Nat.mul_comm v.d, ← Nat.mul_assoc] at hmod
  have hrest : (((v.n - 1 + v.d) % (v.r * v.d) + 2 : Nat) : Int) = v.n' + (v.d + 1) := by
    have h1 : (((v.n - 1 + v.d) % (v.r * v.d) : Nat) : Int) + (v.wraps * v.r : Nat) * (v.d : Int) =
        ((v.n - 1 : Nat) : Int) + v.d := by
      exact_mod_cast hmod
    unfold Volume.n'
    omega
  simp only [Alternates, hd, hsum]
  rw [← Volume.d_mul_r, Nat.mul_comm v.d, ← Int.natCast_dvd_natCast, hrest]
  push_cast
  exact Int.dvd_add_left (Int.dvd_refl _)

theorem mkfat32_ends_iff {a b : Nat} (ha : 9 ≤ a) (ha' : a ≤ 30) (hb : b ≤ 30) :
    (∃ t, Sized totalsectors (.ofNat (2 ^ a)) (.ofNat (2 ^ b)) t) ↔
      ¬ Alternates totalsectors.toNat (2 ^ a) (2 ^ b) := by
  have hx : 1 ≤ (totalsectors.toNat + 4294967293) % 4294967296 + 1 := by omega
  have hx' : (totalsectors.toNat + 4294967293) % 4294967296 + 1 ≤ 4294967296 := by omega
  have h1 := @sized_iff ⟨a, b, _, ha, ha', hb, hx, hx'⟩ totalsectors rfl
  have h2 := @alternates_iff ⟨a, b, _, ha, ha', hb, hx, hx'⟩ totalsectors rfl
  rw [h1, h2]

example : run Sizes.changing (Sizes.turn 100000 512 8) 4 Sizes.init = some ⟨98, 98, 12487⟩ := by
  decide

end Mkfat32
end Freemyipod
