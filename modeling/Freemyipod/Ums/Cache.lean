import Freemyipod.Ums.System

/-!
# Ums.Cache

What the read cache is like in every state: each buffer is for sectors of the device, and is empty,
marked by a failed read, or full as far as the device goes. From this follows when
`update_readcache` stays in its buffers.
-/

namespace Freemyipod
namespace Ums

/-! ## Sizes -/

namespace StorageInfo

variable (dev : StorageInfo)

theorem bufsize_mul : dev.bufsize * dev.sectorSize = 65536 :=
  Nat.div_mul_cancel dev.size_dvd

theorem bufsize_ge : 4 ≤ dev.bufsize := by
  have h := dev.bufsize_mul
  have hs := dev.size_le
  nlinarith

theorem bufsize_le : dev.bufsize ≤ 64 := by
  have h := dev.bufsize_mul
  have hs := dev.size_ge
  nlinarith

theorem sectorSize_pos : 0 < dev.sectorSize := by
  have := dev.size_ge
  omega

theorem min_bytes (n : Nat) :
    min umsBufsize (n * dev.sectorSize) = min dev.bufsize n * dev.sectorSize := by
  rw [show umsBufsize = dev.bufsize * dev.sectorSize from dev.bufsize_mul.symm,
    Nat.mul_min_mul_right]

theorem min_bytes_div (n : Nat) :
    min umsBufsize (n * dev.sectorSize) / dev.sectorSize = min dev.bufsize n := by
  rw [dev.min_bytes, Nat.mul_div_cancel _ dev.sectorSize_pos]

/-- A number of bytes that a command can move. -/
theorem bytes_lt {n : Nat} (h : n < 65536) : n * dev.sectorSize < 2147483648 := by
  have hs := dev.size_le
  nlinarith

end StorageInfo

theorem u32_of_lt {n : Nat} (h : n < 4294967296) : u32 n = n := by
  simp only [u32]
  omega

theorem u32_lt (z : Int) : u32 z < 4294967296 := by
  simp only [u32]
  omega

namespace CommandBlockWrapper

variable (cbw : CommandBlockWrapper)

theorem byte_lt (i : Fin 16) : cbw.byte i < 256 := UInt8.toNat_lt _

theorem shift_lt (i : Fin 16) {k n : Nat} (h : k + 8 ≤ n) : cbw.byte i <<< k < 2 ^ n := by
  rw [Nat.shiftLeft_eq]
  calc cbw.byte i * 2 ^ k < 2 ^ 8 * 2 ^ k := Nat.mul_lt_mul_of_pos_right (cbw.byte_lt i) (by positivity)
    _ = 2 ^ (8 + k) := (Nat.pow_add 2 8 k).symm
    _ ≤ 2 ^ n := Nat.pow_le_pow_right (by decide) (by omega)

theorem lba_lt : cbw.lba < 4294967296 := by
  have h : cbw.byte 5 < 2 ^ 32 := (cbw.byte_lt 5).trans (by decide)
  exact Nat.or_lt_two_pow (Nat.or_lt_two_pow (Nat.or_lt_two_pow (cbw.shift_lt 2 (by decide))
    (cbw.shift_lt 3 (by decide))) (cbw.shift_lt 4 (by decide))) h

theorem blocks_lt : cbw.blocks < 65536 := by
  have h : cbw.byte 8 < 2 ^ 16 := (cbw.byte_lt 8).trans (by decide)
  exact Nat.or_lt_two_pow (cbw.shift_lt 7 (by decide)) h

end CommandBlockWrapper

/-! ## The invariant of the cache -/

/-- The read buffers are for the sectors from `sector i` on and hold `count i` of them. -/
structure Cache (dev : StorageInfo) (sector : Bool → Nat) (count : Bool → Int) (w : Worker) :
    Prop where
  sector_lt : ∀ i, sector i < dev.numSectors
  count_eq : ∀ i, count i = 0 ∨ count i = -1 ∨
    count i = min dev.bufsize (dev.numSectors - sector i)
  reading : ∀ c b n, w = .reading c b n → n = min dev.bufsize (dev.numSectors - b)

namespace Cache

variable {dev : StorageInfo} {sector : Bool → Nat} {count : Bool → Int} {w : Worker}

theorem of_worker {v : Worker} (h : Cache dev sector count w)
    (hw : ∀ c b n, v ≠ .reading c b n) : Cache dev sector count v :=
  ⟨h.sector_lt, h.count_eq, fun c b n he => absurd he (hw c b n)⟩

/-- A buffer is given another sector and is empty then. -/
theorem assign (h : Cache dev sector count w) (i : Bool) {b : Nat} (hb : b < dev.numSectors) :
    Cache dev (Function.update sector i b) (Function.update count i 0) w := by
  refine ⟨fun j => ?_, fun j => ?_, h.reading⟩
  · by_cases hj : j = i
    · rw [hj, Function.update_self]
      exact hb
    · rw [Function.update_of_ne hj]
      exact h.sector_lt j
  · by_cases hj : j = i
    · left
      rw [hj, Function.update_self]
    · rw [Function.update_of_ne hj, Function.update_of_ne hj]
      exact h.count_eq j

theorem empty (h : Cache dev sector count w) (i : Bool) :
    Cache dev sector (Function.update count i 0) w := by
  have := h.assign i (h.sector_lt i)
  rwa [Function.update_eq_self] at this

theorem s8_count {n : Nat} (h : n ≤ 64) (ok : Bool) :
    s8 (if ok then n else -1) = if ok then (n : Int) else -1 := by
  cases ok
  · rfl
  · simp only [s8]
    omega

/-- The number of sectors of the medium that belong to a buffer. -/
theorem fill_eq (h : Cache dev sector count w) (i : Bool) :
    min dev.bufsize (u32 ((dev.numSectors : Int) - sector i)) =
      min dev.bufsize (dev.numSectors - sector i) := by
  have hi := h.sector_lt i
  have hn := dev.num_lt
  have : u32 ((dev.numSectors : Int) - sector i) = dev.numSectors - sector i := by
    simp only [u32]
    omega
  rw [this]

/-- The end of the sectors that a buffer holds, but for the mark of a failed read at sector 0. -/
theorem top_eq (h : Cache dev sector count w) {i : Bool} (hneg : 0 ≤ (sector i : Int) + count i) :
    (u32 (sector i + count i) : Int) = sector i + count i := by
  have hi := h.sector_lt i
  have hn := dev.num_lt
  have hc := h.count_eq i
  simp only [u32]
  omega

/-- A worker's read that comes back. -/
theorem done {c ok : Bool} {b n : Nat} (h : Cache dev sector count (.reading c b n)) {w' : Worker}
    (hw : ∀ c b n, w' ≠ .reading c b n) :
    Cache dev sector (Function.update count c
      (if b = sector c then s8 (if ok then n else -1) else 0)) w' := by
  have hn := h.reading c b n rfl
  have h64 := dev.bufsize_le
  have hle : n ≤ 64 := by omega
  refine ⟨h.sector_lt, fun i => ?_, fun c b n he => absurd he (hw c b n)⟩
  by_cases hi : i = c
  · rw [hi, Function.update_self, s8_count hle]
    by_cases hb : b = sector c
    · rw [if_pos hb]
      cases ok
      · exact Or.inr (Or.inl rfl)
      · right; right
        rw [if_pos rfl, hn, hb]
    · rw [if_neg hb]
      exact Or.inl rfl
  · rw [Function.update_of_ne hi]
    exact h.count_eq i

end Cache

/-! ## Writes to the cache -/

variable {D : Type} {dev : StorageInfo} {s : State D}

/-- The copies of `update_readcache` stay in their buffers, but for a failed read at sector 0. -/
theorem patch_crashed (h : Cache dev s.readSector s.readCount s.worker)
    (hlen : s.length / dev.sectorSize ≤ dev.bufsize) (hsec : s.curCmd.sector < 4294967296) {i : Bool}
    (hneg : 0 ≤ (s.readSector i : Int) + s.readCount i) :
    (patch dev s i).crashed = s.crashed := by
  have htop : (readTop s i : Int) = s.readSector i + s.readCount i := h.top_eq hneg
  have hb := h.sector_lt i
  have hn := dev.num_lt
  have h64 := dev.bufsize_le
  have hmul := dev.bufsize_mul
  have hss := dev.sectorSize_pos
  have hc := h.count_eq i
  simp only [patch]
  split
  · rename_i hin
    -- with `last` on the other side of `2^32`, the signed differences are still small
    generalize s.length / dev.sectorSize = cnt at *
    generalize hro : max 0 (s32 ((s.curCmd.sector : Int) - s.readSector i)) = ro
    generalize hwo : max 0 (s32 ((s.readSector i : Int) - s.curCmd.sector)) = wo
    generalize hlen' : min (s.readCount i - ro) ((cnt : Int) - wo) = len
    have hfacts : 0 ≤ ro ∧ 0 ≤ wo ∧ 0 ≤ len ∧ ro + len ≤ dev.bufsize ∧ wo + len ≤ dev.bufsize := by
      simp only [u32, s32] at *
      omega
    obtain ⟨h1, h2, h3, h4, h5⟩ := hfacts
    have hbytes : ∀ z : Int, 0 ≤ z → z ≤ dev.bufsize → s32 (z * dev.sectorSize) = z * dev.sectorSize ∧
        0 ≤ z * dev.sectorSize ∧ z * dev.sectorSize ≤ 65536 := by
      intro z hz hle
      have hm : ((dev.bufsize : Int) * dev.sectorSize) = 65536 := by exact_mod_cast hmul
      have h0 : 0 ≤ z * (dev.sectorSize : Int) := by positivity
      have h1 : z * (dev.sectorSize : Int) ≤ 65536 := by
        rw [← hm]
        exact mul_le_mul_of_nonneg_right hle (by positivity)
      refine ⟨?_, h0, h1⟩
      simp only [s32]
      omega
    have hr := hbytes ro h1 (by omega)
    have hw := hbytes wo h2 (by omega)
    have hl := hbytes len h3 (by omega)
    have hrl := hbytes (ro + len) (by omega) h4
    have hwl := hbytes (wo + len) (by omega) h5
    rw [add_mul] at hrl hwl
    rw [if_pos]
    rw [hr.1, hw.1, hl.1, umsBufsize]
    exact ⟨hr.2.1, hw.2.1, hl.2.1, by exact_mod_cast hrl.2.2, by exact_mod_cast hwl.2.2⟩
  · rfl

/-- A `patch` only touches the contents of the read buffers. -/
theorem patch_frame (dev : StorageInfo) (s : State D) (i : Bool) : ∃ buf crashed,
    patch dev s i = { s with readBuf := buf, crashed } := by
  simp only [patch]
  split
  · split
    · exact ⟨_, s.crashed, rfl⟩
    · exact ⟨s.readBuf, true, rfl⟩
  · exact ⟨s.readBuf, s.crashed, rfl⟩

theorem updateReadcache_frame (dev : StorageInfo) (s : State D) : ∃ buf crashed,
    updateReadcache dev s = { s with readBuf := buf, crashed } := by
  obtain ⟨buf, c, h⟩ := patch_frame dev s false
  obtain ⟨buf', c', h'⟩ := patch_frame dev (patch dev s false) true
  refine ⟨buf', c', ?_⟩
  rw [updateReadcache, h', h]

theorem updateReadcache_crashed (h : Cache dev s.readSector s.readCount s.worker)
    (hlen : s.length / dev.sectorSize ≤ dev.bufsize) (hsec : s.curCmd.sector < 4294967296)
    (hneg : ∀ i, 0 ≤ (s.readSector i : Int) + s.readCount i) :
    (updateReadcache dev s).crashed = s.crashed := by
  obtain ⟨buf, c, hp⟩ := patch_frame dev s false
  have h1 : c = s.crashed := by
    have := patch_crashed (i := false) h hlen hsec (hneg false)
    rwa [hp] at this
  have h2 : (patch dev { s with readBuf := buf, crashed := c } true).crashed = c :=
    patch_crashed (s := { s with readBuf := buf, crashed := c }) h hlen hsec (hneg true)
  rw [updateReadcache, hp, h2, h1]

end Ums
end Freemyipod
