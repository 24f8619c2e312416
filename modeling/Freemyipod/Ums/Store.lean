import Freemyipod.Ums.BulkOnly

/-!
# Ums.Store

The part of disk mode that holds sectors: the read buffers, the write buffers and the medium.
`settled` is what the medium comes to hold once the block that is being written is on it;
`Coherent` says that the read cache and the read under way agree with a given content.
-/

namespace Freemyipod
namespace Ums

variable {D : Type}

/-! ## Overlays -/

theorem overlay_zero (b : Nat) (d old : Nat → D) : overlay b 0 d old = old := by
  funext j
  rw [overlay, if_neg (by omega)]

theorem overlay_of_not_mem {b n j : Nat} {d old : Nat → D} (h : ¬ (b ≤ j ∧ j < b + n)) :
    overlay b n d old j = old j := if_neg h

theorem overlay_congr {b n : Nat} {d d' old : Nat → D} (h : ∀ j < n, d j = d' j) :
    overlay b n d old = overlay b n d' old := by
  funext j
  simp only [overlay]
  split
  · exact h _ (by omega)
  · rfl

/-! ## What is stored where -/

structure Store (D : Type) where
  readBuf : Bool → Nat → D
  readSector : Bool → Nat
  readCount : Bool → Int
  writeBuf : Bool → Nat → D
  writeCurrent : Bool
  writeSector : Nat
  writeCount : Nat
  writeBusy : Bool
  worker : Worker
  medium : Nat → D

@[grind =] def State.store (s : State D) : Store D where
  readBuf := s.readBuf
  readSector := s.readSector
  readCount := s.readCount
  writeBuf := s.writeBuf
  writeCurrent := s.writeCurrent
  writeSector := s.writeSector
  writeCount := s.writeCount
  writeBusy := s.writeBusy
  worker := s.worker
  medium := s.medium

/-- The medium with the block that waits to be written or is being written. -/
def Store.settled (b : Store D) : Nat → D :=
  if b.writeBusy then
    overlay b.writeSector b.writeCount (b.writeBuf b.writeCurrent) b.medium
  else b.medium

/-- Two ranges of sectors have none in common. -/
def Apart (b n b' n' : Nat) : Prop := b + n ≤ b' ∨ b' + n' ≤ b

/-- The read cache agrees with the content `v`, and so will the read that the worker is at. -/
structure Coherent (dev : StorageInfo) (v : Nat → D) (b : Store D) : Prop where
  cache : Cache dev b.readSector b.readCount b.worker
  /-- no failed read at sector 0 -/
  marked : ∀ i, 0 ≤ (b.readSector i : Int) + b.readCount i
  cached : ∀ i (j : Nat), (j : Int) < b.readCount i → b.readBuf i j = v (b.readSector i + j)
  reading : ∀ c k n, b.worker = .reading c k n →
    b.readCount c = 0 ∧ ∀ j < n, b.medium (k + j) = v (k + j)
  writing : b.worker = .writing → b.writeBusy = true

namespace Coherent

variable {dev : StorageInfo} {v v' : Nat → D} {b : Store D}

/-- A block arrives that neither the cache nor the read under way is about. -/
theorem arrive {sector n : Nat} {d : Nat → D} (h : Coherent dev v b)
    (hcached : ∀ i, 0 < b.readCount i → Apart (b.readSector i) (b.readCount i).toNat sector n)
    (hreading : ∀ c k m, b.worker = .reading c k m → Apart k m sector n) :
    Coherent dev (overlay sector n d v) b := by
  refine ⟨h.cache, h.marked, fun i j hj => ?_, fun c k m hw => ?_, h.writing⟩
  · rw [h.cached i j hj, overlay_of_not_mem]
    rcases hcached i (by omega) with ha | ha <;> omega
  · refine ⟨(h.reading c k m hw).1, fun j hj => ?_⟩
    rw [(h.reading c k m hw).2 j hj, overlay_of_not_mem]
    rcases hreading c k m hw with ha | ha <;> omega

/-- A read buffer is given another sector. -/
theorem assign (h : Coherent dev v b) (i : Bool) {k : Nat} (hk : k < dev.numSectors) :
    Coherent dev v { b with
      readSector := Function.update b.readSector i k
      readCount := Function.update b.readCount i 0 } := by
  have hne : ∀ j, j ≠ i → Function.update b.readSector i k j = b.readSector j ∧
      Function.update b.readCount i 0 j = b.readCount j :=
    fun j hj => ⟨Function.update_of_ne hj _ _, Function.update_of_ne hj _ _⟩
  refine ⟨h.cache.assign i hk, fun j => ?_, fun j l hl => ?_, fun c l n hw => ?_, h.writing⟩
  · by_cases hj : j = i
    · subst hj
      simp only [Function.update_self]
      omega
    · simp only [hne j hj]
      exact h.marked j
  · by_cases hj : j = i
    · subst hj
      simp only [Function.update_self] at hl
      omega
    · simp only [hne j hj] at hl ⊢
      exact h.cached j l hl
  · refine ⟨?_, (h.reading c l n hw).2⟩
    by_cases hc : c = i
    · subst hc
      exact Function.update_self _ _ _
    · simp only [hne c hc]
      exact (h.reading c l n hw).1

/-- The worker gets to a place where it neither reads nor writes. -/
theorem move (h : Coherent dev v b) {w : Worker} (hr : ∀ c k n, w ≠ .reading c k n)
    (hw : w = .writing → b.writeBusy = true) : Coherent dev v { b with worker := w } :=
  ⟨h.cache.of_worker hr, h.marked, h.cached, fun c k n he => absurd he (hr c k n), hw⟩

/-- The worker reads sectors for which no block waits. -/
theorem startRead (h : Coherent dev v b) {c : Bool} {n : Nat}
    (hn : n = min dev.bufsize (dev.numSectors - b.readSector c)) (hz : b.readCount c = 0)
    (hmedium : ∀ j < n, b.medium (b.readSector c + j) = v (b.readSector c + j)) :
    Coherent dev v { b with worker := .reading c (b.readSector c) n } := by
  refine ⟨⟨h.cache.sector_lt, h.cache.count_eq, ?_⟩, h.marked, h.cached, ?_, fun he => by cases he⟩
  · intro c' k' n' he
    cases he
    exact hn
  · intro c' k' n' he
    cases he
    exact ⟨hz, hmedium⟩

/-- The read of the worker comes back; it may fail, but not at sector 0. -/
theorem endRead (h : Coherent dev v b) {c ok : Bool} {k n : Nat} {junk : Nat → D}
    (hw : b.worker = .reading c k n) (hok : ok = false → k ≠ 0) :
    Coherent dev v { b with
      worker := .blocked
      readBuf := Function.update b.readBuf c (overlay 0 n
        (if ok then fun j => b.medium (k + j) else junk) (b.readBuf c))
      readCount := Function.update b.readCount c
        (if k = b.readSector c then s8 (if ok then n else -1) else 0) } := by
  have hcache := h.cache
  rw [hw] at hcache
  have hn := hcache.reading c k n rfl
  have h64 := dev.bufsize_le
  have hs8 := Cache.s8_count (n := n) (by omega) ok
  obtain ⟨_, hread⟩ := h.reading c k n hw
  refine ⟨hcache.done (fun _ _ _ h => by cases h), fun i => ?_, fun i j hj => ?_,
    (fun _ _ _ h => by cases h), (fun h => by cases h)⟩
  · by_cases hi : i = c
    · subst hi
      simp only [Function.update_self, hs8]
      split
      · rename_i hk
        cases ok
        · have := hok rfl
          simp only [Bool.false_eq_true, if_false]
          omega
        · simp only [if_true]
          omega
      · omega
    · simp only [Function.update_of_ne hi]
      exact h.marked i
  · by_cases hi : i = c
    · subst hi
      simp only [Function.update_self, hs8] at hj ⊢
      split at hj
      · rename_i hk
        cases ok
        · simp only [Bool.false_eq_true, if_false] at hj
          omega
        · simp only [if_true] at hj ⊢
          rw [overlay, if_pos ⟨Nat.zero_le _, by omega⟩, Nat.sub_zero, ← hk]
          exact hread j (by omega)
      · omega
    · simp only [Function.update_of_ne hi] at hj ⊢
      exact h.cached i j hj

/-- The block is on the medium. -/
theorem endWrite (h : Coherent dev v b) (hw : b.worker = .writing) :
    Coherent dev v { b with
      worker := .cache
      writeBusy := false
      medium := overlay b.writeSector b.writeCount (b.writeBuf b.writeCurrent) b.medium } ∧
    Store.settled { b with
      worker := .cache
      writeBusy := false
      medium := overlay b.writeSector b.writeCount (b.writeBuf b.writeCurrent) b.medium } =
        b.settled := by
  refine ⟨⟨h.cache.of_worker (fun _ _ _ h => by cases h), h.marked, h.cached,
    (fun _ _ _ h => by cases h), (fun h => by cases h)⟩, ?_⟩
  simp [Store.settled, h.writing hw]

/-- The block that has arrived in the other write buffer is handed to the worker. -/
theorem takeBlock (h : Coherent dev v b) (sector n : Nat) (hb : b.writeBusy = false) :
    Coherent dev v { b with
      writeCurrent := !b.writeCurrent, writeSector := sector, writeCount := n, writeBusy := true } ∧
    Store.settled { b with
      writeCurrent := !b.writeCurrent, writeSector := sector, writeCount := n, writeBusy := true } =
        overlay sector n (b.writeBuf (!b.writeCurrent)) b.settled := by
  refine ⟨⟨h.cache, h.marked, h.cached, h.reading, fun _ => rfl⟩, ?_⟩
  simp [Store.settled, hb]

end Coherent

/-! ## The patches of the cache -/

/-- For a block that is apart from the cached sectors `update_readcache` changes nothing: at most
it copies no bytes, when the cached sectors begin right behind the block. -/
theorem patch_eq {dev : StorageInfo} {s : State D} {i : Bool}
    (h : Cache dev s.readSector s.readCount s.worker)
    (hlen : s.length / dev.sectorSize ≤ dev.bufsize)
    (hrange : s.curCmd.sector + s.length / dev.sectorSize ≤ dev.numSectors)
    (hpos : 0 < s.length / dev.sectorSize)
    (hneg : 0 ≤ (s.readSector i : Int) + s.readCount i)
    (hapart : 0 < s.readCount i →
      Apart (s.readSector i) (s.readCount i).toNat s.curCmd.sector (s.length / dev.sectorSize)) :
    patch dev s i = s := by
  have htop : (readTop s i : Int) = s.readSector i + s.readCount i := h.top_eq hneg
  have hn := dev.num_lt
  have hb := h.sector_lt i
  have h64 := dev.bufsize_le
  have hmul := dev.bufsize_mul
  have hc := h.count_eq i
  simp only [patch]
  split
  · rename_i hin
    generalize s.length / dev.sectorSize = cnt at *
    have hedge : s.curCmd.sector + cnt = s.readSector i ∧ 0 < s.readCount i := by
      simp only [Apart, u32] at *
      omega
    have hro : max 0 (s32 ((s.curCmd.sector : Int) - s.readSector i)) = 0 := by
      simp only [s32]
      omega
    have hwo : max 0 (s32 ((s.readSector i : Int) - s.curCmd.sector)) = cnt := by
      simp only [s32]
      omega
    have hl : min (s.readCount i - 0) ((cnt : Int) - cnt) = 0 := by omega
    have hw : s32 ((cnt : Int) * dev.sectorSize) = cnt * dev.sectorSize ∧
        0 ≤ (cnt : Int) * dev.sectorSize ∧ (cnt : Int) * dev.sectorSize ≤ 65536 := by
      have hle : cnt * dev.sectorSize ≤ 65536 := hmul ▸ Nat.mul_le_mul_right _ hlen
      have hcast : (cnt : Int) * dev.sectorSize = ((cnt * dev.sectorSize : Nat) : Int) := by
        push_cast
        rfl
      rw [hcast]
      simp only [s32]
      omega
    have hz : s32 0 = 0 := by decide
    rw [hro, hwo, hl, zero_mul, hz, hw.1, if_pos]
    · rw [Int.toNat_zero, overlay_zero, Function.update_eq_self]
    · refine ⟨le_rfl, hw.2.1, le_rfl, by decide, ?_⟩
      rw [add_zero, umsBufsize]
      exact_mod_cast hw.2.2
  · rfl

end Ums
end Freemyipod
