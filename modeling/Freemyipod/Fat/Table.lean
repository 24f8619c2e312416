import Mathlib

/-!
# Fat.Table

The file allocation table of `fat.c`: which cluster follows which, and which are free.

An entry is the number that `read_fat_entry` returns: the 16 bits of a FAT16 entry, the lower 28 of
a FAT32 entry. Which of the FAT's sectors can be read and written is up to the disk, so each
function that gets at one of them is told.

* `findFreeCluster_eq`: the search returns the first free cluster in its order.
-/

namespace Freemyipod
namespace Fat

/-- `struct bpb`, as far as the FAT goes. -/
structure Bpb where
  isFat16 : Bool
  sectorSize : Nat
  fatsize : Nat
  dataclusters : Nat

namespace Bpb

variable (b : Bpb)

/-- `CLUSTERS_PER_FAT16_SECTOR` or `CLUSTERS_PER_FAT_SECTOR` -/
def perSector : Nat := b.sectorSize / if b.isFat16 then 2 else 4

/-- An entry holds the numbers below this. -/
def entries : Nat := if b.isFat16 then 0x10000 else 0x10000000

/-- `FAT_EOF_MARK`, as far as an entry holds it -/
def eofMark : Nat := 0x0ffffff8 % b.entries

/-- The cluster numbers that the data area has. -/
def Data (c : Nat) : Prop := 2 ≤ c ∧ c ≤ b.dataclusters + 1

instance (c : Nat) : Decidable (b.Data c) := by unfold Data; infer_instance

/-- The disk is not larger than its kind of FAT allows. -/
def Fits : Prop := b.dataclusters + 1 < b.eofMark

end Bpb

/-- The FAT of a mounted volume, and `fsinfo`. -/
structure Table where
  entry : Nat → Nat
  freecount : Nat
  nextfree : Nat

variable (b : Bpb)

/-- `get_next_cluster` -/
def getNextCluster (t : Table) (cluster : Nat) : Nat :=
  if b.eofMark ≤ t.entry cluster then 0 else t.entry cluster

/-- `update_fat_entry`: it panics, or it fails and returns -1, or it stores `val`. -/
inductive Updated
  | panic
  | failed
  | stored (t : Table)

def updateFatEntry (t : Table) (writable : Bool) (entry val : Nat) : Updated :=
  let val := if b.isFat16 then val % 0x10000 else val
  if entry = val then .panic
  else if entry < 2 then .panic
  else if ¬ writable then .failed
  else
    let freecount :=
      if val ≠ 0 then
        if t.entry entry = 0 ∧ 0 < t.freecount then t.freecount - 1 else t.freecount
      else if t.entry entry ≠ 0 then t.freecount + 1
      else t.freecount
    .stored { t with
      entry := Function.update t.entry entry (val % b.entries)
      freecount := freecount }

/-- A free cluster in the sector `nr` of the FAT, looked for from `offset` on. -/
def scanSector (t : Table) (nr offset : Nat) : Option Nat :=
  (List.range b.perSector).findSome? fun j =>
    let c := nr * b.perSector + (j + offset) % b.perSector
    if t.entry c = 0 then if b.Data c then some c else none else none

/-- The loop over the sectors from turn `i` on, `k` turns left. -/
def scan (t : Table) (readable : Nat → Bool) (startcluster : Nat) : Nat → Nat → Option Nat
  | 0, _ => none
  | k + 1, i =>
    let nr := (i + startcluster / b.perSector) % b.fatsize
    if readable nr then
      match scanSector b t nr (if i = 0 then startcluster % b.perSector else 0) with
      | some c => some c
      | none => scan t readable startcluster k (i + 1)
    else none

/-- `find_free_cluster`: the cluster, or 0. -/
def findFreeCluster (t : Table) (readable : Nat → Bool) (startcluster : Nat) : Nat × Table :=
  match scan b t readable startcluster b.fatsize 0 with
  | some c => (c, { t with nextfree := c })
  | none => (0, t)

/-! ## The order of the search -/

variable {b} {t t' : Table} {c entry val : Nat} {readable : Nat → Bool}

/-- The entries in the order in which the search from `startcluster` looks at them, `k` sectors
from turn `i` on. -/
def searchOrder (b : Bpb) (startcluster : Nat) : Nat → Nat → List Nat
  | 0, _ => []
  | k + 1, i =>
    let nr := (i + startcluster / b.perSector) % b.fatsize
    let offset := if i = 0 then startcluster % b.perSector else 0
    (List.range b.perSector).map (fun j => nr * b.perSector + (j + offset) % b.perSector) ++
      searchOrder b startcluster k (i + 1)

/-- A cluster that the search may return. -/
def Free (b : Bpb) (t : Table) (c : Nat) : Prop := t.entry c = 0 ∧ b.Data c

instance (c : Nat) : Decidable (Free b t c) := by unfold Free; infer_instance

/-- The first free cluster in the order of the search, among those before the first sector that
cannot be read. -/
def firstFree (b : Bpb) (t : Table) (readable : Nat → Bool) (startcluster : Nat) : Option Nat :=
  ((searchOrder b startcluster b.fatsize 0).takeWhile fun c => readable (c / b.perSector)).find?
    fun c => decide (Free b t c)

theorem scanSector_eq (nr offset : Nat) : scanSector b t nr offset =
    ((List.range b.perSector).map fun j => nr * b.perSector + (j + offset) % b.perSector).find?
      fun c => decide (Free b t c) := by
  unfold scanSector
  induction List.range b.perSector with
  | nil => rfl
  | cons j l ih =>
    rw [List.findSome?_cons, List.map_cons, List.find?_cons]
    by_cases h0 : t.entry (nr * b.perSector + (j + offset) % b.perSector) = 0
    · by_cases hd : b.Data (nr * b.perSector + (j + offset) % b.perSector)
      · simp [Free, h0, hd]
      · simp only [h0, ↓reduceIte, hd, Free, and_false, decide_false]
        exact ih
    · simp only [h0, ↓reduceIte, Free, false_and, decide_false]
      exact ih

/-- The entries of one sector can all be read, or none of them. -/
theorem takeWhile_sector {nr offset : Nat} {l : List Nat} :
    (((List.range b.perSector).map fun j => nr * b.perSector + (j + offset) % b.perSector) ++
      l).takeWhile (fun c => readable (c / b.perSector)) =
    if b.perSector = 0 ∨ readable nr then
      ((List.range b.perSector).map fun j => nr * b.perSector + (j + offset) % b.perSector) ++
        l.takeWhile fun c => readable (c / b.perSector)
    else [] := by
  have hsector : ∀ c ∈ (List.range b.perSector).map
      fun j => nr * b.perSector + (j + offset) % b.perSector, c / b.perSector = nr := by
    intro c hc
    obtain ⟨j, hj, rfl⟩ := List.mem_map.1 hc
    have hpos : 0 < b.perSector := by
      have := List.mem_range.1 hj
      omega
    rw [Nat.mul_comm, Nat.mul_add_div hpos, Nat.div_eq_of_lt (Nat.mod_lt _ hpos), Nat.add_zero]
  by_cases h : b.perSector = 0 ∨ readable nr = true
  · rw [if_pos h]
    refine List.takeWhile_append_of_pos fun c hc => ?_
    rw [hsector c hc]
    rcases h with h | h
    · rw [h] at hc
      cases hc
    · exact h
  · rw [if_neg h]
    obtain ⟨n, hn⟩ : ∃ n, b.perSector = n + 1 := ⟨b.perSector - 1, by omega⟩
    have h0 := hsector (nr * b.perSector + (0 + offset) % b.perSector)
      (List.mem_map.2 ⟨0, List.mem_range.2 (by omega), rfl⟩)
    rw [show List.range b.perSector = 0 :: (List.range n).map Nat.succ by
      rw [hn, List.range_succ_eq_map], List.map_cons, List.cons_append, List.takeWhile_cons, h0]
    simp only [not_or, Bool.not_eq_true] at h
    rw [h.2]
    rfl

theorem scan_eq (startcluster : Nat) (k i : Nat) : scan b t readable startcluster k i =
    ((searchOrder b startcluster k i).takeWhile fun c => readable (c / b.perSector)).find?
      fun c => decide (Free b t c) := by
  induction k generalizing i with
  | zero => rfl
  | succ k ih =>
    rw [scan, searchOrder, takeWhile_sector]
    by_cases hr : readable ((i + startcluster / b.perSector) % b.fatsize) = true
    · rw [if_pos hr, if_pos (show b.perSector = 0 ∨ _ from .inr hr), List.find?_append,
        ← scanSector_eq, ih]
      cases scanSector b t ((i + startcluster / b.perSector) % b.fatsize)
        (if i = 0 then startcluster % b.perSector else 0) <;> rfl
    · rw [if_neg hr]
      by_cases h0 : b.perSector = 0
      · have hempty : ∀ k i, searchOrder b startcluster k i = [] := by
          intro k
          induction k with
          | zero => intro i; rfl
          | succ k ih => intro i; simp [searchOrder, h0, ih]
        rw [if_pos (show b.perSector = 0 ∨ _ from .inl h0), hempty, h0]
        rfl
      · rw [if_neg (by simp [h0, hr])]
        rfl

theorem findFreeCluster_eq (startcluster : Nat) : findFreeCluster b t readable startcluster =
    match firstFree b t readable startcluster with
    | some c => (c, { t with nextfree := c })
    | none => (0, t) := by
  rw [findFreeCluster, scan_eq]
  rfl

theorem firstFree_free {startcluster : Nat} (h : firstFree b t readable startcluster = some c) :
    Free b t c := by
  have := List.find?_some h
  exact of_decide_eq_true this

/-! ## Updates -/

theorem Bpb.eofMark_lt (b : Bpb) : b.eofMark < b.entries := by
  unfold eofMark entries
  split <;> omega

theorem Bpb.eofMark_pos (b : Bpb) : 0 < b.eofMark := by
  unfold eofMark entries
  split <;> omega

theorem Bpb.eofMark_mod (b : Bpb) : 0x0ffffff8 % b.entries = b.eofMark := rfl

theorem Bpb.Data.mod (hb : b.Fits) (h : b.Data c) : c % b.entries = c := by
  have h1 := h.2
  have h2 := b.eofMark_lt
  unfold Bpb.Fits at hb
  exact Nat.mod_eq_of_lt (by omega)

theorem updateFatEntry_stored {writable : Bool}
    (h : updateFatEntry b t writable entry val = .stored t') :
    t'.entry = Function.update t.entry entry (val % b.entries) ∧ t'.nextfree = t.nextfree := by
  have hval : (if b.isFat16 then val % 0x10000 else val) % b.entries = val % b.entries := by
    unfold Bpb.entries
    split
    · exact Nat.mod_mod _ _
    · rfl
  rw [← hval]
  unfold updateFatEntry at h
  generalize (if b.isFat16 then val % 0x10000 else val) = v at h ⊢
  dsimp only at h
  split at h
  · cases h
  split at h
  · cases h
  split at h
  · cases h
  cases h
  exact ⟨rfl, rfl⟩

/-- On a sector that can be written, an update panics or it stores. -/
theorem updateFatEntry_failed {writable : Bool}
    (h : updateFatEntry b t writable entry val = .failed) : writable = false := by
  unfold updateFatEntry at h
  generalize (if b.isFat16 then val % 0x10000 else val) = v at h
  dsimp only at h
  split at h
  · cases h
  split at h
  · cases h
  split at h
  · simpa using ‹¬ writable = true›
  · cases h

/-- No entry is made to point to itself. -/
theorem updateFatEntry_ne {writable : Bool}
    (h : updateFatEntry b t writable entry val = .stored t') : entry ≠ val % b.entries ∨ b.entries ≤ val := by
  by_cases hlt : b.entries ≤ val
  · exact .inr hlt
  · have hval : (if b.isFat16 then val % 0x10000 else val) = val % b.entries := by
      unfold Bpb.entries at hlt ⊢
      split
      · rfl
      · exact (Nat.mod_eq_of_lt (by simp_all)).symm
    unfold updateFatEntry at h
    rw [hval] at h
    dsimp only at h
    split at h
    · cases h
    · exact .inl ‹_›

/-- The reserved entries are never stored to. -/
theorem updateFatEntry_two_le {writable : Bool}
    (h : updateFatEntry b t writable entry val = .stored t') : 2 ≤ entry := by
  unfold updateFatEntry at h
  generalize (if b.isFat16 then val % 0x10000 else val) = v at h
  dsimp only at h
  split at h
  · cases h
  split at h
  · cases h
  · exact Nat.not_lt.1 ‹_›

theorem getNextCluster_update_self {writable : Bool}
    (h : updateFatEntry b t writable entry val = .stored t') :
    getNextCluster b t' entry = if b.eofMark ≤ val % b.entries then 0 else val % b.entries := by
  unfold getNextCluster
  rw [(updateFatEntry_stored h).1, Function.update_self]

theorem getNextCluster_update_ne {writable : Bool}
    (h : updateFatEntry b t writable entry val = .stored t') (hc : c ≠ entry) :
    getNextCluster b t' c = getNextCluster b t c := by
  unfold getNextCluster
  rw [(updateFatEntry_stored h).1, Function.update_of_ne hc]

end Fat
end Freemyipod
