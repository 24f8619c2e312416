import Freemyipod.Fat.File

/-!
# Fat.Chain

Cluster chains and the sectors of a file in their order.

* `Chain.nodup`, `sectors_nodup`: no cluster and no sector comes twice.
* `Links.walk_eq`: the loop of `fat_seek` finds the clusters of a chain, and nothing behind them.
-/

namespace Freemyipod
namespace Fat

variable (g : Geometry)

namespace Geometry

/-- A mounted volume: clusters of at most 128 sectors, the boot sector and a FAT before the root
directory and the data, and sector numbers that a `long` can hold. -/
structure Wf : Prop where
  secperclus_pos : 0 < g.secperclus
  secperclus_le : g.secperclus ≤ 128
  two_le_root : 2 ≤ g.rootdirsector
  root_le : g.rootdirsector ≤ g.firstdatasector
  offset_lt : g.rootdiroffset < g.secperclus
  size_le : g.firstdatasector + g.dataclusters * g.secperclus ≤ g.totalsectors
  size_lt : g.totalsectors < 2 ^ 31

/-- A cluster of the data area, or a pseudo-cluster of the root directory of a FAT16 volume. -/
def Has (c : Int) : Prop :=
  2 ≤ c ∧ c ≤ g.dataclusters + 1 ∨
    g.isFat16 = true ∧ c < 0 ∧
      (g.rootdirsector : Int) ≤ g.firstdatasector + c * g.secperclus + g.rootdiroffset

/-- The first sector of a cluster. -/
def base (c : Int) : Int := (c - if c < 0 then 0 else 2) * g.secperclus + g.firstdatasector

/-- The sectors of a cluster. -/
@[grind =] def clusterSectors (c : Int) : List Int := (List.range g.secperclus).map fun j : Nat => g.base c + j

/-- The pseudo-clusters of the root directory begin before its first sector. -/
def skip (first : Int) : Nat := if first < 0 then g.rootdiroffset else 0

/-- The sectors of a file, in the order of its clusters. -/
def fileSectors (cs : List Int) : List Int :=
  (cs.flatMap g.clusterSectors).drop (g.skip (cs.headD 0))

end Geometry

/-- The clusters of a well-formed chain: all of them exist. -/
inductive Chain (t : Table) : List Int → Prop
  | last {c : Int} (hc : g.Has c) (hnext : g.getNextCluster t c = 0) : Chain t [c]
  | cons {c d : Int} {cs : List Int} (hc : g.Has c) (hnext : g.getNextCluster t c = d)
      (htail : Chain t (d :: cs)) : Chain t (c :: d :: cs)

/-- The clusters from the first one to the one that has no next cluster. -/
inductive Links (t : Table) : List Int → Prop
  | last {c : Int} (hnext : g.getNextCluster t c = 0) : Links t [c]
  | cons {c d : Int} {cs : List Int} (hnext : g.getNextCluster t c = d) (hd : d ≠ 0)
      (htail : Links t (d :: cs)) : Links t (c :: d :: cs)

variable {g} {t : Table} {c d : Int} {cs : List Int}

namespace Geometry

theorem long_eq {x : Int} (hl : -2 ^ 31 ≤ x) (hu : x < 2 ^ 31) : long x = x := by
  unfold long
  rw [Int.bmod_def]
  split <;> omega

theorem Has.ne_zero (h : g.Has c) : c ≠ 0 := by
  rcases h with h | h
  · omega
  · omega

theorem Wf.mul_nonneg (hw : g.Wf) {n : Int} (hn : 1 ≤ n) : (g.secperclus : Int) ≤ n * g.secperclus := by
  have hk := hw.secperclus_pos
  nlinarith

/-- A pseudo-cluster ends before the data area. -/
theorem base_neg (hw : g.Wf) (hc : c < 0) : g.base c + g.secperclus ≤ g.firstdatasector := by
  have h := hw.mul_nonneg (show 1 ≤ -c by omega)
  unfold base
  rw [if_pos hc]
  linarith

theorem base_data (hc : 2 ≤ c) : g.base c = (c - 2) * g.secperclus + g.firstdatasector := by
  unfold base
  rw [if_neg (by omega)]

theorem le_base (hc : 2 ≤ c) : (g.firstdatasector : Int) ≤ g.base c := by
  rw [base_data hc]
  have h := Int.mul_nonneg (show 0 ≤ c - 2 by omega) (show 0 ≤ (g.secperclus : Int) by omega)
  omega

theorem base_le (hc : 2 ≤ c) (hle : c ≤ g.dataclusters + 1) :
    g.base c + g.secperclus ≤ g.firstdatasector + g.dataclusters * g.secperclus := by
  rw [base_data hc]
  have h := Int.mul_le_mul_of_nonneg_right (show c - 1 ≤ g.dataclusters by omega)
    (show 0 ≤ (g.secperclus : Int) by omega)
  linarith

theorem Wf.clusters_lt (hw : g.Wf) : g.dataclusters + 1 < 2 ^ 31 := by
  have h := Nat.le_mul_of_pos_right g.dataclusters hw.secperclus_pos
  have hf := hw.two_le_root
  have hr := hw.root_le
  have hs := hw.size_le
  have hl := hw.size_lt
  omega

theorem cluster2sec_eq (hw : g.Wf) (hc : g.Has c) : g.cluster2sec c = g.base c := by
  have hlt := hw.clusters_lt
  have hr := hw.root_le
  have hs := hw.size_le
  have hl := hw.size_lt
  have ho := hw.offset_lt
  have hk := hw.secperclus_le
  unfold cluster2sec
  rw [long_eq (by omega) (by omega)]
  rcases hc with ⟨h2, hle⟩ | ⟨-, hneg, hroot⟩
  · rw [if_neg (by omega)]
    have h1 := base_le h2 hle
    have h0 := le_base (g := g) h2
    exact long_eq (by unfold base at h0; omega) (by unfold base at h1; omega)
  · rw [if_neg (by omega)]
    have h1 := base_neg hw hneg
    have h0 : g.base c = c * g.secperclus + g.firstdatasector := by
      unfold base
      rw [if_pos hneg, Int.sub_zero]
    exact long_eq (by unfold base at h0; omega) (by unfold base at h1; omega)

/-- Behind the end of a chain: the sector two clusters before the data area. -/
theorem cluster2sec_zero (hw : g.Wf) :
    g.cluster2sec 0 = g.firstdatasector - 2 * g.secperclus := by
  have hlt := hw.clusters_lt
  have hs := hw.size_le
  have hl := hw.size_lt
  have hk := hw.secperclus_le
  unfold cluster2sec
  rw [long_eq (by omega) (by omega), if_neg (by omega), if_neg (by omega)]
  rw [long_eq (by omega) (by omega)]
  omega

end Geometry

/-! ## Chains -/

theorem Chain.has (h : Chain g t (c :: cs)) : g.Has c := by
  cases h with
  | last hc => exact hc
  | cons hc => exact hc

theorem Chain.has_of_mem (h : Chain g t cs) (hc : c ∈ cs) : g.Has c := by
  induction h with
  | last hd =>
    rw [List.mem_singleton.1 hc]
    exact hd
  | cons hd _ _ ih =>
    rcases List.mem_cons.1 hc with rfl | hc
    · exact hd
    · exact ih hc

theorem Chain.links (h : Chain g t cs) : Links g t cs := by
  induction h with
  | last _ hn => exact .last hn
  | cons _ hn htail ih => exact .cons hn htail.has.ne_zero ih

theorem Chain.drop {l : List Int} (h : Chain g t (l ++ c :: cs)) : Chain g t (c :: cs) := by
  induction l with
  | nil => exact h
  | cons d l ih =>
    cases l with
    | nil =>
      cases h with
      | cons _ _ htail => exact htail
    | cons e l =>
      cases h with
      | cons _ _ htail => exact ih htail

namespace Links

/-- The clusters are determined by the first one. -/
theorem unique {cs' : List Int} (h : Links g t (c :: cs)) (h' : Links g t (c :: cs')) :
    cs = cs' := by
  induction cs generalizing c cs' with
  | nil =>
    cases h with
    | last hn =>
      cases h' with
      | last => rfl
      | cons hn' hd' =>
        rw [hn] at hn'
        exact absurd hn'.symm hd'
  | cons d cs ih =>
    cases h with
    | cons hn hd htail =>
      cases h' with
      | last hn' =>
        rw [hn'] at hn
        exact absurd hn.symm hd
      | cons hn' _ htail' =>
        rw [hn] at hn'
        subst hn'
        rw [ih htail htail']

theorem drop {l : List Int} (h : Links g t (l ++ c :: cs)) : Links g t (c :: cs) := by
  induction l with
  | nil => exact h
  | cons d l ih =>
    cases l with
    | nil =>
      cases h with
      | cons _ _ htail => exact htail
    | cons e l =>
      cases h with
      | cons _ _ htail => exact ih htail

theorem nodup (h : Links g t cs) : cs.Nodup := by
  induction h with
  | last => exact List.nodup_singleton _
  | @cons c d cs hn hd htail ih =>
    refine List.nodup_cons.2 ⟨fun hmem => ?_, ih⟩
    -- the clusters from the second time on would be fewer
    obtain ⟨l, r, hl⟩ := List.append_of_mem hmem
    have hr : Links g t (c :: r) := drop (hl ▸ htail)
    have heq := (Links.cons hn hd htail).unique hr
    have hlen := congrArg List.length hl
    rw [heq] at hlen
    simp only [List.length_append, List.length_cons] at hlen
    omega

theorem next_getElem (h : Links g t cs) {i : Nat} (hi : i + 1 < cs.length) :
    g.getNextCluster t cs[i] = cs[i + 1] := by
  induction h generalizing i with
  | last =>
    simp only [List.length_singleton] at hi
    omega
  | cons hn _ _ ih =>
    cases i with
    | zero => exact hn
    | succ i => exact ih (by simpa using hi)

theorem ne_zero (h : Links g t cs) {i : Nat} (hi : i + 1 < cs.length) : cs[i + 1] ≠ 0 := by
  induction h generalizing i with
  | last =>
    simp only [List.length_singleton] at hi
    omega
  | cons _ hd _ ih =>
    cases i with
    | zero => exact hd
    | succ i => exact ih (by simpa using hi)

theorem next_last (h : Links g t cs) {i : Nat} (hi : i + 1 = cs.length) :
    g.getNextCluster t cs[i] = 0 := by
  induction h generalizing i with
  | last hn =>
    obtain rfl : i = 0 := by simpa using hi
    exact hn
  | cons _ _ _ ih =>
    cases i with
    | zero => simp at hi
    | succ i => exact ih (by simpa using hi)

/-- `n` clusters on from the `i`-th. -/
theorem walk_eq (h : Links g t cs) {i : Nat} (hi : i < cs.length) (n : Nat) :
    walk g t n cs[i] = cs[i + n]? := by
  induction n generalizing i with
  | zero => exact (List.getElem?_eq_getElem hi).symm
  | succ n ih =>
    rw [walk]
    by_cases hn : i + 1 < cs.length
    · rw [h.next_getElem hn, if_neg (h.ne_zero hn), ih hn]
      congr 1
      omega
    · rw [h.next_last (by omega), if_pos rfl]
      exact (List.getElem?_eq_none (by omega)).symm

end Links

theorem Chain.nodup (h : Chain g t cs) : cs.Nodup := h.links.nodup

theorem Chain.congr {t' : Table} (h : Chain g t cs)
    (heq : ∀ c ∈ cs, g.getNextCluster t' c = g.getNextCluster t c) : Chain g t' cs := by
  induction h with
  | last hc hn => exact .last hc ((heq _ List.mem_cons_self).trans hn)
  | cons hc hn _ ih =>
    refine .cons hc ((heq _ List.mem_cons_self).trans hn) (ih fun c hc => ?_)
    exact heq c (List.mem_cons_of_mem _ hc)

/-- Up to its `i`-th cluster a chain is also one in a FAT that agrees there. -/
theorem Chain.splice {t' : Table} {i : Nat} (h : Chain g t cs) (hi : i < cs.length)
    (heq : ∀ j (hj : j < cs.length), j < i → g.getNextCluster t' cs[j] = g.getNextCluster t cs[j])
    {l : List Int} (hl : Chain g t' (cs[i] :: l)) : Chain g t' (cs.take i ++ cs[i] :: l) := by
  induction h generalizing i with
  | last =>
    obtain rfl : i = 0 := by simpa using hi
    exact hl
  | cons hc hn htail ih =>
    cases i with
    | zero => exact hl
    | succ i =>
      have hrest := ih (i := i) (by simpa using hi)
        (fun j hj hji => heq (j + 1) (by simpa using hj) (by omega)) hl
      have hnext := (heq 0 (by simp) (by omega)).trans hn
      cases i with
      | zero => exact .cons hc hnext hrest
      | succ i => exact .cons hc hnext hrest

/-! ## Sectors -/

theorem clusterSectors_disjoint (hw : g.Wf) (hc : g.Has c) (hd : g.Has d) (hne : c ≠ d) :
    List.Disjoint (g.clusterSectors c) (g.clusterSectors d) := by
  intro s hs hs'
  obtain ⟨i, hi, rfl⟩ := List.mem_map.1 hs
  obtain ⟨j, hj, heq⟩ := List.mem_map.1 hs'
  have hik := List.mem_range.1 hi
  have hjk := List.mem_range.1 hj
  -- in the same area the numbers differ by a whole cluster at least
  have harea : ∀ x y : Int, x < y →
      g.base y - g.base x = (y - x) * g.secperclus → g.base x + i ≠ g.base y + j ∧
        g.base x + j ≠ g.base y + i := by
    intro x y hxy hb
    have h1 := hw.mul_nonneg (show 1 ≤ y - x by omega)
    constructor <;> omega
  rcases hc with ⟨h2, -⟩ | ⟨-, hcn, -⟩
  · rcases hd with ⟨h2', -⟩ | ⟨-, hdn, -⟩
    · have hb := Geometry.base_data (g := g) h2
      have hb' := Geometry.base_data (g := g) h2'
      rcases lt_or_gt_of_ne hne with hlt | hlt
      · exact (harea c d hlt (by rw [hb, hb']; ring)).1 heq.symm
      · exact (harea d c hlt (by rw [hb, hb']; ring)).2 heq
    · have h1 := Geometry.base_neg hw hdn
      have h0 := Geometry.le_base (g := g) h2
      omega
  · rcases hd with ⟨h2', -⟩ | ⟨-, hdn, -⟩
    · have h1 := Geometry.base_neg hw hcn
      have h0 := Geometry.le_base (g := g) h2'
      omega
    · have hb : g.base c = c * g.secperclus + g.firstdatasector := by
        unfold Geometry.base
        rw [if_pos hcn, Int.sub_zero]
      have hb' : g.base d = d * g.secperclus + g.firstdatasector := by
        unfold Geometry.base
        rw [if_pos hdn, Int.sub_zero]
      rcases lt_or_gt_of_ne hne with hlt | hlt
      · exact (harea c d hlt (by rw [hb, hb']; ring)).1 heq.symm
      · exact (harea d c hlt (by rw [hb, hb']; ring)).2 heq

theorem clusterSectors_nodup (c : Int) : (g.clusterSectors c).Nodup := by
  refine List.Nodup.map (fun i j hij => ?_) List.nodup_range
  simpa using hij

theorem sectors_nodup (hw : g.Wf) (h : Chain g t cs) : (cs.flatMap g.clusterSectors).Nodup := by
  rw [List.nodup_flatMap]
  refine ⟨fun c _ => clusterSectors_nodup c, ?_⟩
  refine h.nodup.imp_of_mem fun {c d} hc hd hne => ?_
  exact clusterSectors_disjoint hw (h.has_of_mem hc) (h.has_of_mem hd) hne

/-- The sectors of a file from a place within its `i`-th cluster on. -/
theorem drop_sectors {i m : Nat} (hi : i < cs.length) (hm : m ≤ g.secperclus) :
    (cs.flatMap g.clusterSectors).drop (i * g.secperclus + m) =
      (g.clusterSectors cs[i]).drop m ++ (cs.drop (i + 1)).flatMap g.clusterSectors := by
  induction cs generalizing i with
  | nil => simp at hi
  | cons c cs ih =>
    have hlen : (g.clusterSectors c).length = g.secperclus := by simp [Geometry.clusterSectors]
    rw [List.flatMap_cons]
    cases i with
    | zero =>
      rw [Nat.zero_mul, Nat.zero_add, List.drop_append_of_le_length (by omega)]
      rfl
    | succ i =>
      rw [List.drop_append, List.drop_eq_nil_of_le (by rw [hlen, Nat.succ_mul]; omega),
        List.nil_append, hlen, show (i + 1) * g.secperclus + m - g.secperclus =
          i * g.secperclus + m by rw [Nat.succ_mul]; omega]
      exact ih (by simpa using hi)

theorem drop_clusterSectors_cons {m : Nat} (hm : m < g.secperclus) (c : Int) :
    (g.clusterSectors c).drop m = (g.base c + m) :: (g.clusterSectors c).drop (m + 1) := by
  have hlen : (g.clusterSectors c).length = g.secperclus := by simp [Geometry.clusterSectors]
  rw [List.drop_eq_getElem_cons (by omega)]
  simp [Geometry.clusterSectors]

theorem drop_clusterSectors_nil {m : Nat} (hm : g.secperclus ≤ m) (c : Int) :
    (g.clusterSectors c).drop m = [] := by
  refine List.drop_eq_nil_of_le ?_
  simpa [Geometry.clusterSectors] using hm

theorem Geometry.skip_lt (hw : g.Wf) (c : Int) : g.skip c < g.secperclus := by
  unfold Geometry.skip
  split
  · exact hw.offset_lt
  · exact hw.secperclus_pos

theorem Geometry.fileSectors_cons (hw : g.Wf) (c : Int) (cs : List Int) :
    g.fileSectors (c :: cs) = (g.clusterSectors c).drop (g.skip c) ++ cs.flatMap g.clusterSectors := by
  have hpos : 0 < (c :: cs).length := Nat.zero_lt_succ _
  have hsplit := drop_sectors hpos (Geometry.skip_lt hw c).le
  rw [Nat.zero_mul, Nat.zero_add] at hsplit
  unfold Geometry.fileSectors
  rw [List.headD_cons, hsplit]
  rfl

/-- The root directory of a FAT16 volume: one cluster after the other, up to the data area. -/
theorem Chain.next_neg (h : Chain g t (c :: d :: cs)) (hc : c < 0) : d = c + 1 := by
  cases h with
  | cons hhas hn _ =>
    rcases hhas with hhas | hhas
    · omega
    · unfold Geometry.getNextCluster at hn
      rw [if_pos ⟨hhas.1, hc⟩] at hn
      exact hn.symm

/-- A cluster that follows another one does not begin before the root directory. -/
theorem Geometry.Has.root_le_next (hw : g.Wf) (hc : g.Has c) (hnext : g.getNextCluster t c = d)
    (hd : g.Has d) : (g.rootdirsector : Int) ≤ g.base d := by
  rcases hd with ⟨h2, -⟩ | ⟨-, hneg, -⟩
  · have h1 := Geometry.le_base (g := g) h2
    have hr := hw.root_le
    omega
  · -- one cluster on from `c`, whose number is negative too
    have hcn : c < 0 := by
      by_contra hcn
      unfold Geometry.getNextCluster at hnext
      rw [if_neg (by omega)] at hnext
      omega
    rcases hc with ⟨h2, -⟩ | ⟨h16, -, hroot⟩
    · omega
    · unfold Geometry.getNextCluster at hnext
      rw [if_pos ⟨h16, hcn⟩] at hnext
      subst hnext
      have hoff := hw.offset_lt
      unfold Geometry.base
      rw [if_pos hneg]
      linarith

/-- The clusters behind the first one do not begin before the root directory. -/
theorem Chain.root_le_base (hw : g.Wf) (h : Chain g t (c :: cs)) (hd : d ∈ cs) :
    (g.rootdirsector : Int) ≤ g.base d := by
  induction cs generalizing c with
  | nil => cases hd
  | cons e cs ih =>
    cases h with
    | cons hhas hn htail =>
      rcases List.mem_cons.1 hd with rfl | hd
      · exact hhas.root_le_next hw hn htail.has
      · exact ih htail hd

/-- The sectors of the root directory of a FAT16 volume lie one behind the other. -/
theorem Chain.root_sectors (h : Chain g t (c :: cs)) (hc : c < 0) :
    (c :: cs).flatMap g.clusterSectors =
      (List.range ((-c).toNat * g.secperclus)).map fun j : Nat => g.base c + j := by
  induction cs generalizing c with
  | nil =>
    cases h with
    | last hhas hn =>
      have h1 : c = -1 := by
        unfold Geometry.getNextCluster at hn
        rcases hhas with hhas | hhas
        · omega
        · rw [if_pos ⟨hhas.1, hc⟩] at hn
          omega
      subst h1
      simp [Geometry.clusterSectors]
  | cons d cs ih =>
    have hd := h.next_neg hc
    cases h with
    | cons hhas hn htail =>
      have hdn : d < 0 := by
        have := htail.has.ne_zero
        omega
      have hsplit : (-c).toNat * g.secperclus = g.secperclus + (-d).toNat * g.secperclus := by
        rw [show (-c).toNat = (-d).toNat + 1 by omega, Nat.succ_mul, Nat.add_comm]
      have hbase : g.base d = g.base c + g.secperclus := by
        unfold Geometry.base
        rw [if_pos hc, if_pos hdn, hd]
        ring
      rw [List.flatMap_cons, ih htail hdn, hsplit, List.range_add, List.map_append, List.map_map]
      refine congrArg₂ (· ++ ·) rfl (List.map_congr_left fun j _ => ?_)
      simp only [Function.comp_apply, hbase]
      push_cast
      ring

/-- A chain that begins in the data area stays there. -/
theorem Chain.data (h : Chain g t (c :: cs)) (hc : 0 ≤ c) (hd : d ∈ c :: cs) : 2 ≤ d := by
  induction cs generalizing c with
  | nil =>
    rw [List.mem_singleton.1 hd]
    rcases h.has with hhas | hhas
    · exact hhas.1
    · omega
  | cons e cs ih =>
    rcases List.mem_cons.1 hd with rfl | hd
    · rcases h.has with hhas | hhas
      · exact hhas.1
      · omega
    · cases h with
      | cons _ hn htail =>
        have he : 0 ≤ e := by
          unfold Geometry.getNextCluster at hn
          rw [if_neg (by omega)] at hn
          omega
        exact ih htail he hd

/-- A chain that begins in the root directory of a FAT16 volume stays there. -/
theorem Chain.neg (h : Chain g t (c :: cs)) (hc : c < 0) (hd : d ∈ c :: cs) : d < 0 := by
  induction cs generalizing c with
  | nil =>
    rw [List.mem_singleton.1 hd]
    exact hc
  | cons e cs ih =>
    rcases List.mem_cons.1 hd with rfl | hd
    · exact hc
    · have he := h.next_neg hc
      cases h with
      | cons _ _ htail =>
        have hne := htail.has.ne_zero
        exact ih htail (by omega) hd

/-- No chain ends before the data area begins. -/
theorem Chain.getLast_sectors (hw : g.Wf) (h : Chain g t cs) {s : Int}
    (hs : s ∈ (cs.flatMap g.clusterSectors).getLast?) : (g.firstdatasector : Int) ≤ s + 1 := by
  have hk := hw.secperclus_pos
  induction h with
  | @last c hc hn =>
    rw [List.flatMap_singleton, Geometry.clusterSectors, List.getLast?_map,
      List.getLast?_range] at hs
    rw [if_neg (by omega)] at hs
    simp only [Option.map_some, Option.mem_def, Option.some.injEq] at hs
    rcases hc with ⟨h2, -⟩ | ⟨h16, hneg, -⟩
    · have h1 := Geometry.le_base (g := g) h2
      omega
    · have h1 : c = -1 := by
        unfold Geometry.getNextCluster at hn
        rw [if_pos ⟨h16, hneg⟩] at hn
        omega
      have hb : g.base c = -1 * g.secperclus + g.firstdatasector := by
        unfold Geometry.base
        rw [if_pos hneg, h1, Int.sub_zero]
      omega
  | @cons c d cs _ _ htail ih =>
    have hne : (d :: cs).flatMap g.clusterSectors ≠ [] := by
      have hd := drop_clusterSectors_cons hk d
      rw [List.drop_zero] at hd
      rw [List.flatMap_cons, hd]
      exact List.cons_ne_nil _ _
    rw [List.flatMap_cons, List.getLast?_append_of_ne_nil _ hne] at hs
    exact ih hs

/-- No sector of a file lies before the root directory. -/
theorem Chain.root_le_sector (hw : g.Wf) (h : Chain g t (c :: cs)) {s : Int}
    (hs : s ∈ g.fileSectors (c :: cs)) : (g.rootdirsector : Int) ≤ s := by
  rw [Geometry.fileSectors_cons hw] at hs
  rcases List.mem_append.1 hs with hs | hs
  · obtain ⟨j, hj, rfl⟩ := List.mem_drop_iff_getElem.1 hs
    simp only [Geometry.clusterSectors, List.getElem_map, List.getElem_range]
    rcases h.has with ⟨h2, -⟩ | ⟨-, hneg, hroot⟩
    · have h1 := Geometry.le_base (g := g) h2
      have hr := hw.root_le
      omega
    · unfold Geometry.skip Geometry.base
      rw [if_pos hneg, if_pos hneg]
      push_cast
      linarith
  · obtain ⟨d, hd, hs⟩ := List.mem_flatMap.1 hs
    have h1 := h.root_le_base hw hd
    obtain ⟨j, -, rfl⟩ := List.mem_map.1 hs
    omega

end Fat
end Freemyipod
