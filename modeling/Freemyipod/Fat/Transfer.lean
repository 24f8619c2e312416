import Freemyipod.Fat.Chain

/-!
# Fat.Transfer

Reading with `fat_readwrite`: the sectors of the chain from the position of the file on, each at
its place in the buffer, in as few transfers as the storage allows.

* `readwriteLoop_prefix`: up to the end of the chain the loop transfers what it should.
* `follows_iff`: a read does so, and returns the number of sectors, up to one sector behind the
  chain. Farther behind, the loop goes on counting; and in the root directory of a FAT16 volume the
  sector number behind the end may be that of the run still to be transferred.
-/

namespace Freemyipod
namespace Fat

open Effect

variable (g : Geometry)

/-- Each sector that is transferred, with its place in the buffer. -/
def Transfer.places (r : Transfer) : List (Int × Int) :=
  (List.range r.count.toNat).map fun j : Nat => (r.start + j, r.buf + j)

/-- The sectors of a list, the `i`-th at place `i`. -/
def placed (S : List Int) : List (Int × Int) := S.mapIdx fun i s => (s, (i : Int))

/-- No transfer has more than 256 sectors, and one that has less ends where no further sector
follows. -/
structure Merged (rs : List Transfer) : Prop where
  count : ∀ r ∈ rs, 1 ≤ r.count ∧ r.count ≤ 256
  next : rs.IsChain fun r r' => r'.start = r.start + r.count → r.count = 256

/-- Of the sectors `S`, the first `n` are read from state `a` on, with result `r` and last state
`a'`. -/
structure Follows (S : List Int) (n : Nat) (a : Access) (r : Int) (a' : Access) : Prop where
  transfers : ∃ rs, a'.transfers = a.transfers ++ rs ∧ rs.flatMap Transfer.places = placed (S.take n) ∧
    Merged rs ∧ ∀ x ∈ rs, x.write = false
  result : r = min n S.length
  eof : a'.file.eof = true → S.length ≤ n

/-- The file is on the chain of its first cluster and `cs`, behind `n` sectors. -/
inductive Positioned (f : FatFile) (cs : List Int) (n : Nat) : Prop
  | opened (hn : n = 0) (hlast : f.lastcluster = f.firstcluster) (hsector : f.lastsector = 0)
      (hnum : f.sectornum = 0) (heof : f.eof = false)
  | inside (i j : Nat) (hi : (f.firstcluster :: cs)[i]? = some f.lastcluster)
      (hj : j < g.secperclus) (hnum : f.sectornum = j + 1)
      (hsector : f.lastsector = g.base f.lastcluster + j)
      (hn : n + g.skip f.firstcluster = i * g.secperclus + j + 1) (heof : f.eof = false)
  | ended (hn : n = (g.fileSectors (f.firstcluster :: cs)).length) (heof : f.eof = true)

/-- The sectors that a file at a position still has. -/
def remaining (f : FatFile) (cs : List Int) (n : Nat) : List Int :=
  (g.fileSectors (f.firstcluster :: cs)).drop n

/-! ## Transfers -/

variable {g} {rc : Nat → Int} {a : Access} {S : List Int} {n : Nat} {cs : List Int}

theorem placed_take_succ {i : Nat} (hi : i < S.length) :
    placed (S.take (i + 1)) = placed (S.take i) ++ [(S[i], (i : Int))] := by
  unfold placed
  rw [← List.take_concat_get' S i hi, List.mapIdx_append]
  simp [Nat.min_eq_left (Nat.le_of_lt hi)]

theorem length_placed : (placed S).length = S.length := List.length_mapIdx

theorem places_succ {start buf : Int} {k : Int} (hk : 0 ≤ k) (w : Bool) :
    Transfer.places ⟨start, k + 1, buf, w⟩ =
      Transfer.places ⟨start, k, buf, w⟩ ++ [(start + k, buf + k)] := by
  unfold Transfer.places
  dsimp only
  rw [show (k + 1).toNat = k.toNat + 1 by omega, List.range_succ, List.map_append]
  simp [Int.toNat_of_nonneg hk]

theorem transfer_read (hrc : ∀ i, 0 ≤ rc i) {start count buf : Int} {Q : Int → Access → Prop} :
    Wp (transfer g rc start count buf false) a Q ↔
      Q 0 { a with transfers := a.transfers ++ [⟨start, count, buf, false⟩] } := by
  unfold transfer
  rw [if_neg (by simp), if_neg (by simp)]
  simp only [wp_bind, wp_get, wp_set, wp_pure, if_neg (Int.not_lt.2 (hrc _))]

/-- The run of sectors that is still to be transferred. -/
def Cursor.run (c : Cursor) : Transfer := ⟨c.first, c.last - c.first + 1, c.buf, false⟩

theorem run_count (c : Cursor) : c.run.count = c.last - c.first + 1 := rfl

/-- After `i` turns: the transfers `rs`, and then the run of the cursor, are the first `i` sectors
of `S`. -/
structure Packed (S : List Int) (i : Nat) (rs : List Transfer) (c : Cursor) : Prop where
  places : (rs ++ [c.run]).flatMap Transfer.places = placed (S.take i)
  merged : Merged (rs ++ [c.run])
  read : ∀ r ∈ rs, r.write = false
  first_mem : c.first ∈ S.take i
  next : c.buf + c.run.count = i
  /-- Where no sector is left out between two of them, only full runs have been transferred. -/
  aligned : (S.IsChain fun s s' => s' = s + 1) → c.buf % 256 = 0

theorem Merged.append_singleton {rs : List Transfer} {r r' : Transfer} (h : Merged (rs ++ [r]))
    (hc : 1 ≤ r'.count ∧ r'.count ≤ 256) (hn : r'.start = r.start + r.count → r.count = 256) :
    Merged (rs ++ [r] ++ [r']) where
  count := by
    intro x hx
    rcases List.mem_append.1 hx with hx | hx
    · exact h.count x hx
    · rw [List.mem_singleton.1 hx]
      exact hc
  next := by
    refine List.isChain_append.2 ⟨h.next, List.isChain_singleton _, ?_⟩
    intro x hx y hy
    simp only [List.getLast?_append, List.getLast?_singleton, Option.some_or, Option.mem_def,
      Option.some.injEq] at hx
    simp only [List.head?_cons, Option.mem_def, Option.some.injEq] at hy
    subst hx hy
    exact hn

theorem Merged.grow {rs : List Transfer} {r r' : Transfer} (h : Merged (rs ++ [r]))
    (hs : r'.start = r.start) (hc : 1 ≤ r'.count ∧ r'.count ≤ 256) : Merged (rs ++ [r']) where
  count := by
    intro x hx
    rcases List.mem_append.1 hx with hx | hx
    · exact h.count x (List.mem_append_left _ hx)
    · rw [List.mem_singleton.1 hx]
      exact hc
  next := by
    have h' := List.isChain_append.1 h.next
    refine List.isChain_append.2 ⟨h'.1, List.isChain_singleton _, ?_⟩
    intro x hx y hy
    simp only [List.head?_cons, Option.mem_def, Option.some.injEq] at hy
    subst hy
    rw [hs]
    exact h'.2.2 x hx r (by simp)

/-- The first sector begins the first run. -/
theorem Packed.start {c : Cursor} (hS : 0 < S.length) (hf : c.first = S[0]) (hl : c.last = S[0])
    (hb : c.buf = 0) : Packed S 1 [] c := by
  have hrun : c.run = ⟨S[0], 0 + 1, 0, false⟩ := by
    unfold Cursor.run
    rw [hf, hl, hb]
    simp
  refine ⟨?_, ⟨?_, List.isChain_singleton _⟩, ?_, ?_, ?_, ?_⟩
  · rw [placed_take_succ hS, List.nil_append, List.flatMap_singleton, hrun, places_succ le_rfl]
    simp [Transfer.places, placed]
  · intro r hr
    rw [List.mem_singleton.1 hr, hrun]
    simp
  · intro r hr
    cases hr
  · rw [hf, ← List.take_concat_get' S 0 hS]
    simp
  · rw [hb, hrun]
    rfl
  · intro _
    rw [hb]
    rfl

/-- The next sector follows the run. -/
theorem Packed.grow {i : Nat} {rs : List Transfer} {c c' : Cursor} (h : Packed S i rs c)
    (hi : i < S.length) (hs : S[i] = c.last + 1) (hlt : c.run.count < 256)
    (hf : c'.first = c.first) (hl : c'.last = S[i]) (hb : c'.buf = c.buf) :
    Packed S (i + 1) rs c' := by
  have hcount := h.merged.count c.run (by simp)
  have hrun : c'.run = ⟨c.first, c.run.count + 1, c.buf, false⟩ := by
    rw [run_count]
    unfold Cursor.run
    rw [hf, hl, hb, hs, show c.last + 1 - c.first + 1 = c.last - c.first + 1 + 1 by omega]
  refine ⟨?_, ?_, h.read, ?_, ?_, ?_⟩
  · have hp := h.places
    rw [List.flatMap_append, List.flatMap_singleton] at hp
    rw [List.flatMap_append, List.flatMap_singleton, hrun, places_succ (by omega),
      placed_take_succ hi, ← List.append_assoc, ← hp]
    refine congrArg₂ (· ++ ·) rfl ?_
    rw [hs, h.next]
    unfold Cursor.run
    rw [show c.first + (c.last - c.first + 1) = c.last + 1 by omega]
  · refine h.merged.grow (by rw [hrun]; rfl) ?_
    rw [hrun]
    dsimp only
    omega
  · rw [hf]
    rw [← List.take_concat_get' S i hi]
    exact List.mem_append_left _ h.first_mem
  · have hn := h.next
    rw [hrun, hb]
    dsimp only
    push_cast
    omega
  · intro hc
    rw [hb]
    exact h.aligned hc

/-- The run is transferred, and the next sector begins a new one. -/
theorem Packed.flush {i : Nat} {rs : List Transfer} {c c' : Cursor} (h : Packed S i rs c)
    (hi : i < S.length) (hlast : i ≠ 0 → c.last = S[i - 1])
    (hs : S[i] = c.last + 1 → c.run.count = 256) (hf : c'.first = S[i]) (hl : c'.last = S[i])
    (hb : c'.buf = c.buf + c.run.count) : Packed S (i + 1) (rs ++ [c.run]) c' := by
  have hcount := h.merged.count c.run (by simp)
  have hrun : c'.run = ⟨S[i], 0 + 1, i, false⟩ := by
    unfold Cursor.run
    rw [hf, hl, hb, h.next, Int.sub_self]
  refine ⟨?_, ?_, ?_, ?_, ?_, ?_⟩
  · rw [List.flatMap_append, h.places, List.flatMap_singleton, hrun, places_succ le_rfl,
      placed_take_succ hi]
    simp [Transfer.places]
  · refine h.merged.append_singleton (by rw [hrun]; simp) fun hn => hs ?_
    rw [hrun, run_count] at hn
    have hfirst : c.run.start = c.first := rfl
    rw [hfirst] at hn
    dsimp only at hn
    omega
  · intro r hr
    rcases List.mem_append.1 hr with hr | hr
    · exact h.read r hr
    · rw [List.mem_singleton.1 hr]
      rfl
  · rw [hf, ← List.take_concat_get' S i hi]
    exact List.mem_append_right _ (List.mem_singleton.2 rfl)
  · rw [hb, h.next, hrun]
    push_cast
    rfl
  · intro hc
    have h0 : i ≠ 0 := by
      have := List.ne_nil_of_mem h.first_mem
      rintro rfl
      exact this rfl
    have hchain : S[i] = S[i - 1] + 1 := by
      have := List.isChain_iff_getElem.1 hc (i - 1) (by omega)
      simpa [Nat.sub_add_cancel (Nat.pos_of_ne_zero h0)] using this
    rw [hb, hs (by rw [hchain, hlast h0]), Int.add_emod, h.aligned hc]
    rfl

/-! ## The second half of a turn -/

theorem moveRun_flush (hrc : ∀ i, 0 ≤ rc i) {c : Cursor} {Q : Moved → Access → Prop}
    (hf : c.first ≠ 0)
    (hflush : c.sector ≠ c.first ∧ c.sector ≠ c.last + 1 ∨ c.last - c.first + 1 = 256) :
    Wp (moveRun g rc false c) a Q ↔
      Q (.ok { c with buf := c.buf + c.run.count, first := c.sector })
        { a with transfers := a.transfers ++ [c.run] } := by
  unfold moveRun
  simp only [if_neg hf, if_pos hflush, wp_bind]
  rw [transfer_read hrc]
  simp only [lt_irrefl, if_false, wp_pure]
  rfl

theorem moveRun_keep {c : Cursor} {Q : Moved → Access → Prop} (hf : c.first ≠ 0)
    (hkeep : ¬ (c.sector ≠ c.first ∧ c.sector ≠ c.last + 1 ∨ c.last - c.first + 1 = 256)) :
    Wp (moveRun g rc false c) a Q ↔ Q (.ok c) a := by
  unfold moveRun
  simp only [if_neg hf, if_neg hkeep, wp_pure]

/-- Before the first sector there is no run. -/
theorem moveRun_first {c : Cursor} {Q : Moved → Access → Prop} (hf : c.first = 0)
    (hl : c.last - c.sector + 1 ≠ 256) :
    Wp (moveRun g rc false c) a Q ↔ Q (.ok { c with first := c.sector }) a := by
  unfold moveRun
  simp only [if_pos hf]
  rw [if_neg (by simp [hl]), wp_pure]

theorem moveLast_more {c : Cursor} {last : Bool} {Q : Moved → Access → Prop}
    (hl : ¬ (last = true ∧ c.eof = false)) :
    Wp (moveLast g rc false last c) a Q ↔ Q (.ok { c with last := c.sector }) a := by
  unfold moveLast
  rw [if_neg hl, wp_pure]

theorem moveLast_last (hrc : ∀ i, 0 ≤ rc i) {c : Cursor} {Q : Moved → Access → Prop}
    (he : c.eof = false) :
    Wp (moveLast g rc false true c) a Q ↔ Q (.ok { c with last := c.sector })
      { a with transfers := a.transfers ++ [{ c with last := c.sector }.run] } := by
  unfold moveLast
  rw [if_pos ⟨rfl, he⟩, wp_bind, transfer_read hrc]
  simp only [lt_irrefl, if_false, wp_pure]
  rfl

/-! ## The first half -/

/-- The cursor is before the sectors `S` of the file that begins with cluster `first`. -/
inductive Before (g : Geometry) (t : Table) (first : Int) (c : Cursor) (S : List Int) : Prop
  | opened (cs : List Int) (hchain : Chain g t (first :: cs)) (hcluster : c.cluster = first)
      (hsector : c.sector = 0) (hnum : c.numsec = 0)
      (hS : S = (g.clusterSectors first).drop (g.skip first) ++ cs.flatMap g.clusterSectors)
  | inside (cs : List Int) (hchain : Chain g t (c.cluster :: cs)) (m : Nat) (hm : 1 ≤ m)
      (hmk : m ≤ g.secperclus) (hnum : c.numsec = m) (hsector : c.sector = g.base c.cluster + m - 1)
      (hpos : 1 ≤ c.sector)
      (hS : S = (g.clusterSectors c.cluster).drop m ++ cs.flatMap g.clusterSectors)

/-- To the first of these sectors. -/
theorem advance_next {c : Cursor} {s : Int} (hw : g.Wf)
    (h : Before g a.table a.file.firstcluster c (s :: S)) (heof : c.eof = false) (hs : 1 ≤ s) :
    ∃ cl n k, Before g a.table a.file.firstcluster
        { c with cluster := cl, sector := s, clusternum := n, numsec := k } S ∧
      ∀ Q, Wp (advance g false c) a Q ↔
        Q (.there { c with cluster := cl, sector := s, clusternum := n, numsec := k }) a := by
  have hk := hw.secperclus_pos
  cases h with
  | opened cs hchain hcluster hsector hnum hS =>
    have hskip := Geometry.skip_lt hw a.file.firstcluster
    rw [drop_clusterSectors_cons hskip] at hS
    obtain ⟨rfl, rfl⟩ := List.cons_eq_cons.1 hS
    refine ⟨c.cluster, c.clusternum, g.skip a.file.firstcluster + 1, ?_, ?_⟩
    · refine .inside cs (by rw [hcluster]; exact hchain) (g.skip a.file.firstcluster + 1) (by omega)
        (by omega) (by push_cast; rfl) ?_ hs (by rw [hcluster]; rfl)
      rw [hcluster]
      push_cast
      ring
    · intro Q
      unfold advance
      have hne := hchain.has.ne_zero
      rw [wp_bind, wp_get, if_neg (by rw [hcluster, hnum]; omega), if_neg (by simp [hsector]),
        wp_pure, Geometry.cluster2sec_eq hw hchain.has]
      have hoff : (if a.file.firstcluster < 0 then (g.rootdiroffset : Int) else 0) =
          g.skip a.file.firstcluster := by
        unfold Geometry.skip
        split <;> rfl
      rw [hoff, Int.add_comm 1, heof]
  | inside cs hchain m hm hmk hnum hsector hpos hS =>
    have hne := hchain.has.ne_zero
    by_cases hlt : m < g.secperclus
    · rw [drop_clusterSectors_cons hlt] at hS
      obtain ⟨rfl, rfl⟩ := List.cons_eq_cons.1 hS
      refine ⟨c.cluster, c.clusternum, m + 1, ?_, ?_⟩
      · exact .inside cs hchain (m + 1) (by omega) (by omega) (by push_cast; rfl)
          (by push_cast; ring) hs rfl
      · intro Q
        unfold advance
        rw [wp_bind, wp_get, if_neg (by omega), if_pos (by omega), wp_pure, hsector, hnum, heof,
          show g.base c.cluster + (m : Int) - 1 + 1 = g.base c.cluster + m by omega]
    · obtain rfl : m = g.secperclus := by omega
      rw [drop_clusterSectors_nil le_rfl, List.nil_append] at hS
      cases cs with
      | nil => cases hS
      | cons d cs =>
        have hroot := hchain.root_le_base hw (List.mem_cons_self)
        have htwo := hw.two_le_root
        cases hchain with
        | cons _ hnext htail =>
          have hsplit := drop_clusterSectors_cons hk d
          rw [List.drop_zero] at hsplit
          rw [List.flatMap_cons, hsplit] at hS
          obtain ⟨rfl, rfl⟩ := List.cons_eq_cons.1 hS
          refine ⟨d, c.clusternum + 1, 1, ?_, ?_⟩
          · refine .inside cs htail 1 le_rfl hk rfl (by push_cast; ring) hs ?_
            simp
          · intro Q
            unfold advance
            rw [wp_bind, wp_get, if_pos (by omega), if_neg (by simp), wp_pure, hnext,
              Geometry.cluster2sec_eq hw htail.has, heof]
            simp [htail.has.ne_zero]

/-- Behind the last sector. -/
theorem advance_end {c : Cursor} (hw : g.Wf)
    (h : Before g a.table a.file.firstcluster c []) {Q : Advanced → Access → Prop} :
    Wp (advance g false c) a Q ↔
      Q (.there { c with cluster := 0, sector := g.firstdatasector - 2 * g.secperclus,
                         clusternum := c.clusternum + 1, numsec := 1, eof := true }) a := by
  have hk := hw.secperclus_pos
  cases h with
  | opened cs hchain hcluster hsector hnum hS =>
    have hskip := Geometry.skip_lt hw a.file.firstcluster
    rw [drop_clusterSectors_cons hskip] at hS
    cases hS
  | inside cs hchain m hm hmk hnum hsector hpos hS =>
    obtain ⟨hdrop, hcs⟩ := List.append_eq_nil_iff.1 hS.symm
    have hmk' : m = g.secperclus := by
      by_contra hne
      rw [drop_clusterSectors_cons (by omega)] at hdrop
      cases hdrop
    cases hchain with
    | last _ hnext =>
      unfold advance
      rw [wp_bind, wp_get, if_pos (by omega), if_neg (by simp), wp_pure, hnext,
        Geometry.cluster2sec_zero hw]
      simp
    | @cons _ d cs _ _ htail =>
      have hsplit := drop_clusterSectors_cons hk d
      rw [List.flatMap_cons, ← List.drop_zero (l := g.clusterSectors d), hsplit] at hcs
      cases hcs

/-! ## The loop -/

/-- The state with more transfers made. -/
@[grind =] def Access.add (a : Access) (rs : List Transfer) : Access :=
  { a with transfers := a.transfers ++ rs }

theorem Access.add_add (a : Access) (rs rs' : List Transfer) :
    (a.add rs).add rs' = a.add (rs ++ rs') := by
  simp [Access.add]

/-- After `i` turns from `a`, `i` not beyond the sectors `S`. -/
structure Inv (g : Geometry) (a : Access) (S : List Int) (i : Nat) (rs : List Transfer)
    (c : Cursor) : Prop where
  before : Before g a.table a.file.firstcluster c (S.drop i)
  sector : -1 < c.sector
  eof : c.eof = false
  run : i = 0 ∧ c.first = 0 ∧ c.last = 0 ∧ c.buf = 0 ∧ rs = [] ∨
    0 < i ∧ Packed S i rs c ∧ c.last = c.sector ∧ S[i - 1]? = some c.sector

/-- One turn: what it transfers, whether or not it is the last one, and what the last one
transfers in addition. -/
theorem Inv.turn {i : Nat} {rs : List Transfer} {c : Cursor} (hw : g.Wf) (hrc : ∀ i, 0 ≤ rc i)
    (hpos : ∀ s ∈ S, 1 ≤ s) (hnd : S.Nodup) (h : Inv g a S i rs c) (hi : i < S.length) :
    ∃ rs' c', Inv g a S (i + 1) rs' c' ∧
      (∀ k j Q, Wp (readwriteLoop g rc false (k + 2) j c) (a.add rs) Q ↔
        Wp (readwriteLoop g rc false (k + 1) (j + 1) c') (a.add rs') Q) ∧
      ∀ j Q, Wp (readwriteLoop g rc false 1 j c) (a.add rs) Q ↔
        Q (.done (j + 1) c') (a.add (rs' ++ [c'.run])) := by
  have hbefore := h.before
  rw [List.drop_eq_getElem_cons hi] at hbefore
  have hs : 1 ≤ S[i] := hpos _ (List.getElem_mem hi)
  obtain ⟨cl, n, k, hnext, hadv⟩ := advance_next (a := a.add rs) hw hbefore h.eof hs
  -- what the second half has to do
  suffices hmove : ∃ rs' f b, (∀ Q, Wp (moveRun g rc false
        { c with cluster := cl, sector := S[i], clusternum := n, numsec := k }) (a.add rs) Q ↔
        Q (.ok { c with cluster := cl, sector := S[i], clusternum := n, numsec := k, first := f,
                        buf := b }) (a.add rs')) ∧
      Packed S (i + 1) rs' { c with cluster := cl, sector := S[i], clusternum := n, numsec := k,
                                    first := f, buf := b, last := S[i] } by
    obtain ⟨rs', f, b, hmove, hpacked⟩ := hmove
    refine ⟨rs', { c with cluster := cl, sector := S[i], clusternum := n, numsec := k, first := f,
                          buf := b, last := S[i] }, ⟨?_, ?_, h.eof, .inr ⟨Nat.succ_pos i, hpacked, rfl, ?_⟩⟩, ?_, ?_⟩
    · cases hnext with
      | opened cs hchain hcluster hsector =>
        dsimp only at hsector
        omega
      | inside cs hchain m hm hmk hnum hsector hp hS =>
        exact .inside cs hchain m hm hmk hnum hsector hp hS
    · dsimp only
      omega
    · exact List.getElem?_eq_getElem hi
    · intro k' j Q
      rw [readwriteLoop, if_pos h.sector, wp_bind, hadv]
      simp only [wp_bind]
      rw [hmove]
      simp only [wp_bind]
      rw [moveLast_more (by simp)]
    · intro j Q
      rw [readwriteLoop, if_pos h.sector, wp_bind, hadv]
      simp only [wp_bind]
      rw [hmove]
      simp only [wp_bind, decide_true]
      rw [moveLast_last hrc]
      · simp only [readwriteLoop, wp_pure]
        rw [← Access.add_add]
        rfl
      · exact h.eof
  rcases h.run with ⟨rfl, hf, hl, hb, rfl⟩ | ⟨h0, hp, hl, hlast⟩
  · refine ⟨[], S[0], c.buf, fun Q => ?_, ?_⟩
    · refine moveRun_first hf ?_
      dsimp only
      omega
    · exact Packed.start hi rfl rfl hb
  · have hcount := hp.merged.count c.run (by simp)
    rw [run_count] at hcount
    have hmem : c.first ∈ S := List.mem_of_mem_take hp.first_mem
    have hf : c.first ≠ 0 := by
      have := hpos _ hmem
      omega
    -- the run does not begin with the next sector
    have hne : S[i] ≠ c.first := by
      intro heq
      obtain ⟨j, hj, hget⟩ := List.getElem_of_mem hp.first_mem
      rw [List.getElem_take] at hget
      have hij := (List.Nodup.getElem_inj_iff hnd).1 (heq.trans hget.symm)
      simp only [List.length_take] at hj
      omega
    have hprev : i ≠ 0 → c.last = S[i - 1] := by
      intro _
      rw [hl]
      rw [List.getElem?_eq_getElem (by omega)] at hlast
      exact (Option.some.inj hlast).symm
    by_cases hflush : S[i] ≠ c.last + 1 ∨ c.last - c.first + 1 = 256
    · refine ⟨rs ++ [c.run], S[i], c.buf + c.run.count, fun Q => ?_, ?_⟩
      · rw [← Access.add_add]
        refine moveRun_flush hrc hf ?_
        dsimp only
        tauto
      · refine hp.flush hi hprev (fun hs' => ?_) rfl rfl rfl
        rw [run_count]
        exact hflush.resolve_left (fun hc => hc hs')
    · refine ⟨rs, c.first, c.buf, fun Q => ?_, ?_⟩
      · refine moveRun_keep hf ?_
        dsimp only
        tauto
      · exact hp.grow hi (by tauto) (by rw [run_count]; omega) rfl rfl rfl

/-- The turns up to the end of the sectors or of the request. -/
theorem readwriteLoop_prefix {count i : Nat} {c : Cursor} (hw : g.Wf) (hrc : ∀ i, 0 ≤ rc i)
    (hpos : ∀ s ∈ S, 1 ≤ s) (hnd : S.Nodup) (h : Inv g a S 0 [] c) (hi : i ≤ S.length)
    (hlt : i < count) :
    ∃ rs c', Inv g a S i rs c' ∧ ∀ Q, Wp (readwriteLoop g rc false count 0 c) a Q ↔
      Wp (readwriteLoop g rc false (count - i) i c') (a.add rs) Q := by
  induction i with
  | zero =>
    refine ⟨[], c, h, fun Q => ?_⟩
    simp [Access.add]
  | succ i ih =>
    obtain ⟨rs, c', hinv, hloop⟩ := ih (by omega) (by omega)
    obtain ⟨rs', c'', hinv', hturn, -⟩ := hinv.turn hw hrc hpos hnd (by omega)
    refine ⟨rs', c'', hinv', fun Q => ?_⟩
    have hk : count - i = (count - i - 2) + 2 := by omega
    rw [hloop, hk, hturn, show count - i - 2 + 1 = count - (i + 1) by omega]
    push_cast
    rfl

/-- Nothing is left out of the requested sectors, where the chain has enough of them. -/
theorem readwriteLoop_enough {count : Nat} {c : Cursor} (hw : g.Wf) (hrc : ∀ i, 0 ≤ rc i)
    (hpos : ∀ s ∈ S, 1 ≤ s) (hnd : S.Nodup) (h : Inv g a S 0 [] c) (hle : count ≤ S.length) :
    Wp (readwriteLoop g rc false count 0 c) a fun r a' => ∃ rs c', r = .done count c' ∧
      a' = a.add rs ∧ rs.flatMap Transfer.places = placed (S.take count) ∧ Merged rs ∧
      (∀ x ∈ rs, x.write = false) ∧ c'.eof = false := by
  cases count with
  | zero =>
    rw [readwriteLoop, wp_pure]
    refine ⟨[], c, rfl, by simp [Access.add], by simp [placed], ⟨?_, List.isChain_nil⟩, ?_, h.eof⟩
    · intro r hr
      cases hr
    · intro r hr
      cases hr
  | succ n =>
    obtain ⟨rs, c', hinv, hloop⟩ := readwriteLoop_prefix hw hrc hpos hnd h
      (show n ≤ S.length by omega) (show n < n + 1 from Nat.lt_succ_self n)
    obtain ⟨rs', c'', hinv', -, hlast⟩ := hinv.turn hw hrc hpos hnd hle
    rw [hloop, Nat.add_sub_cancel_left, hlast]
    rcases hinv'.run with ⟨h0, -⟩ | ⟨-, hp, -, -⟩
    · cases h0
    · refine ⟨rs' ++ [c''.run], c'', by push_cast; rfl, rfl, hp.places, hp.merged, ?_, hinv'.eof⟩
      intro x hx
      rcases List.mem_append.1 hx with hx | hx
      · exact hp.read x hx
      · rw [List.mem_singleton.1 hx]
        rfl

/-- The turn behind the end of the sectors: it transfers what is left, unless the sector number
that it comes to is that of the first sector left. -/
theorem Inv.turn_end {rs : List Transfer} {c : Cursor} (hw : g.Wf) (hrc : ∀ i, 0 ≤ rc i)
    (hpos : ∀ s ∈ S, 1 ≤ s) (h : Inv g a S S.length rs c)
    (hlast : ∀ s ∈ S.getLast?, s + 1 ≠ g.firstdatasector - 2 * g.secperclus) :
    ∃ c' : Cursor, c'.eof = true ∧ c'.sector = g.firstdatasector - 2 * g.secperclus ∧
      ∀ k j Q, Wp (readwriteLoop g rc false (k + 1) j c) (a.add rs) Q ↔
        Wp (readwriteLoop g rc false k (j + 1) c') (a.add (if S = [] then rs else if
            c.first = g.firstdatasector - 2 * g.secperclus ∧ c.run.count ≠ 256 then rs
            else rs ++ [c.run])) Q := by
  have hbefore := h.before
  rw [List.drop_length] at hbefore
  have hadv := fun Q => advance_end (a := a.add rs) hw hbefore (Q := Q)
  have hk := hw.secperclus_le
  have hkpos := hw.secperclus_pos
  have htwo := hw.two_le_root
  have hroot := hw.root_le
  suffices hmove : ∃ f b, ∀ Q, Wp (moveRun g rc false
      { c with cluster := 0, sector := g.firstdatasector - 2 * g.secperclus,
               clusternum := c.clusternum + 1, numsec := 1, eof := true }) (a.add rs) Q ↔
      Q (.ok { c with cluster := 0, sector := g.firstdatasector - 2 * g.secperclus,
                      clusternum := c.clusternum + 1, numsec := 1, eof := true, first := f,
                      buf := b })
        (a.add (if S = [] then rs else if
            c.first = g.firstdatasector - 2 * g.secperclus ∧ c.run.count ≠ 256 then rs
            else rs ++ [c.run])) by
    obtain ⟨f, b, hmove⟩ := hmove
    refine ⟨{ c with cluster := 0, sector := g.firstdatasector - 2 * g.secperclus,
                     clusternum := c.clusternum + 1, numsec := 1, eof := true, first := f,
                     buf := b, last := g.firstdatasector - 2 * g.secperclus }, rfl, rfl, ?_⟩
    intro k j Q
    rw [readwriteLoop, if_pos h.sector, wp_bind, hadv]
    simp only [wp_bind]
    rw [hmove]
    simp only [wp_bind]
    rw [moveLast_more (by simp)]
  rcases h.run with ⟨h0, hf, hl, hb, rfl⟩ | ⟨h0, hp, hl, hget⟩
  · refine ⟨g.firstdatasector - 2 * g.secperclus, c.buf, fun Q => ?_⟩
    rw [if_pos (List.eq_nil_of_length_eq_zero h0)]
    refine moveRun_first hf ?_
    dsimp only
    omega
  · have hS : S ≠ [] := List.ne_nil_of_length_pos h0
    have hf : c.first ≠ 0 := by
      have := hpos _ (List.mem_of_mem_take hp.first_mem)
      omega
    have hne : (g.firstdatasector : Int) - 2 * g.secperclus ≠ c.last + 1 := by
      rw [hl]
      refine fun heq => hlast c.sector ?_ heq.symm
      rw [List.getLast?_eq_getElem?]
      exact hget
    rw [if_neg hS]
    by_cases hskip : c.first = g.firstdatasector - 2 * g.secperclus ∧ c.run.count ≠ 256
    · refine ⟨c.first, c.buf, fun Q => ?_⟩
      rw [if_pos hskip]
      refine moveRun_keep hf ?_
      rw [run_count] at hskip
      dsimp only
      tauto
    · refine ⟨g.firstdatasector - 2 * g.secperclus, c.buf + c.run.count, fun Q => ?_⟩
      rw [if_neg hskip, ← Access.add_add]
      refine moveRun_flush hrc hf ?_
      rw [run_count] at hskip
      dsimp only
      have : ¬ c.first = g.firstdatasector - 2 * g.secperclus ∨ c.last - c.first + 1 = 256 := by tauto
      omega

theorem moveRun_reads (hrc : ∀ i, 0 ≤ rc i) (c : Cursor) :
    Wp (moveRun g rc false c) a fun r _ => ∃ c', r = .ok c' := by
  unfold moveRun
  generalize (if c.first = 0 then { c with first := c.sector } else c) = d
  by_cases hflush : d.sector ≠ d.first ∧ d.sector ≠ d.last + 1 ∨ d.last - d.first + 1 = 256
  · simp only [if_pos hflush, wp_bind]
    rw [transfer_read hrc]
    simp
  · simp only [if_neg hflush, wp_pure]
    exact ⟨d, rfl⟩

theorem moveLast_reads (hrc : ∀ i, 0 ≤ rc i) (last : Bool) (c : Cursor) :
    Wp (moveLast g rc false last c) a fun r _ => ∃ c', r = .ok c' := by
  unfold moveLast
  by_cases hlast : last = true ∧ c.eof = false
  · rw [if_pos hlast, wp_bind, transfer_read hrc]
    simp
  · rw [if_neg hlast, wp_pure]
    exact ⟨_, rfl⟩

theorem advance_reads (c : Cursor) :
    Wp (advance g false c) a fun r _ => ∃ c', r = .there c' := by
  unfold advance
  rw [wp_bind, wp_get]
  by_cases hc : (g.secperclus : Int) < c.numsec + 1 ∨ c.cluster = 0
  · rw [if_pos hc, if_neg (by simp), wp_pure]
    exact ⟨_, rfl⟩
  · rw [if_neg hc]
    by_cases hs : c.sector ≠ 0
    · rw [if_pos hs, wp_pure]
      exact ⟨_, rfl⟩
    · rw [if_neg hs, wp_pure]
      exact ⟨_, rfl⟩

/-- A turn of a read counts, wherever it is. -/
theorem readwriteLoop_counts (hrc : ∀ i, 0 ≤ rc i) (k : Nat) (i : Int) (c : Cursor) :
    Wp (readwriteLoop g rc false k i c) a fun r _ => ∃ i' c', r = .done i' c' ∧ i ≤ i' ∧
      (0 < k → -1 < c.sector → i < i') := by
  induction k generalizing i c a with
  | zero =>
    rw [readwriteLoop, wp_pure]
    exact ⟨i, c, rfl, le_rfl, fun h => absurd h (Nat.lt_irrefl 0)⟩
  | succ k ih =>
    rw [readwriteLoop]
    by_cases hs : -1 < c.sector
    · rw [if_pos hs, wp_bind]
      refine (advance_reads c).mono ?_
      rintro r a ⟨c1, rfl⟩
      simp only [wp_bind]
      refine (moveRun_reads hrc c1).mono ?_
      rintro r a ⟨c2, rfl⟩
      simp only [wp_bind]
      refine (moveLast_reads hrc _ c2).mono ?_
      rintro r a ⟨c3, rfl⟩
      refine (ih (i + 1) c3).mono ?_
      rintro r a ⟨i', c', rfl, hi, -⟩
      exact ⟨i', c', rfl, by omega, fun _ _ => by omega⟩
    · rw [if_neg hs, wp_pure]
      exact ⟨i, c, rfl, le_rfl, fun _ h => absurd h hs⟩

/-! ## Positions -/

theorem remaining_root_le (hw : g.Wf) (h : Chain g a.table (a.file.firstcluster :: cs)) {s : Int}
    (hs : s ∈ remaining g a.file cs n) : (g.rootdirsector : Int) ≤ s :=
  h.root_le_sector hw (List.mem_of_mem_drop hs)

theorem remaining_nodup (hw : g.Wf) (h : Chain g a.table (a.file.firstcluster :: cs)) :
    (remaining g a.file cs n).Nodup := by
  unfold remaining Geometry.fileSectors
  exact (List.Sublist.nodup (List.drop_sublist _ _)
    (List.Sublist.nodup (List.drop_sublist _ _) (sectors_nodup hw h)))

theorem remaining_last (hw : g.Wf) (h : Chain g a.table (a.file.firstcluster :: cs)) {s : Int}
    (hs : s ∈ (remaining g a.file cs n).getLast?) : (g.firstdatasector : Int) ≤ s + 1 := by
  unfold remaining Geometry.fileSectors at hs
  rw [List.drop_drop, List.getLast?_drop] at hs
  split at hs
  · cases hs
  · exact h.getLast_sectors hw hs

/-- A file that is not at its end begins to read with the next sector of its chain. -/
theorem Positioned.inv (hw : g.Wf) (h : Chain g a.table (a.file.firstcluster :: cs))
    (hp : Positioned g a.file cs n) (heof : a.file.eof = false) :
    Inv g a (remaining g a.file cs n) 0 [] a.file.cursor := by
  have hk := hw.secperclus_pos
  have htwo := hw.two_le_root
  have hroot := hw.root_le
  cases hp with
  | ended _ he =>
    rw [heof] at he
    cases he
  | opened hn hlast hsector hnum =>
    refine ⟨.opened cs h hlast hsector hnum ?_, ?_, heof, .inl ⟨rfl, rfl, rfl, rfl, rfl⟩⟩
    · unfold remaining
      rw [hn, List.drop_zero, List.drop_zero, Geometry.fileSectors_cons hw]
    · change -1 < a.file.lastsector
      omega
  | inside i j hi hj hnum hsector hn =>
    obtain ⟨hlt, hget⟩ := List.getElem?_eq_some_iff.1 hi
    have hsplit := drop_sectors hlt hj
    have hchain : Chain g a.table (a.file.lastcluster :: (a.file.firstcluster :: cs).drop (i + 1)) := by
      refine Chain.drop (l := (a.file.firstcluster :: cs).take i) ?_
      rw [← hget, ← List.drop_eq_getElem_cons hlt, List.take_append_drop]
      exact h
    -- the sector before the position is not the boot sector
    have hpos : 1 ≤ a.file.lastsector := by
      rw [hsector]
      cases i with
      | zero =>
        rw [List.getElem_cons_zero] at hget
        rw [← hget]
        rcases h.has with ⟨h2, -⟩ | ⟨-, hneg, hr⟩
        · have h1 := Geometry.le_base (g := g) h2
          omega
        · unfold Geometry.skip at hn
          rw [if_pos hneg] at hn
          unfold Geometry.base
          rw [if_pos hneg, Int.sub_zero]
          omega
      | succ i =>
        have hmem : a.file.lastcluster ∈ cs := by
          rw [List.getElem_cons_succ] at hget
          rw [← hget]
          exact List.getElem_mem _
        have h1 := h.root_le_base hw hmem
        omega
    refine ⟨.inside _ hchain (j + 1) (Nat.succ_pos j) hj hnum ?_ hpos ?_, ?_, heof,
      .inl ⟨rfl, rfl, rfl, rfl, rfl⟩⟩
    · change a.file.lastsector = g.base a.file.lastcluster + (j + 1 : Nat) - 1
      rw [hsector]
      push_cast
      ring
    · unfold remaining Geometry.fileSectors
      rw [List.drop_zero, List.drop_drop, List.headD_cons,
        show g.skip a.file.firstcluster + n = i * g.secperclus + (j + 1) by omega, hsplit, hget]
      rfl
    · change -1 < a.file.lastsector
      omega

/-- In the root directory of a FAT16 volume the sectors that remain are the last ones before the
data area. -/
theorem remaining_root (h : Chain g a.table (a.file.firstcluster :: cs))
    (hneg : a.file.firstcluster < 0) {i : Nat} (hi : i < (remaining g a.file cs n).length) :
    (remaining g a.file cs n)[i] =
      g.firstdatasector - (remaining g a.file cs n).length + i := by
  have hsectors : remaining g a.file cs n =
      (((List.range ((-a.file.firstcluster).toNat * g.secperclus)).map
        fun j : Nat => g.base a.file.firstcluster + j).drop (g.skip a.file.firstcluster)).drop n := by
    unfold remaining Geometry.fileSectors
    rw [h.root_sectors hneg, List.headD_cons]
  have hbase : g.base a.file.firstcluster =
      g.firstdatasector - ((-a.file.firstcluster).toNat * g.secperclus : Nat) := by
    unfold Geometry.base
    rw [if_pos hneg, Int.sub_zero]
    push_cast
    rw [Int.toNat_of_nonneg (by omega)]
    ring
  have hlen := hi
  simp only [hsectors, List.length_drop, List.length_map, List.length_range] at hlen
  simp only [hsectors, List.getElem_drop, List.getElem_map, List.getElem_range, List.length_drop,
    List.length_map, List.length_range, hbase]
  omega

/-- The run left at the end of the chain is overlooked in the root directory of a FAT16 volume
only, where it has the length of two clusters. -/
theorem Inv.skips_iff {rs : List Transfer} {c : Cursor} (hw : g.Wf)
    (hchain : Chain g a.table (a.file.firstcluster :: cs))
    (h : Inv g a (remaining g a.file cs n) (remaining g a.file cs n).length rs c)
    (hS : remaining g a.file cs n ≠ []) :
    c.first = g.firstdatasector - 2 * g.secperclus ∧ c.run.count ≠ 256 ↔
      a.file.firstcluster < 0 ∧ (remaining g a.file cs n).length % 256 = 2 * g.secperclus := by
  have hk := hw.secperclus_pos
  have hk' := hw.secperclus_le
  rcases h.run with ⟨h0, -⟩ | ⟨h0, hp, hl, hget⟩
  · exact absurd (List.eq_nil_of_length_eq_zero h0) hS
  have hcount := hp.merged.count c.run (by simp)
  have hnext := hp.next
  by_cases hneg : a.file.firstcluster < 0
  · have hall := fun i hi => remaining_root (n := n) hchain hneg (i := i) hi
    obtain ⟨hlt, hsec⟩ := List.getElem?_eq_some_iff.1 hget
    rw [hall _ hlt] at hsec
    have haligned := hp.aligned (List.isChain_iff_getElem.2 fun i hi => by
      rw [hall _ hi, hall i (by omega)]
      push_cast
      ring)
    rw [run_count] at hcount hnext ⊢
    omega
  · have hmem := List.mem_of_mem_take hp.first_mem
    have hle : (g.firstdatasector : Int) ≤ c.first := by
      have hmem' := List.mem_of_mem_drop (List.mem_of_mem_drop hmem)
      obtain ⟨d, hd, hs⟩ := List.mem_flatMap.1 hmem'
      have h1 := Geometry.le_base (g := g) (hchain.data (by omega) hd)
      obtain ⟨j, -, hj⟩ := List.mem_map.1 hs
      omega
    constructor
    · rintro ⟨hf, -⟩
      omega
    · rintro ⟨hc, -⟩
      omega

/-! ## The whole read -/

theorem fatReadwrite_loop {count : Nat} (heof : a.file.eof = false) {Q : Int → Access → Prop} :
    Wp (fatReadwrite g rc count false) a Q ↔
      Wp (readwriteLoop g rc false count 0 a.file.cursor) a fun r a' => Wp (finish r) a' Q := by
  unfold fatReadwrite
  rw [wp_bind, wp_get, if_neg (by simp [heof]), wp_bind]

theorem finish_done {i : Int} {c : Cursor} {Q : Int → Access → Prop} :
    Wp (finish (.done i c)) a Q ↔
      Q (if c.eof then i - 1 else i) { a with file := a.file.store c } := by
  unfold finish
  rw [wp_bind, wp_modify, wp_pure]

/-- A read follows the chain if and only if it does not go more than a sector behind its end, or the
sector number there is negative; and the run at the end of the root directory of a FAT16 volume is
not as long as two clusters. -/
theorem follows_iff (hw : g.Wf) (hrc : ∀ i, 0 ≤ rc i)
    (hchain : Chain g a.table (a.file.firstcluster :: cs)) (hp : Positioned g a.file cs n)
    (count : Nat) :
    Wp (fatReadwrite g rc count false) a (Follows (remaining g a.file cs n) count a) ↔
      a.file.eof = true ∨ count ≤ (remaining g a.file cs n).length ∨
        (count = (remaining g a.file cs n).length + 1 ∨ g.firstdatasector < 2 * g.secperclus) ∧
          ¬ (a.file.firstcluster < 0 ∧
            (remaining g a.file cs n).length % 256 = 2 * g.secperclus) := by
  have hk := hw.secperclus_pos
  by_cases heof : a.file.eof = true
  · have hnil : remaining g a.file cs n = [] := by
      cases hp with
      | opened _ _ _ _ he =>
        rw [heof] at he
        cases he
      | inside _ _ _ _ _ _ _ he =>
        rw [heof] at he
        cases he
      | ended hn _ =>
        unfold remaining
        rw [hn, List.drop_length]
    refine iff_of_true ?_ (.inl heof)
    unfold fatReadwrite
    rw [wp_bind, wp_get, if_pos ⟨heof, rfl⟩, wp_pure, hnil]
    refine ⟨⟨[], by simp, by simp [placed], ⟨?_, List.isChain_nil⟩, ?_⟩, by simp, by simp⟩
    · intro r hr
      cases hr
    · intro r hr
      cases hr
  rw [Bool.not_eq_true] at heof
  have hinv := hp.inv hw hchain heof
  have hpos : ∀ s ∈ remaining g a.file cs n, 1 ≤ s := by
    intro s hs
    have h1 := remaining_root_le hw hchain hs
    have h2 := hw.two_le_root
    omega
  have hnd := remaining_nodup (n := n) hw hchain
  by_cases hle : count ≤ (remaining g a.file cs n).length
  · refine iff_of_true ?_ (.inr (.inl hle))
    rw [fatReadwrite_loop heof]
    refine (readwriteLoop_enough hw hrc hpos hnd hinv hle).mono ?_
    rintro r a' ⟨rs, c, rfl, rfl, hplaces, hmerged, hread, he⟩
    rw [finish_done, if_neg (by simp [he])]
    refine ⟨⟨rs, rfl, hplaces, hmerged, hread⟩, by omega, fun h => ?_⟩
    rw [show ((a.add rs).file.store c).eof = c.eof from rfl, he] at h
    cases h
  obtain ⟨rs, c, hinvR, hloop⟩ := readwriteLoop_prefix hw hrc hpos hnd hinv le_rfl
    (not_le.1 hle)
  have hskips := hinvR.skips_iff hw hchain
  obtain ⟨c', heof', hsector', hend⟩ := hinvR.turn_end hw hrc hpos fun s hs => by
    have h1 := remaining_last hw hchain hs
    omega
  generalize remaining g a.file cs n = S at *
  obtain ⟨k, hcount⟩ : ∃ k, count = S.length + (k + 1) := ⟨count - S.length - 1, by omega⟩
  rw [fatReadwrite_loop heof, hloop, hcount, Nat.add_sub_cancel_left, hend, ← hcount]
  by_cases hmore : 0 < k ∧ -1 < c'.sector
  · -- the loop goes on counting
    refine iff_of_false (fun h => ?_) ?_
    · obtain ⟨r, a', hrun, hw', i', c'', rfl, -, hi'⟩ := h.and (readwriteLoop_counts hrc k _ c')
      have hi := hi' hmore.1 hmore.2
      rw [finish_done] at hw'
      have hresult := hw'.result
      split at hresult <;> omega
    · rw [hsector'] at hmore
      rintro (h | h | ⟨h, -⟩)
      · rw [heof] at h
        cases h
      · exact hle h
      · omega
  · have hstop : ∀ Q, Wp (readwriteLoop g rc false k (S.length + 1) c') (a.add
        (if S = [] then rs else if c.first = g.firstdatasector - 2 * g.secperclus ∧
          c.run.count ≠ 256 then rs else rs ++ [c.run])) Q ↔
        Q (.done (S.length + 1) c') (a.add (if S = [] then rs else if
          c.first = g.firstdatasector - 2 * g.secperclus ∧ c.run.count ≠ 256 then rs
          else rs ++ [c.run])) := by
      intro Q
      cases k with
      | zero => rw [readwriteLoop, wp_pure]
      | succ k => rw [readwriteLoop, if_neg (by omega), wp_pure]
    rw [hstop, finish_done, if_pos heof']
    have hcond : count = S.length + 1 ∨ g.firstdatasector < 2 * g.secperclus := by
      rw [hsector'] at hmore
      omega
    simp only [hle, hcond, heof, Bool.false_eq_true, false_or, true_and]
    have htake : S.take count = S := List.take_of_length_le (by omega)
    rcases hinvR.run with ⟨h0, -, -, -, rfl⟩ | ⟨h0, hpacked, -, -⟩
    · have hnil := List.eq_nil_of_length_eq_zero h0
      refine iff_of_true ?_ ?_
      · rw [if_pos hnil, hnil]
        refine ⟨⟨[], by simp [Access.add], by simp [placed], ⟨?_, List.isChain_nil⟩, ?_⟩, by simp,
          by simp⟩
        · intro r hr
          cases hr
        · intro r hr
          cases hr
      · rw [h0]
        omega
    · have hS : S ≠ [] := List.ne_nil_of_length_pos h0
      rw [if_neg hS, ← hskips hS]
      by_cases hskip : c.first = g.firstdatasector - 2 * g.secperclus ∧ c.run.count ≠ 256
      · rw [if_pos hskip]
        refine iff_of_false (fun h => ?_) (fun h => h hskip)
        -- the last run is missing
        obtain ⟨rs', hrs', hplaces, -⟩ := h.transfers
        obtain rfl : rs = rs' := List.append_cancel_left hrs'
        have hall := hpacked.places
        rw [List.take_of_length_le le_rfl, List.flatMap_append, List.flatMap_singleton, hplaces,
          htake] at hall
        have hlen := congrArg List.length hall
        have hrun := hpacked.merged.count c.run (by simp)
        simp only [List.length_append, Transfer.places, List.length_map, List.length_range] at hlen
        omega
      · rw [if_neg hskip]
        refine iff_of_true ⟨⟨rs ++ [c.run], rfl, ?_, hpacked.merged, ?_⟩, by omega, fun _ => by omega⟩
          hskip
        · rw [htake, hpacked.places, List.take_of_length_le le_rfl]
        · intro x hx
          rcases List.mem_append.1 hx with hx | hx
          · exact hpacked.read x hx
          · rw [List.mem_singleton.1 hx]
            rfl

/-- A FAT32 volume with one file of one cluster, sector 4. -/
def shortGeometry : Geometry where
  isFat16 := false
  sectorSize := 512
  fatsize := 1
  dataclusters := 4
  secperclus := 1
  firstdatasector := 4
  rootdirsector := 4
  rootdiroffset := 0
  totalsectors := 8

def shortFile : Access where
  table := ⟨fun c => if c = 0 then 0x0ffffff8 else if c = 2 then 0x0fffffff else 0, 3, 3⟩
  file := fatOpen 2
  transfers := []

theorem shortGeometry_wf : shortGeometry.Wf := by constructor <;> decide

theorem shortFile_chain : Chain shortGeometry shortFile.table [2] :=
  .last (.inl (by decide)) (by decide)

theorem shortFile_positioned : Positioned shortGeometry shortFile.file [] 0 :=
  .opened rfl rfl rfl rfl rfl

/-- Three sectors are asked for, there is one, and the result is two. -/
theorem shortFile_overcounts : shortGeometry.Wf ∧ Chain shortGeometry shortFile.table [2] ∧
    Positioned shortGeometry shortFile.file [] 0 ∧
    ¬ Wp (fatReadwrite shortGeometry (fun _ => 0) 3 false) shortFile
      (Follows (remaining shortGeometry shortFile.file [] 0) 3 shortFile) := by
  refine ⟨shortGeometry_wf, shortFile_chain, shortFile_positioned, ?_⟩
  rintro ⟨r, a, hrun, h⟩
  have hresult : ((fatReadwrite shortGeometry (fun _ => 0) 3 false).run shortFile).toOption.map
      Prod.fst = some 2 := by decide
  rw [hrun] at hresult
  have hr : r = 2 := by simpa [Except.toOption] using hresult
  have hmin := h.result
  rw [hr] at hmin
  revert hmin
  decide

theorem follows_iff_shortFile :
    Wp (fatReadwrite shortGeometry (fun _ => 0) 2 false) shortFile
      (Follows (remaining shortGeometry shortFile.file [] 0) 2 shortFile) :=
  (follows_iff shortGeometry_wf (fun _ => le_rfl) shortFile_chain shortFile_positioned 2).2
    (.inr (.inr ⟨.inl (by decide), by decide⟩))

end Fat
end Freemyipod
