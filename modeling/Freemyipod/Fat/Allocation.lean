import Freemyipod.Fat.Table
import Freemyipod.Lib.Runs

/-!
# Fat.Allocation

Threads that extend their files and create directories on one volume.

`find_free_cluster` and `update_fat_entry` each lock the sector they work on, but nothing is locked
between them. Each of the two is a step; so is the `get_next_cluster` before them.

* `Call`: a thread enters `next_write_cluster` or the allocation of `fat_create_dir`, or goes on.
* `Settled`: no cluster is given twice, and the chains have no cluster in common.
* `SearchesUnmarked`: the step that goes wrong. A search whose first free cluster is one that was
  given already and whose entry is still free.
* `settled_iff`: every state of a run is settled if and only if no step searches so.
-/

namespace Freemyipod
namespace Fat

/-- `struct fat_file`, as far as the allocation goes. -/
structure File where
  firstcluster : Nat
  lastcluster : Nat

/-- How far a thread is. -/
inductive Pc
  | idle
  /-- In `next_write_cluster`, before `get_next_cluster`. -/
  | next
  /-- In `next_write_cluster`, before `find_free_cluster`. -/
  | search
  /-- Before `update_fat_entry(oldcluster, cluster)`. -/
  | link (cluster : Nat)
  /-- Before `update_fat_entry(cluster, FAT_EOF_MARK)`. -/
  | mark (cluster : Nat)
  /-- In `fat_create_dir`, before `find_free_cluster`. -/
  | searchDir
  /-- In `fat_create_dir`, before `update_fat_entry(newdir.firstcluster, FAT_EOF_MARK)`. -/
  | markDir (cluster : Nat)

structure Thread where
  file : File
  pc : Pc

/-- The volume and the threads. -/
structure Sys where
  table : Table
  threads : Nat → Thread
  /-- The first clusters of the directories made so far. -/
  dirs : List Nat
  /-- The first clusters of the files and directories that no thread works on. -/
  others : List Nat
  /-- What `find_free_cluster` has returned so far. -/
  given : List Nat

inductive Call
  /-- `next_write_cluster` on the thread's file, at its last cluster -/
  | extend
  /-- `fat_create_dir`, after the entry in the parent directory -/
  | createDir
  /-- The next step; which sectors of the FAT can be read, and whether one can be written. -/
  | go (readable : Nat → Bool) (writable : Bool)

variable (b : Bpb)

namespace Sys

def setThread (s : Sys) (i : Nat) (th : Thread) : Sys :=
  { s with threads := Function.update s.threads i th }

/-- Where `find_free_cluster` starts. -/
def start (s : Sys) (i : Nat) : Nat :=
  match (s.threads i).pc with
  | .search =>
    if 0 < (s.threads i).file.lastcluster then (s.threads i).file.lastcluster + 1
    else s.table.nextfree
  | _ => s.table.nextfree

end Sys

/-- After `update_fat_entry`; its return value is not looked at. -/
def Updated.go (s : Sys) : Updated → Option Sys
  | .panic => none
  | .failed => some s
  | .stored t => some { s with table := t }

/-- A step of `next_write_cluster` or `fat_create_dir`. -/
def goThread (s : Sys) (i : Nat) (readable : Nat → Bool) (writable : Bool) : Option Sys :=
  let th := s.threads i
  match th.pc with
  | .idle => none
  | .next =>
    let cluster := getNextCluster b s.table th.file.lastcluster
    if cluster = 0 then some (s.setThread i { th with pc := .search })
    else some (s.setThread i ⟨{ th.file with lastcluster := cluster }, .idle⟩)
  | .search =>
    let r := findFreeCluster b s.table readable (s.start i)
    if r.1 = 0 then some (s.setThread i { th with pc := .idle }) -- the disk is full
    else
      let s := { s with table := r.2, given := s.given ++ [r.1] }
      if th.file.lastcluster ≠ 0 then some (s.setThread i { th with pc := .link r.1 })
      else some (s.setThread i ⟨{ th.file with firstcluster := r.1 }, .mark r.1⟩)
  | .link cluster =>
    (updateFatEntry b s.table writable th.file.lastcluster cluster).go
      (s.setThread i { th with pc := .mark cluster })
  | .mark cluster =>
    (updateFatEntry b s.table writable cluster 0x0ffffff8).go
      (s.setThread i ⟨{ th.file with lastcluster := cluster }, .idle⟩)
  | .searchDir =>
    let r := findFreeCluster b s.table readable (s.start i)
    if r.1 = 0 then some (s.setThread i { th with pc := .idle })
    else
      let s := { s with table := r.2, given := s.given ++ [r.1], dirs := s.dirs ++ [r.1] }
      some (s.setThread i { th with pc := .markDir r.1 })
  | .markDir cluster =>
    (updateFatEntry b s.table writable cluster 0x0ffffff8).go
      (s.setThread i { th with pc := .idle })

def step (s : Sys) (a : Nat × Call) : Option (Sys × Unit) :=
  let th := s.threads a.1
  match a.2, th.pc with
  | .extend, .idle =>
    some (s.setThread a.1 { th with
      pc := if th.file.lastcluster ≠ 0 then .next else .search }, ())
  | .createDir, .idle => some (s.setThread a.1 { th with pc := .searchDir }, ())
  | .go readable writable, _ => (goThread b s a.1 readable writable).map fun s => (s, ())
  | _, _ => none

/-! ## What should hold -/

/-- The files and directories of the volume. -/
inductive Object
  | file (i : Nat)
  | dir (i : Nat)
  | other (i : Nat)

/-- The first cluster of an object; 0 if it has none. -/
def Sys.first (s : Sys) : Object → Nat
  | .file i => (s.threads i).file.firstcluster
  | .dir i => s.dirs.getD i 0
  | .other i => s.others.getD i 0

/-- The clusters of the chain that begins at `first`. -/
inductive Linked (t : Table) (first : Nat) : Nat → Prop
  | first : first ≠ 0 → Linked t first first
  | next {c : Nat} : Linked t first c → getNextCluster b t c ≠ 0 →
      Linked t first (getNextCluster b t c)

/-- No cluster was given twice, and no two chains have one in common. -/
structure Settled (s : Sys) : Prop where
  given : s.given.Nodup
  disjoint : ∀ o o' c, Linked b s.table (s.first o) c → Linked b s.table (s.first o') c → o = o'

/-- A search in which the first free cluster is one that was given to a thread: its entry is still
free, because the thread has not come to mark it, or could not. -/
def SearchesUnmarked (s : Sys) : Nat × Call → Prop
  | (i, .go readable _) => ((s.threads i).pc = .search ∨ (s.threads i).pc = .searchDir) ∧
    ∃ c ∈ s.given, firstFree b s.table readable (s.start i) = some c
  | _ => False

/-! ## Owners -/

variable {b} {s s' : Sys} {i c : Nat} {th : Thread} {t : Table} {o : Object}
  {owner : Nat → Option Object}

/-- Each cluster has one owner at most, and what is linked to it belongs to the same. -/
structure Owned (b : Bpb) (s : Sys) (owner : Nat → Option Object) : Prop where
  first : ∀ o, s.first o ≠ 0 → owner (s.first o) = some o
  next : ∀ c o, owner c = some o → getNextCluster b s.table c ≠ 0 →
    owner (getNextCluster b s.table c) = some o
  last : ∀ i, (s.threads i).file.lastcluster ≠ 0 →
    owner (s.threads i).file.lastcluster = some (.file i)
  flight : ∀ i c, (s.threads i).pc = .link c ∨ (s.threads i).pc = .mark c →
    owner c = some (.file i) ∧ b.Data c
  pos : ∀ i, (s.threads i).pc = .next → (s.threads i).file.lastcluster ≠ 0
  free : ∀ c, s.table.entry c = 0 → owner c ≠ none → c ∈ s.given
  given : ∀ c ∈ s.given, owner c ≠ none
  nodup : s.given.Nodup

theorem Owned.linked (h : Owned b s owner) (hc : Linked b s.table (s.first o) c) :
    owner c = some o := by
  induction hc with
  | first hne => exact h.first o hne
  | next _ hne ih => exact h.next _ o ih hne

theorem Owned.settled (h : Owned b s owner) : Settled b s := by
  refine ⟨h.nodup, fun o o' c ho ho' => ?_⟩
  have h1 := h.linked ho
  rw [h.linked ho'] at h1
  exact (Option.some.inj h1).symm

theorem first_setThread (hf : th.file.firstcluster = (s.threads i).file.firstcluster) :
    (s.setThread i th).first o = s.first o := by
  cases o with
  | file j =>
    show (Function.update s.threads i th j).file.firstcluster = _
    by_cases hj : j = i
    · subst hj
      rw [Function.update_self, hf]
      rfl
    · rw [Function.update_of_ne hj]
      rfl
  | dir j => rfl
  | other j => rfl

/-- A step that changes the thread only. -/
theorem Owned.setThread (h : Owned b s owner)
    (hf : th.file.firstcluster = (s.threads i).file.firstcluster)
    (hlast : th.file.lastcluster ≠ 0 → owner th.file.lastcluster = some (.file i))
    (hflight : ∀ c, th.pc = .link c ∨ th.pc = .mark c → owner c = some (.file i) ∧ b.Data c)
    (hpos : th.pc = .next → th.file.lastcluster ≠ 0) : Owned b (s.setThread i th) owner := by
  refine ⟨fun o => ?_, h.next, fun j => ?_, fun j c => ?_, fun j => ?_, h.free, h.given, h.nodup⟩
  · rw [first_setThread hf]
    exact h.first o
  · show (Function.update s.threads i th j).file.lastcluster ≠ 0 →
      owner (Function.update s.threads i th j).file.lastcluster = some (.file j)
    by_cases hj : j = i
    · subst hj
      rw [Function.update_self]
      exact hlast
    · rw [Function.update_of_ne hj]
      exact h.last j
  · show (Function.update s.threads i th j).pc = .link c ∨
      (Function.update s.threads i th j).pc = .mark c → _
    by_cases hj : j = i
    · subst hj
      rw [Function.update_self]
      exact hflight c
    · rw [Function.update_of_ne hj]
      exact h.flight j c
  · show (Function.update s.threads i th j).pc = .next →
      (Function.update s.threads i th j).file.lastcluster ≠ 0
    by_cases hj : j = i
    · subst hj
      rw [Function.update_self]
      exact hpos
    · rw [Function.update_of_ne hj]
      exact h.pos j

/-- A step that changes the thread's `pc` only, to one without a cluster. -/
theorem Owned.setPc (h : Owned b s owner) {pc : Pc} (hl : ∀ c, pc ≠ .link c)
    (hm : ∀ c, pc ≠ .mark c) (hpos : pc = .next → (s.threads i).file.lastcluster ≠ 0) :
    Owned b (s.setThread i { s.threads i with pc := pc }) owner := by
  refine h.setThread rfl (h.last i) (fun c hc => ?_) hpos
  rcases hc with hc | hc
  · exact absurd hc (hl c)
  · exact absurd hc (hm c)

theorem Bpb.Data.ne_zero (h : b.Data c) : c ≠ 0 := by
  have := h.1
  omega

theorem Bpb.Data.mod_lt (hb : b.Fits) (h : b.Data c) : ¬ b.eofMark ≤ c % b.entries := by
  rw [h.mod hb]
  have := h.2
  unfold Bpb.Fits at hb
  omega

/-- A link to a cluster with the same owner. -/
theorem Owned.link {entry val : Nat} {writable : Bool} (h : Owned b s owner) (hb : b.Fits)
    (hval : b.Data val) (ho : owner entry = some o) (ho' : owner val = some o)
    (hu : updateFatEntry b s.table writable entry val = .stored t) :
    Owned b { s with table := t } owner := by
  refine ⟨h.first, fun c o₁ hc hne => ?_, h.last, h.flight, h.pos, fun c hc howner => ?_,
    h.given, h.nodup⟩
  · dsimp only at hne ⊢
    by_cases hce : c = entry
    · subst hce
      rw [ho] at hc
      cases hc
      rw [getNextCluster_update_self hu, if_neg (hval.mod_lt hb), hval.mod hb]
      exact ho'
    · rw [getNextCluster_update_ne hu hce] at hne ⊢
      exact h.next c o₁ hc hne
  · refine h.free c ?_ howner
    dsimp only at hc
    rw [(updateFatEntry_stored hu).1] at hc
    by_cases hce : c = entry
    · subst hce
      rw [Function.update_self, hval.mod hb] at hc
      exact absurd hc hval.ne_zero
    · rwa [Function.update_of_ne hce] at hc

/-- The end of a chain. -/
theorem Owned.mark {entry : Nat} {writable : Bool} (h : Owned b s owner)
    (hu : updateFatEntry b s.table writable entry 0x0ffffff8 = .stored t) :
    Owned b { s with table := t } owner := by
  refine ⟨h.first, fun c o hc hne => ?_, h.last, h.flight, h.pos, fun c hc howner => ?_,
    h.given, h.nodup⟩
  · dsimp only at hne ⊢
    by_cases hce : c = entry
    · subst hce
      rw [getNextCluster_update_self hu, b.eofMark_mod, if_pos le_rfl] at hne
      exact absurd rfl hne
    · rw [getNextCluster_update_ne hu hce] at hne ⊢
      exact h.next c o hc hne
  · refine h.free c ?_ howner
    dsimp only at hc
    rw [(updateFatEntry_stored hu).1] at hc
    by_cases hce : c = entry
    · subst hce
      rw [Function.update_self, b.eofMark_mod] at hc
      exact absurd hc b.eofMark_pos.ne'
    · rwa [Function.update_of_ne hce] at hc

/-- The search found a free cluster that nobody has, and `s'` has it for `o`. -/
structure Given (b : Bpb) (s : Sys) (c : Nat) (o : Object) (s' : Sys) : Prop where
  free : Free b s.table c
  notGiven : c ∉ s.given
  entry : s'.table.entry = s.table.entry
  given : s'.given = s.given ++ [c]
  first : ∀ o', s'.first o' ≠ 0 → s'.first o' = s.first o' ∨ o' = o ∧ s'.first o' = c
  last : ∀ i, (s'.threads i).file.lastcluster = (s.threads i).file.lastcluster
  flight : ∀ i d, (s'.threads i).pc = .link d ∨ (s'.threads i).pc = .mark d →
    ((s.threads i).pc = .link d ∨ (s.threads i).pc = .mark d) ∨ o = .file i ∧ d = c
  pos : ∀ i, (s'.threads i).pc = .next → (s.threads i).pc = .next

theorem Owned.give (h : Owned b s owner) (hg : Given b s c o s') :
    Owned b s' (Function.update owner c (some o)) := by
  have hnone : owner c = none := by
    by_contra hne
    exact hg.notGiven (h.free c hg.free.1 hne)
  have hnext : ∀ d, getNextCluster b s'.table d = getNextCluster b s.table d := by
    intro d
    unfold getNextCluster
    rw [hg.entry]
  have hkeep : ∀ d o', owner d = some o' → Function.update owner c (some o) d = some o' := by
    intro d o' hd
    rw [Function.update_of_ne, hd]
    rintro rfl
    rw [hnone] at hd
    cases hd
  refine ⟨fun o' hne => ?_, fun d o' hd hne => ?_, fun i hne => ?_, fun i d hd => ?_,
    fun i hpc => ?_, fun d hd howner => ?_, fun d hd => ?_, ?_⟩
  · rcases hg.first o' hne with hf | ⟨rfl, hf⟩
    · rw [hf] at hne ⊢
      exact hkeep _ _ (h.first o' hne)
    · rw [hf, Function.update_self]
  · rw [hnext] at hne ⊢
    by_cases hdc : d = c
    · subst hdc
      have h0 : getNextCluster b s.table d = 0 := by
        unfold getNextCluster
        rw [hg.free.1, if_neg]
        have := b.eofMark_pos
        omega
      exact absurd h0 hne
    · rw [Function.update_of_ne hdc] at hd
      exact hkeep _ _ (h.next d o' hd hne)
  · rw [hg.last] at hne ⊢
    exact hkeep _ _ (h.last i hne)
  · rcases hg.flight i d hd with hd | ⟨rfl, rfl⟩
    · obtain ⟨h1, h2⟩ := h.flight i d hd
      exact ⟨hkeep _ _ h1, h2⟩
    · exact ⟨Function.update_self _ _ _, hg.free.2⟩
  · rw [hg.last]
    exact h.pos i (hg.pos i hpc)
  · rw [hg.given]
    by_cases hdc : d = c
    · simp [hdc]
    · rw [Function.update_of_ne hdc] at howner
      rw [hg.entry] at hd
      exact List.mem_append_left _ (h.free d hd howner)
  · rw [hg.given] at hd
    by_cases hdc : d = c
    · subst hdc
      rw [Function.update_self]
      exact Option.some_ne_none _
    · rw [Function.update_of_ne hdc]
      rcases List.mem_append.1 hd with hd | hd
      · exact h.given d hd
      · exact absurd (List.mem_singleton.1 hd) hdc
  · rw [hg.given]
    exact List.nodup_append.2 ⟨h.nodup, List.nodup_singleton c, fun a ha d hd hne => by
      rw [List.mem_singleton.1 hd] at hne
      rw [hne] at ha
      exact hg.notGiven ha⟩

/-! ## Steps -/

theorem findFreeCluster_cases (b : Bpb) (t : Table) (readable : Nat → Bool) (start : Nat) :
    firstFree b t readable start = none ∧ findFreeCluster b t readable start = (0, t) ∨
      ∃ c, firstFree b t readable start = some c ∧ Free b t c ∧
        findFreeCluster b t readable start = (c, { t with nextfree := c }) := by
  rw [findFreeCluster_eq]
  cases h : firstFree b t readable start with
  | none => exact .inl ⟨rfl, rfl⟩
  | some c => exact .inr ⟨c, rfl, firstFree_free h, rfl⟩

theorem updated_go {u : Updated} (h : u.go s = some s') :
    u = .failed ∧ s' = s ∨ ∃ t, u = .stored t ∧ s' = { s with table := t } := by
  cases u with
  | panic => cases h
  | failed =>
    cases h
    exact .inl ⟨rfl, rfl⟩
  | stored t =>
    cases h
    exact .inr ⟨t, rfl, rfl⟩

/-- The thread that searched, with what it found; the others are as they were. -/
structure Found (s : Sys) (c : Nat) (o : Object) (i : Nat) (th : Thread) : Prop where
  last : th.file.lastcluster = (s.threads i).file.lastcluster
  flight : ∀ d, th.pc = .link d ∨ th.pc = .mark d → o = .file i ∧ d = c
  pos : th.pc ≠ .next

theorem Found.given (h : Found s c o i th) (hf : Free b s.table c) (hn : c ∉ s.given)
    (hs : s'.threads = Function.update s.threads i th) (he : s'.table.entry = s.table.entry)
    (hg : s'.given = s.given ++ [c])
    (hfirst : ∀ o', s'.first o' ≠ 0 → s'.first o' = s.first o' ∨ o' = o ∧ s'.first o' = c) :
    Given b s c o s' := by
  have hthread : ∀ j, j = i ∧ s'.threads j = th ∨ s'.threads j = s.threads j := by
    intro j
    rw [hs]
    by_cases hj : j = i
    · subst hj
      exact .inl ⟨rfl, Function.update_self _ _ _⟩
    · exact .inr (Function.update_of_ne hj _ _)
  refine ⟨hf, hn, he, hg, hfirst, fun j => ?_, fun j d => ?_, fun j => ?_⟩ <;>
    obtain ⟨rfl, hj⟩ | hj := hthread j <;> rw [hj]
  · exact h.last
  · exact fun hd => .inr (h.flight d hd)
  · exact fun hd => .inl hd
  · exact fun hc => absurd hc h.pos
  · exact fun hc => hc

/-- The search of `next_write_cluster` for an empty file. -/
theorem given_first (hf : Free b s.table c) (hn : c ∉ s.given)
    (h0 : (s.threads i).file.lastcluster = 0) : Given b s c (.file i)
      (Sys.setThread { s with table := { s.table with nextfree := c }, given := s.given ++ [c] } i
        ⟨{ (s.threads i).file with firstcluster := c }, .mark c⟩) := by
  have hfound : Found s c (.file i) i
      ⟨{ (s.threads i).file with firstcluster := c }, .mark c⟩ := by
    refine ⟨rfl, fun d hd => ?_, Pc.noConfusion⟩
    rcases hd with hd | hd <;> cases hd
    exact ⟨rfl, rfl⟩
  refine hfound.given hf hn rfl rfl rfl fun o hne => ?_
  cases o with
  | file j =>
    show (Function.update s.threads i _ j).file.firstcluster = _ ∨
      _ ∧ (Function.update s.threads i _ j).file.firstcluster = c
    by_cases hj : j = i
    · subst hj
      rw [Function.update_self]
      exact .inr ⟨rfl, rfl⟩
    · rw [Function.update_of_ne hj]
      exact .inl rfl
  | dir j => exact .inl rfl
  | other j => exact .inl rfl

/-- The search of `next_write_cluster` for a file that has clusters. -/
theorem given_link (hf : Free b s.table c) (hn : c ∉ s.given) : Given b s c (.file i)
    (Sys.setThread { s with table := { s.table with nextfree := c }, given := s.given ++ [c] } i
      { s.threads i with pc := .link c }) := by
  have hfound : Found s c (.file i) i { s.threads i with pc := .link c } := by
    refine ⟨rfl, fun d hd => ?_, Pc.noConfusion⟩
    rcases hd with hd | hd <;> cases hd
    exact ⟨rfl, rfl⟩
  exact hfound.given hf hn rfl rfl rfl fun o hne => .inl (first_setThread rfl)

/-- The search of `fat_create_dir`. -/
theorem given_dir (hf : Free b s.table c) (hn : c ∉ s.given) : Given b s c (.dir s.dirs.length)
    (Sys.setThread { s with
      table := { s.table with nextfree := c }
      given := s.given ++ [c]
      dirs := s.dirs ++ [c] } i { s.threads i with pc := .markDir c }) := by
  have hfound : Found s c (.dir s.dirs.length) i { s.threads i with pc := .markDir c } := by
    refine ⟨rfl, fun d hd => ?_, Pc.noConfusion⟩
    rcases hd with hd | hd <;> cases hd
  refine hfound.given hf hn rfl rfl rfl fun o hne => ?_
  cases o with
  | file j =>
    refine .inl ?_
    show (Function.update s.threads i _ j).file.firstcluster = (s.threads j).file.firstcluster
    by_cases hj : j = i
    · subst hj
      rw [Function.update_self]
    · rw [Function.update_of_ne hj]
  | other j => exact .inl rfl
  | dir j =>
    show (s.dirs ++ [c]).getD j 0 = s.dirs.getD j 0 ∨ _
    replace hne : (s.dirs ++ [c]).getD j 0 ≠ 0 := hne
    rcases Nat.lt_trichotomy j s.dirs.length with hj | rfl | hj
    · refine .inl ?_
      simp [List.getD, List.getElem?_append_left hj]
    · refine .inr ⟨rfl, ?_⟩
      show (s.dirs ++ [c]).getD s.dirs.length 0 = c
      simp [List.getD]
    · refine absurd ?_ hne
      simp only [List.getD]
      rw [List.getElem?_eq_none (by simp only [List.length_append, List.length_singleton]; omega)]
      rfl

theorem goThread_owned {readable : Nat → Bool} {writable : Bool} (hb : b.Fits)
    (h : Owned b s owner) (hs : goThread b s i readable writable = some s')
    (hok : ¬ SearchesUnmarked b s (i, .go readable writable)) : ∃ owner', Owned b s' owner' := by
  unfold goThread at hs
  cases hpc : (s.threads i).pc with
  | idle => simp only [hpc, reduceCtorEq] at hs
  | next =>
    simp only [hpc] at hs
    split at hs
    · cases hs
      exact ⟨owner, h.setPc (fun _ => Pc.noConfusion) (fun _ => Pc.noConfusion) Pc.noConfusion⟩
    · rename_i hne
      cases hs
      have howner := h.next _ _ (h.last i (h.pos i hpc)) hne
      refine ⟨owner, h.setThread rfl (fun _ => howner) (fun c hc => ?_) Pc.noConfusion⟩
      rcases hc with hc | hc <;> cases hc
  | search =>
    simp only [hpc] at hs
    obtain ⟨-, hfind⟩ | ⟨c, hfirst, hfree, hfind⟩ :=
      findFreeCluster_cases b s.table readable (s.start i)
    · rw [hfind, if_pos rfl] at hs
      cases hs
      exact ⟨owner, h.setPc (fun _ => Pc.noConfusion) (fun _ => Pc.noConfusion) Pc.noConfusion⟩
    · rw [hfind, if_neg hfree.2.ne_zero] at hs
      have hn : c ∉ s.given := fun hc => hok ⟨.inl hpc, c, hc, hfirst⟩
      split at hs
      · cases hs
        exact ⟨_, h.give (given_link hfree hn)⟩
      · rename_i h0
        cases hs
        exact ⟨_, h.give (given_first hfree hn (not_not.1 h0))⟩
  | link cluster =>
    simp only [hpc] at hs
    obtain ⟨howner, hdata⟩ := h.flight i cluster (.inl hpc)
    have hset : Owned b (s.setThread i { s.threads i with pc := .mark cluster }) owner := by
      refine h.setThread rfl (h.last i) (fun c hc => ?_) Pc.noConfusion
      rcases hc with hc | hc <;> cases hc
      exact ⟨howner, hdata⟩
    obtain ⟨-, rfl⟩ | ⟨t, hu, rfl⟩ := updated_go hs
    · exact ⟨owner, hset⟩
    · have hentry := updateFatEntry_two_le hu
      exact ⟨owner, hset.link hb hdata (h.last i (by omega)) howner hu⟩
  | mark cluster =>
    simp only [hpc] at hs
    obtain ⟨howner, hdata⟩ := h.flight i cluster (.inr hpc)
    have hset : Owned b (s.setThread i
        ⟨{ (s.threads i).file with lastcluster := cluster }, .idle⟩) owner := by
      refine h.setThread rfl (fun _ => howner) (fun c hc => ?_) Pc.noConfusion
      rcases hc with hc | hc <;> cases hc
    obtain ⟨-, rfl⟩ | ⟨t, hu, rfl⟩ := updated_go hs
    · exact ⟨owner, hset⟩
    · exact ⟨owner, hset.mark hu⟩
  | searchDir =>
    simp only [hpc] at hs
    obtain ⟨-, hfind⟩ | ⟨c, hfirst, hfree, hfind⟩ :=
      findFreeCluster_cases b s.table readable (s.start i)
    · rw [hfind, if_pos rfl] at hs
      cases hs
      exact ⟨owner, h.setPc (fun _ => Pc.noConfusion) (fun _ => Pc.noConfusion) Pc.noConfusion⟩
    · rw [hfind, if_neg hfree.2.ne_zero] at hs
      have hn : c ∉ s.given := fun hc => hok ⟨.inr hpc, c, hc, hfirst⟩
      cases hs
      exact ⟨_, h.give (given_dir hfree hn)⟩
  | markDir cluster =>
    simp only [hpc] at hs
    have hset : Owned b (s.setThread i { s.threads i with pc := .idle }) owner :=
      h.setPc (fun _ => Pc.noConfusion) (fun _ => Pc.noConfusion) Pc.noConfusion
    obtain ⟨-, rfl⟩ | ⟨t, hu, rfl⟩ := updated_go hs
    · exact ⟨owner, hset⟩
    · exact ⟨owner, hset.mark hu⟩

theorem step_owned {a : Nat × Call} (hb : b.Fits) (h : Owned b s owner)
    (hs : step b s a = some (s', ())) (hok : ¬ SearchesUnmarked b s a) :
    ∃ owner', Owned b s' owner' := by
  obtain ⟨i, call⟩ := a
  unfold step at hs
  dsimp only at hs
  split at hs
  · cases hs
    refine ⟨owner, h.setPc (fun c => ?_) (fun c => ?_) fun hpc => ?_⟩
    · split <;> exact Pc.noConfusion
    · split <;> exact Pc.noConfusion
    · split at hpc
      · assumption
      · cases hpc
  · cases hs
    exact ⟨owner, h.setPc (fun _ => Pc.noConfusion) (fun _ => Pc.noConfusion) Pc.noConfusion⟩
  · simp only [Option.map_eq_some_iff, Prod.mk.injEq, and_true, exists_eq_right] at hs
    exact goThread_owned hb h hs hok
  · cases hs

/-- After a search that finds what was given already, it is given twice. -/
theorem step_unsettled {a : Nat × Call} (hs : step b s a = some (s', ()))
    (hbad : SearchesUnmarked b s a) : ¬ s'.given.Nodup := by
  obtain ⟨i, call⟩ := a
  cases call with
  | extend => exact absurd hbad id
  | createDir => exact absurd hbad id
  | go readable writable =>
    obtain ⟨hpc, c, hc, hfirst⟩ := hbad
    have hfind : findFreeCluster b s.table readable (s.start i) =
        (c, { s.table with nextfree := c }) := by
      rw [findFreeCluster_eq, hfirst]
    have hne := (firstFree_free hfirst).2.ne_zero
    have hgiven : s'.given = s.given ++ [c] := by
      simp only [step, Option.map_eq_some_iff, Prod.mk.injEq, and_true, exists_eq_right] at hs
      unfold goThread at hs
      rcases hpc with hpc | hpc
      · simp only [hpc, hfind, hne, ↓reduceIte] at hs
        split at hs <;> cases hs <;> rfl
      · simp only [hpc, hfind, hne, ↓reduceIte] at hs
        cases hs
        rfl
    rw [hgiven]
    intro hnodup
    exact (List.nodup_append.1 hnodup).2.2 c hc c (List.mem_singleton_self c) rfl

/-! ## Whole runs -/

/-- The volume is consistent, and no thread has begun. -/
structure Init (b : Bpb) (s : Sys) : Prop where
  idle : ∀ i, (s.threads i).pc = .idle
  given : s.given = []
  disjoint : ∀ o o' c, Linked b s.table (s.first o) c → Linked b s.table (s.first o') c → o = o'
  used : ∀ o c, Linked b s.table (s.first o) c → s.table.entry c ≠ 0
  last : ∀ i, (s.threads i).file.lastcluster ≠ 0 →
    Linked b s.table (s.first (.file i)) (s.threads i).file.lastcluster

open Classical in
theorem Init.owned (h : Init b s) : ∃ owner, Owned b s owner := by
  let owner : Nat → Option Object := fun c =>
    if ho : ∃ o, Linked b s.table (s.first o) c then some ho.choose else none
  have howner : ∀ c o, owner c = some o ↔ Linked b s.table (s.first o) c := by
    intro c o
    by_cases ho : ∃ o, Linked b s.table (s.first o) c
    · have hc : owner c = some ho.choose := dif_pos ho
      rw [hc]
      constructor
      · intro heq
        rw [← Option.some.inj heq]
        exact ho.choose_spec
      · intro hl
        rw [h.disjoint _ _ c ho.choose_spec hl]
    · have hc : owner c = none := dif_neg ho
      rw [hc]
      exact ⟨(fun hc => by cases hc), fun hl => absurd ⟨o, hl⟩ ho⟩
  refine ⟨owner, fun o hne => ?_, fun c o hc hne => ?_, fun i hne => ?_, fun i c hc => ?_,
    fun i hc => ?_, fun c hc hne => ?_, fun c hc => ?_, ?_⟩
  · exact (howner _ o).2 (.first hne)
  · exact (howner _ o).2 (.next ((howner c o).1 hc) hne)
  · exact (howner _ _).2 (h.last i hne)
  · rw [h.idle] at hc
    rcases hc with hc | hc <;> cases hc
  · rw [h.idle] at hc
    cases hc
  · obtain ⟨o, ho⟩ := Option.ne_none_iff_exists'.1 hne
    exact absurd hc (h.used o c ((howner c o).1 ho))
  · rw [h.given] at hc
    cases hc
  · rw [h.given]
    exact List.nodup_nil

/-- A FAT32 volume of four clusters, all free. -/
def smallBpb : Bpb := ⟨false, 512, 1, 4⟩

def emptyVolume : Sys where
  table := ⟨fun _ => 0, 4, 2⟩
  threads := fun _ => ⟨⟨0, 0⟩, .idle⟩
  dirs := []
  others := []
  given := []

theorem emptyVolume_first (o : Object) : emptyVolume.first o = 0 := by
  cases o with
  | file i => rfl
  | dir i => exact List.getD_nil
  | other i => exact List.getD_nil

theorem emptyVolume_init : Init smallBpb emptyVolume := by
  have hnone : ∀ o c, ¬ Linked smallBpb emptyVolume.table (emptyVolume.first o) c := by
    intro o c hc
    rw [emptyVolume_first] at hc
    induction hc with
    | first hne => exact hne rfl
    | next _ _ ih => exact ih
  exact ⟨fun _ => rfl, rfl, fun o _ c hc => absurd hc (hnone o c),
    fun o c hc => absurd hc (hnone o c), fun _ hne => absurd rfl hne⟩

end Fat
end Freemyipod
