import Freemyipod.Fat.Allocation
import Freemyipod.Fat.Chain
import Freemyipod.Lib.Runs

/-!
# Fat.Seek

`fat_seek` may go on from the cluster that the file has stored, if the stored cluster has the
number that the file has stored with it. Runs of the calls on one open file.

* `Cached`: the stored cluster is the one with that number in the chain; `Cached.sameSeek`: then a
  seek ends where a walk from the first cluster ends.
* `step_cached`: what keeps `Cached`. Two things do not: a write that gives an empty file its first
  cluster counts that cluster as the second one, and a read behind the end of the chain stores no
  cluster at all.
* `sameSeek_of_allowed`: in every run without these two every seek is the same as from the start.
-/

namespace Freemyipod
namespace Fat

open Effect

variable (g : Geometry) (rc : Nat → Int)

/-- From the first cluster. -/
def plainStart (f : FatFile) (clusternum : Int) : Int × Int := (f.firstcluster, clusternum)

/-- Wherever the file is sought to, it ends up as it does from its first cluster. -/
def SameSeek (a : Access) : Prop :=
  ∀ n, seekWith g cachedStart a.table a.file n = seekWith g plainStart a.table a.file n

/-- The calls on an open file. -/
inductive Op
  | read (sectorcount : Nat)
  | write (sectorcount : Nat)
  | seek (seeksector : Nat)
  | truncate

def Op.prog : Op → Prog Int
  | read n => fatReadwrite g rc n false
  | write n => fatReadwrite g rc n true
  | seek n => fatSeek g n
  | truncate => fatTruncate g

/-- A call that does not panic. -/
def call (a : Access) (op : Op) : Option (Access × Int) :=
  match (op.prog g rc).run a with
  | .ok (r, a') => some (a', r)
  | .error _ => none

/-- Where in its cluster a cursor is before the next sector. -/
def Cursor.offset (c : Cursor) (first : Int) : Int :=
  if c.numsec + 1 ≤ g.secperclus ∧ c.sector = 0 then g.skip first else c.numsec

/-- The last one of the next `n` sectors is in a cluster of the chain. -/
def Cursor.Within (t : Table) (first : Int) (n : Nat) (c : Cursor) : Prop :=
  n = 0 ∨ (walk g t ((c.offset g first + n - 1) / g.secperclus).toNat c.cluster).isSome = true

/-- The calls that leave the number of the cluster right: a read stays within the chain, a write
does not look for the first cluster of the file (or finds none), and the clusters sought for can be
counted with a `long`. -/
def Allowed (a : Access) : Op → Prop
  | .read n => a.file.eof = true ∨ n = 0 ∨ a.file.lastsector < 0 ∨
      a.file.lastcluster ≠ 0 ∧ a.file.cursor.Within g a.table a.file.firstcluster n
  | .write n => n = 0 ∨ a.file.lastsector < 0 ∨ a.file.lastcluster ≠ 0 ∨
      firstFree g.toBpb a.table (fun _ => true) a.table.nextfree = none
  | .seek n => (seekSector g a.file n - 1) / g.secperclus < 2 ^ 31
  | .truncate => True

/-- The clusters of a file: those of its chain, or none. Nothing follows an empty file. -/
def Clusters (t : Table) (first : Int) (cs : List Int) : Prop :=
  Chain g t (first :: cs) ∨ first = 0 ∧ cs = [] ∧ g.getNextCluster t 0 = 0

/-- The stored cluster has the stored number. -/
structure Cached (a : Access) (cs : List Int) : Prop where
  clusters : Clusters g a.table a.file.firstcluster cs
  nonneg : 0 ≤ a.file.clusternum
  cluster : (a.file.firstcluster :: cs)[a.file.clusternum.toNat]? = some a.file.lastcluster

variable {g} {rc} {a a' : Access} {t : Table} {cs : List Int}

/-! ## Seeking -/

theorem Clusters.links {first : Int} (h : Clusters g t first cs) : Links g t (first :: cs) := by
  rcases h with h | ⟨rfl, rfl, hnext⟩
  · exact h.links
  · exact .last hnext

theorem Cached.links (h : Cached g a cs) : Links g a.table (a.file.firstcluster :: cs) :=
  h.clusters.links

theorem long_lt (x : Int) : long x < 2 ^ 31 := by
  have := Int.bmod_lt (x := x) (m := 2 ^ 32) (by decide)
  unfold long
  omega

theorem seekFrom_congr {f : FatFile} {n : Int} {m : Nat} {start start' : Int × Int}
    (h : walk g t start.2.toNat start.1 = walk g t start'.2.toNat start'.1) :
    seekFrom g t f n m start = seekFrom g t f n m start' := by
  unfold seekFrom
  rw [h]

/-- From the stored cluster the walk comes to the same cluster. -/
theorem Cached.walk_eq (h : Cached g a cs) {n : Int} (hn : n < 2 ^ 31) :
    walk g a.table (cachedStart { a.file with eof := false } n).2.toNat
        (cachedStart { a.file with eof := false } n).1 =
      walk g a.table n.toNat a.file.firstcluster := by
  unfold cachedStart
  dsimp only
  split
  case isTrue hc =>
    have hnum := h.nonneg
    obtain ⟨hlt, hget⟩ := List.getElem?_eq_some_iff.1 h.cluster
    have hlast := h.links.walk_eq hlt (n - a.file.clusternum).toNat
    have hfirst := h.links.walk_eq (Nat.zero_lt_succ _) n.toNat
    rw [hget] at hlast
    rw [List.getElem_cons_zero] at hfirst
    rw [Geometry.long_eq (by omega) (by omega), hlast, hfirst]
    congr 1
    omega
  case isFalse => rfl

theorem Cached.seekFrom_eq (h : Cached g a cs) {n : Int} (hn : n < 2 ^ 31) (m : Nat) :
    seekFrom g a.table { a.file with eof := false } n m
        (cachedStart { a.file with eof := false } n) =
      seekFrom g a.table { a.file with eof := false } n m
        (plainStart { a.file with eof := false } n) :=
  seekFrom_congr (h.walk_eq hn)

theorem Cached.sameSeek (h : Cached g a cs) : SameSeek g a := by
  intro n
  unfold seekWith
  dsimp only
  rw [h.seekFrom_eq (long_lt _)]

/-! ## The FAT under updates -/

theorem update_ends {entry val : Nat} {E : Panic → Prop} (hE : ∀ e, E e) :
    Ends E (update g entry val) a fun _ a' => ∃ t, a' = { a with table := t } ∧
      t.entry = Function.update a.table.entry entry (val % g.entries) ∧
      updateFatEntry g.toBpb a.table true entry val = .stored t := by
  unfold update
  rw [ends_bind, ends_get]
  cases h : updateFatEntry g.toBpb a.table true entry val with
  | panic => exact ends_throw.2 (hE _)
  | failed =>
    have hw := updateFatEntry_failed h
    cases hw
  | stored t => exact ends_set.2 ⟨t, rfl, (updateFatEntry_stored h).1, rfl⟩

/-- Clusters whose next cluster is not looked up in the FAT. -/
def Pseudo (g : Geometry) (c : Int) : Prop := g.isFat16 = true ∧ c < 0

theorem next_pseudo {c : Int} (h : Pseudo g c) : g.getNextCluster t c = c + 1 := if_pos h

theorem next_entry {c : Int} (h : ¬ Pseudo g c) :
    g.getNextCluster t c = Fat.getNextCluster g.toBpb t (unsigned c) := if_neg h

theorem next_congr {t' : Table} {c : Int}
    (h : ¬ Pseudo g c → t'.entry (unsigned c) = t.entry (unsigned c)) :
    g.getNextCluster t' c = g.getNextCluster t c := by
  by_cases hp : Pseudo g c
  · rw [next_pseudo hp, next_pseudo hp]
  · rw [next_entry hp, next_entry hp]
    unfold Fat.getNextCluster
    rw [h hp]

theorem next_of_zero {c : Int} (hp : ¬ Pseudo g c) (h : t.entry (unsigned c) = 0) :
    g.getNextCluster t c = 0 := by
  rw [next_entry hp]
  unfold Fat.getNextCluster
  rw [h]
  simp

/-- Two places of a chain do not share an entry of the FAT. -/
theorem Links.entry_inj (h : Links g t cs) {i j : Nat} (hi : i < cs.length) (hj : j < cs.length)
    (hpi : ¬ Pseudo g cs[i]) (hpj : ¬ Pseudo g cs[j]) (heq : unsigned cs[i] = unsigned cs[j]) :
    i = j := by
  have hnext : g.getNextCluster t cs[i] = g.getNextCluster t cs[j] := by
    rw [next_entry hpi, next_entry hpj, heq]
  by_cases hi' : i + 1 < cs.length
  · rw [h.next_getElem hi'] at hnext
    by_cases hj' : j + 1 < cs.length
    · rw [h.next_getElem hj'] at hnext
      have := (List.Nodup.getElem_inj_iff h.nodup).1 hnext
      omega
    · rw [h.next_last (by omega)] at hnext
      exact absurd hnext (h.ne_zero hi')
  · by_cases hj' : j + 1 < cs.length
    · rw [h.next_last (by omega), h.next_getElem hj'] at hnext
      exact absurd hnext.symm (h.ne_zero hj')
    · omega

/-- The same in a FAT that agrees on the clusters. -/
theorem Links.congr {t' : Table} (h : Links g t cs)
    (heq : ∀ i (hi : i < cs.length), g.getNextCluster t' cs[i] = g.getNextCluster t cs[i]) :
    Links g t' cs := by
  induction h with
  | last hn => exact .last ((heq 0 (by simp)).trans hn)
  | cons hn hd htail ih =>
    refine .cons ((heq 0 (by simp)).trans hn) hd (ih fun i hi => ?_)
    exact heq (i + 1) (by simpa using hi)

/-! ## `fat_seek` -/

theorem Cached.seekFrom (h : Cached g a cs) {q : Nat} (hq : q < 2 ^ 31) (m : Nat) :
    Cached g { a with file := (seekFrom g a.table { a.file with eof := false } q m
      (plainStart { a.file with eof := false } q)).2 } cs := by
  have hwalk := h.links.walk_eq (Nat.zero_lt_succ _) q
  rw [List.getElem_cons_zero, Nat.zero_add] at hwalk
  unfold Fat.seekFrom plainStart
  dsimp only
  rw [Int.toNat_natCast, hwalk]
  cases hget : (a.file.firstcluster :: cs)[q]? with
  | none => exact ⟨h.clusters, h.nonneg, h.cluster⟩
  | some c =>
    refine ⟨h.clusters, ?_, ?_⟩
    · dsimp only
      omega
    · dsimp only
      rw [Int.toNat_natCast, hget]

theorem fatSeek_cached (h : Cached g a cs) {n : Nat} (hok : Allowed g a (.seek n)) :
    Ends (fun _ => True) (fatSeek g n) a fun _ a' => Cached g a' cs := by
  have hlt : (seekSector g a.file n - 1) / g.secperclus < 2 ^ 31 := hok
  unfold fatSeek
  rw [ends_bind, ends_get, ends_bind, ends_set, ends_pure]
  unfold seekWith
  dsimp only
  by_cases hm : seekSector g a.file n ≠ 0
  · rw [if_pos hm, h.seekFrom_eq (long_lt _)]
    have hlong : long ((seekSector g a.file n - 1) / g.secperclus : Nat) =
        ((seekSector g a.file n - 1) / g.secperclus : Nat) := by
      generalize (seekSector g a.file n - 1) / g.secperclus = q at hlt
      exact Geometry.long_eq (by omega) (by omega)
    rw [hlong]
    exact h.seekFrom hlt _
  · rw [if_neg hm]
    exact ⟨h.clusters, le_rfl, rfl⟩

/-! ## `fat_truncate` -/

theorem pseudo_or_data (h : Chain g t cs) {c : Int} (hc : c ∈ cs) :
    Pseudo g c ∨ 2 ≤ c ∧ ¬ Pseudo g c := by
  rcases h.has_of_mem hc with ⟨h2, -⟩ | ⟨h16, hneg, -⟩
  · exact .inr ⟨h2, fun hp => by have := hp.2; omega⟩
  · exact .inl ⟨h16, hneg⟩

theorem freeChain_file (k : Nat) {last : Int} {E : Panic → Prop} (hE : ∀ e, E e) :
    Ends E (freeChain g k last) a fun _ a' => a'.file = a.file := by
  induction k generalizing a last with
  | zero =>
    rw [freeChain, ends_pure]
  | succ k ih =>
    rw [freeChain]
    by_cases h0 : last = 0
    · rw [if_pos h0, ends_pure]
    · rw [if_neg h0, ends_bind, ends_get, ends_bind]
      refine (update_ends hE).mono ?_
      rintro _ a' ⟨t, rfl, -⟩
      exact ih

/-- What follows the `i`-th cluster of a chain. -/
theorem Links.next_tail (h : Links g t cs) {i : Nat} (hi : i < cs.length) :
    g.getNextCluster t cs[i] = 0 ∧ cs.drop (i + 1) = [] ∨
      ∃ l, cs.drop (i + 1) = g.getNextCluster t cs[i] :: l ∧
        Links g t (g.getNextCluster t cs[i] :: l) := by
  by_cases hi' : i + 1 < cs.length
  · right
    refine ⟨cs.drop (i + 1 + 1), ?_⟩
    rw [h.next_getElem hi', ← List.drop_eq_getElem_cons hi']
    refine ⟨rfl, ?_⟩
    rw [List.drop_eq_getElem_cons hi']
    refine Links.drop (l := cs.take (i + 1)) ?_
    rw [← List.drop_eq_getElem_cons hi', List.take_append_drop]
    exact h
  · exact .inl ⟨h.next_last (by omega), List.drop_eq_nil_of_le (by omega)⟩

/-- The entries that belong to none of the clusters stay as they are. -/
theorem freeChain_ends (k : Nat) {l : List Int} {last : Int} {E : Panic → Prop} (hE : ∀ e, E e)
    (hl : last = 0 ∧ l = [] ∨ ∃ l', l = last :: l' ∧ Links g a.table (last :: l'))
    (hp : ∀ c ∈ l, ¬ Pseudo g c) :
    Ends E (freeChain g k last) a fun _ a' =>
      ∀ e, (∀ c ∈ l, unsigned c ≠ e) → a'.table.entry e = a.table.entry e := by
  induction k generalizing a l last with
  | zero =>
    rw [freeChain, ends_pure]
    exact fun _ _ => rfl
  | succ k ih =>
    rw [freeChain]
    by_cases h0 : last = 0
    · rw [if_pos h0, ends_pure]
      exact fun _ _ => rfl
    · rw [if_neg h0, ends_bind, ends_get, ends_bind]
      obtain ⟨l', rfl, hlinks⟩ := hl.resolve_left fun h => h0 h.1
      refine (update_ends hE).mono ?_
      rintro _ a' ⟨t, rfl, hentry, -⟩
      -- the clusters that are left do not share the freed entry
      have hrest : g.getNextCluster a.table last = 0 ∧ l' = [] ∨
          ∃ l'', l' = g.getNextCluster a.table last :: l'' ∧
            Links g t (g.getNextCluster a.table last :: l'') := by
        cases hlinks with
        | last hn => exact .inl ⟨hn, rfl⟩
        | @cons _ d l'' hn hd htail =>
          refine .inr ⟨l'', by rw [hn], ?_⟩
          rw [hn]
          refine htail.congr fun i hi => next_congr fun hpi => ?_
          rw [hentry, Function.update_of_ne]
          intro heq
          have := (Links.cons hn hd htail).entry_inj (i := i + 1) (j := 0)
            (by simpa using hi) (by simp) hpi (hp _ (List.mem_cons_self)) heq
          omega
      refine (ih (a := { a with table := t }) hrest
        fun c hc => hp c (List.mem_cons_of_mem _ hc)).mono ?_
      intro _ a' hsame e he
      rw [hsame e fun c hc => he c (List.mem_cons_of_mem _ hc)]
      change t.entry e = a.table.entry e
      rw [hentry, Function.update_of_ne (he last List.mem_cons_self).symm]

/-- A chain that ends at its `i`-th cluster in another FAT is still that of the file. -/
theorem Cached.splice {t : Table} {f : FatFile}
    (hchain : Chain g a.table (a.file.firstcluster :: cs)) (hf : f.firstcluster = a.file.firstcluster)
    {i : Nat} (hi : i < (a.file.firstcluster :: cs).length) (hn : f.clusternum.toNat ≤ i)
    (hn0 : 0 ≤ f.clusternum)
    (hlast : (a.file.firstcluster :: cs)[f.clusternum.toNat]? = some f.lastcluster)
    (heq : ∀ j (hj : j < (a.file.firstcluster :: cs).length), j < i →
      g.getNextCluster t (a.file.firstcluster :: cs)[j] =
        g.getNextCluster a.table (a.file.firstcluster :: cs)[j])
    {l : List Int} (hl : Chain g t ((a.file.firstcluster :: cs)[i] :: l)) :
    Cached g { a with table := t, file := f } (cs.take i ++ l) := by
  have hspl := hchain.splice hi heq hl
  have hlist : (a.file.firstcluster :: cs).take i ++ (a.file.firstcluster :: cs)[i] :: l =
      a.file.firstcluster :: (cs.take i ++ l) := by
    rw [List.append_cons, List.take_concat_get', List.take_succ_cons, List.cons_append]
  rw [hlist] at hspl
  refine ⟨.inl (by rw [hf]; exact hspl), hn0, ?_⟩
  dsimp only
  rw [hf, ← hlast]
  rw [← List.cons_append, ← List.take_succ_cons, List.getElem?_append_left, List.getElem?_take]
  · exact if_pos (by omega)
  · rw [List.length_take]
    omega

theorem fatTruncate_cached (h : Cached g a cs) :
    Ends (fun _ => True) (fatTruncate g) a fun _ a' => ∃ cs', Cached g a' cs' := by
  obtain ⟨hlt, hget⟩ := List.getElem?_eq_some_iff.1 h.cluster
  unfold fatTruncate
  rw [ends_bind, ends_get, ends_bind]
  rcases h.clusters with hchain | ⟨h0, rfl, hnext⟩
  · by_cases hneg : a.file.firstcluster < 0
    · -- the FAT does not matter
      have hall : ∀ t, Chain g t (a.file.firstcluster :: cs) := fun t =>
        hchain.congr fun c hc => next_congr fun hnp => absurd
          ((pseudo_or_data hchain hc).resolve_right fun hd => by
            have := hchain.neg hneg hc
            omega) hnp
      refine (freeChain_file (2 ^ 32) fun _ => trivial).mono ?_
      intro _ a' hfile
      have hcached : ∀ t, Cached g { a' with table := t } cs := by
        intro t
        refine ⟨.inl ?_, ?_, ?_⟩
        · dsimp only
          rw [hfile]
          exact hall t
        · dsimp only
          rw [hfile]
          exact h.nonneg
        · dsimp only
          rw [hfile]
          exact h.cluster
      rw [ends_ite]
      refine ⟨fun _ => ?_, fun _ => ?_⟩
      · rw [ends_bind]
        refine (update_ends fun _ => trivial).mono ?_
        rintro _ a'' ⟨t, rfl, -⟩
        exact (ends_pure _).2 ⟨cs, hcached t⟩
      · exact (ends_pure _).2 ⟨cs, hcached a'.table⟩
    · have hdata : ∀ c ∈ a.file.firstcluster :: cs, 2 ≤ c := fun c hc =>
        hchain.data (by omega) hc
      have hnp : ∀ c ∈ a.file.firstcluster :: cs, ¬ Pseudo g c := by
        intro c hc hp
        have h1 := hdata c hc
        have h2 := hp.2
        omega
      have hmem : a.file.lastcluster ∈ a.file.firstcluster :: cs := by
        rw [← hget]
        exact List.getElem_mem hlt
      have hfree := freeChain_ends (a := a) (2 ^ 32) (E := fun _ => True) (fun _ => trivial)
        (hchain.links.next_tail hlt) fun c hc => hnp c (List.mem_of_mem_drop hc)
      rw [hget] at hfree
      refine ((freeChain_file (2 ^ 32) fun _ => trivial).and hfree).mono ?_
      rintro _ a' ⟨hfile, hsame⟩
      have hne : a.file.lastcluster ≠ 0 := by
        have := hdata _ hmem
        omega
      rw [ends_ite]
      refine ⟨fun _ => ?_, fun h0 => absurd hne h0⟩
      rw [ends_bind]
      refine (update_ends fun _ => trivial).mono ?_
      rintro _ a'' ⟨t, rfl, hentry, -⟩
      have hlastmem : ¬ Pseudo g a.file.lastcluster := hnp _ hmem
      have hend : Chain g t ((a.file.firstcluster :: cs)[a.file.clusternum.toNat] :: []) := by
        rw [hget]
        refine .last (hchain.has_of_mem hmem) ?_
        rw [next_entry hlastmem]
        unfold Fat.getNextCluster
        rw [hentry, Function.update_self, Bpb.eofMark_mod, if_pos le_rfl]
        rfl
      have hspl := Cached.splice (t := t) (f := a'.file) hchain (by rw [hfile]) hlt (by rw [hfile])
        (by rw [hfile]; exact h.nonneg) (by rw [hfile]; exact h.cluster)
        (fun j hj hji => next_congr fun hpj => by
          rw [hentry, Function.update_of_ne, hsame]
          · intro c hc heq
            obtain ⟨m, hm, rfl⟩ := List.mem_drop_iff_getElem.1 hc
            have := hchain.links.entry_inj (by omega) hj (hnp _ (List.getElem_mem _)) hpj heq
            omega
          · intro heq
            have := hchain.links.entry_inj hj hlt hpj (by rw [hget]; exact hlastmem)
              (by rw [hget]; exact heq)
            omega) hend
      exact (ends_pure _).2 ⟨_, hspl.clusters, hspl.nonneg, hspl.cluster⟩
  · -- an empty file has no cluster to free
    have hlast : a.file.lastcluster = 0 := by
      rw [← hget]
      simp only [List.length_singleton] at hlt
      simp [show a.file.clusternum.toNat = 0 by omega, h0]
    have hfree : freeChain g (2 ^ 32) 0 = pure () := by
      rw [show (2 : Nat) ^ 32 = 2 ^ 32 - 1 + 1 by norm_num, freeChain, if_pos rfl]
    rw [hlast, hnext, hfree, ends_pure, if_neg (by simp), ends_pure]
    exact ⟨[], h⟩

/-! ## `fat_readwrite` -/

/-- The part of a cursor that says where it is. -/
structure SamePlace (c c' : Cursor) : Prop where
  cluster : c'.cluster = c.cluster
  sector : c'.sector = c.sector
  clusternum : c'.clusternum = c.clusternum
  numsec : c'.numsec = c.numsec
  eof : c'.eof = c.eof

theorem transfer_ends (start count buf : Int) (write : Bool) {E : Panic → Prop} (hE : ∀ e, E e) :
    Ends E (transfer g rc start count buf write) a fun _ a' =>
      a'.table = a.table ∧ a'.file = a.file := by
  unfold transfer
  rw [ends_ite]
  refine ⟨fun _ => ends_throw.2 (hE _), fun _ => ?_⟩
  rw [ends_ite]
  refine ⟨fun _ => ends_throw.2 (hE _), fun _ => ?_⟩
  simp only [ends_bind, ends_get, ends_set, ends_pure, and_self]

theorem moveRun_ends (write : Bool) (c : Cursor) {E : Panic → Prop} (hE : ∀ e, E e) :
    Ends E (moveRun g rc write c) a fun r a' => (a'.table = a.table ∧ a'.file = a.file) ∧
      ∀ c', r = .ok c' → SamePlace c c' := by
  have hfirst : SamePlace c (if c.first = 0 then { c with first := c.sector } else c) := by
    split
    · exact ⟨rfl, rfl, rfl, rfl, rfl⟩
    · exact ⟨rfl, rfl, rfl, rfl, rfl⟩
  unfold moveRun
  dsimp only
  generalize (if c.first = 0 then { c with first := c.sector } else c) = d at hfirst ⊢
  rw [ends_ite]
  refine ⟨fun _ => ?_, fun _ => ?_⟩
  · rw [ends_bind]
    refine (transfer_ends _ _ _ _ hE).mono fun r a' hsame => ?_
    rw [ends_ite, ends_pure, ends_pure]
    refine ⟨fun _ => ⟨hsame, fun c' hc => ?_⟩, fun _ => ⟨hsame, fun c' hc => ?_⟩⟩
    · cases hc
    · cases hc
      exact ⟨hfirst.cluster, hfirst.sector, hfirst.clusternum, hfirst.numsec, hfirst.eof⟩
  · rw [ends_pure]
    refine ⟨⟨rfl, rfl⟩, fun c' hc => ?_⟩
    cases hc
    exact hfirst

theorem moveLast_ends (write last : Bool) (c : Cursor) {E : Panic → Prop} (hE : ∀ e, E e) :
    Ends E (moveLast g rc write last c) a fun r a' => (a'.table = a.table ∧ a'.file = a.file) ∧
      ∀ c', r = .ok c' → SamePlace c c' := by
  unfold moveLast
  rw [ends_ite]
  refine ⟨fun _ => ?_, fun _ => ?_⟩
  · rw [ends_bind]
    refine (transfer_ends _ _ _ _ hE).mono fun r a' hsame => ?_
    rw [ends_ite, ends_pure, ends_pure]
    refine ⟨fun _ => ⟨hsame, fun c' hc => ?_⟩, fun _ => ⟨hsame, fun c' hc => ?_⟩⟩
    · cases hc
    · cases hc
      exact ⟨rfl, rfl, rfl, rfl, rfl⟩
  · rw [ends_pure]
    refine ⟨⟨rfl, rfl⟩, fun c' hc => ?_⟩
    cases hc
    exact ⟨rfl, rfl, rfl, rfl, rfl⟩

/-- The invariant rule of the loop: `P` with the turns left before every turn, `R` at the end, and
`F` where a transfer fails. -/
theorem readwriteLoop_ends {write : Bool} {P : Nat → Access → Cursor → Prop}
    {R : Access → Cursor → Prop} {F : Access → Prop} {E : Panic → Prop} (hE : ∀ e, E e)
    (hmove : ∀ k a c a' c', P k a c → a'.table = a.table ∧ a'.file = a.file → SamePlace c c' →
      P k a' c')
    (hadv : ∀ k a c, P (k + 1) a c → -1 < c.sector → Ends E (advance g write c) a fun r a' =>
      (∀ c', r = .there c' → P k a' c') ∧ ∀ c', r = .full c' → R a' c')
    (hdone : ∀ k a c, P k a c → R a c)
    (hfail : ∀ k a c a', P k a c → a'.table = a.table ∧ a'.file = a.file → F a')
    {k : Nat} {i : Int} {c : Cursor} (h : P k a c) :
    Ends E (readwriteLoop g rc write k i c) a fun r a' =>
      (∀ i' c', r = .done i' c' → R a' c') ∧ ∀ e, r = .failed e → F a' := by
  induction k generalizing i c a with
  | zero =>
    rw [readwriteLoop, ends_pure]
    refine ⟨fun i' c' hr => ?_, fun e hr => ?_⟩
    · cases hr
      exact hdone _ _ _ h
    · cases hr
  | succ k ih =>
    rw [readwriteLoop, ends_ite]
    refine ⟨fun hs => ?_, fun _ => ?_⟩
    · rw [ends_bind]
      refine (hadv k a c h hs).mono fun r a1 hr => ?_
      cases r with
      | full c1 =>
        refine (ends_pure _).2 ⟨fun i' c' hr' => ?_, fun e hr' => ?_⟩
        · cases hr'
          exact hr.2 c1 rfl
        · cases hr'
      | there c1 =>
        have hp1 := hr.1 c1 rfl
        simp only [ends_bind]
        refine (moveRun_ends write c1 hE).mono fun r a2 hr2 => ?_
        cases r with
        | failed e =>
          refine (ends_pure _).2 ⟨fun i' c' hr' => ?_, fun e hr' => ?_⟩
          · cases hr'
          · exact hfail _ _ _ _ hp1 hr2.1
        | ok c2 =>
          have hp2 := hmove _ _ _ _ _ hp1 hr2.1 (hr2.2 c2 rfl)
          simp only [ends_bind]
          refine (moveLast_ends write _ c2 hE).mono fun r a3 hr3 => ?_
          cases r with
          | failed e =>
            refine (ends_pure _).2 ⟨fun i' c' hr' => ?_, fun e hr' => ?_⟩
            · cases hr'
            · exact hfail _ _ _ _ hp2 hr3.1
          | ok c3 => exact ih (hmove _ _ _ _ _ hp2 hr3.1 (hr3.2 c3 rfl))
    · refine (ends_pure _).2 ⟨fun i' c' hr => ?_, fun e hr => ?_⟩
      · cases hr
        exact hdone _ _ _ h
      · cases hr

/-- A cursor on the chain of the file. -/
structure OnChain (g : Geometry) (a : Access) (cs : List Int) (c : Cursor) : Prop where
  cached : Cached g a cs
  nonneg : 0 ≤ c.clusternum
  cluster : (a.file.firstcluster :: cs)[c.clusternum.toNat]? = some c.cluster

theorem OnChain.same {a a' : Access} {c c' : Cursor} (h : OnChain g a cs c)
    (ha : a'.table = a.table ∧ a'.file = a.file) (hc : SamePlace c c') : OnChain g a' cs c' := by
  refine ⟨⟨?_, ?_, ?_⟩, ?_, ?_⟩
  · rw [ha.1, ha.2]
    exact h.cached.clusters
  · rw [ha.2]
    exact h.cached.nonneg
  · rw [ha.2]
    exact h.cached.cluster
  · rw [hc.clusternum]
    exact h.nonneg
  · rw [ha.2, hc.clusternum, hc.cluster]
    exact h.cluster

theorem OnChain.store {c : Cursor} (h : OnChain g a cs c) :
    Cached g { a with file := a.file.store c } cs :=
  ⟨h.cached.clusters, h.nonneg, h.cluster⟩

theorem OnChain.chain {c : Cursor} (h : OnChain g a cs c) (hne : c.cluster ≠ 0) :
    Chain g a.table (a.file.firstcluster :: cs) := by
  rcases h.cached.clusters with hchain | ⟨h0, rfl, -⟩
  · exact hchain
  · obtain ⟨hlt, hget⟩ := List.getElem?_eq_some_iff.1 h.cluster
    simp only [List.length_singleton] at hlt
    simp only [show c.clusternum.toNat = 0 by omega, List.getElem_cons_zero] at hget
    exact absurd (hget ▸ h0) hne

/-- What the call ends with, when the loop ends with a cursor on the chain. -/
theorem finish_cached {r : Looped} {E : Panic → Prop}
    (hr : (∀ i c, r = .done i c → ∃ cs, Cached g { a with file := a.file.store c } cs) ∧
      ∀ e, r = .failed e → ∃ cs, Cached g a cs) :
    Ends E (finish r) a fun _ a' => ∃ cs, Cached g a' cs := by
  cases r with
  | failed e => exact (ends_pure _).2 (hr.2 e rfl)
  | done i c =>
    unfold finish
    rw [ends_bind, ends_modify, ends_pure]
    exact hr.1 i c rfl

theorem walk_isSome_mono {m n : Nat} (hmn : m ≤ n) {c : Int} (h : (walk g t n c).isSome = true) :
    (walk g t m c).isSome = true := by
  induction m generalizing n c with
  | zero => rfl
  | succ m ih =>
    obtain ⟨n, rfl⟩ : ∃ n', n = n' + 1 := ⟨n - 1, by omega⟩
    rw [walk] at h ⊢
    by_cases h0 : g.getNextCluster t c = 0
    · rw [if_pos h0] at h
      cases h
    · rw [if_neg h0] at h ⊢
      exact ih (by omega) h

/-- A read within the chain comes to the next cluster of the file, where it leaves a cluster. -/
theorem advance_within (hw : g.Wf) {c : Cursor} {k : Nat} (h : OnChain g a cs c)
    (hne : c.cluster ≠ 0) (hin : c.Within g a.table a.file.firstcluster (k + 1))
    (hs : -1 < c.sector) {E : Panic → Prop} :
    Ends E (advance g false c) a fun r a' => a' = a ∧ ∃ c', r = .there c' ∧
      OnChain g a cs c' ∧ c'.cluster ≠ 0 ∧ c'.Within g a.table a.file.firstcluster k := by
  have hk := hw.secperclus_pos
  have hchain := h.chain hne
  have hwalk := hin.resolve_left (Nat.succ_ne_zero k)
  unfold Cursor.offset at hwalk
  unfold advance
  rw [ends_bind, ends_get, ends_ite]
  refine ⟨fun hcross => ?_, fun hstay => ?_⟩
  · rw [ends_ite]
    refine ⟨fun hf => (by cases hf), fun _ => ?_⟩
    rw [ends_pure]
    have hnum : (g.secperclus : Int) ≤ c.numsec := by omega
    rw [if_neg (by omega)] at hwalk
    -- a whole cluster less to go
    have hle : (k : Int) / g.secperclus + 1 ≤ (c.numsec + (k + 1 : Nat) - 1) / g.secperclus := by
      rw [← Int.add_mul_ediv_right _ _ (show (g.secperclus : Int) ≠ 0 by omega)]
      exact Int.ediv_le_ediv (by omega) (by push_cast; omega)
    have hpos : 0 ≤ (k : Int) / g.secperclus := Int.ediv_nonneg (by omega) (by omega)
    have hwalk' := walk_isSome_mono (m := ((k : Int) / g.secperclus).toNat + 1) (by omega) hwalk
    rw [walk] at hwalk'
    have hnext : g.getNextCluster a.table c.cluster ≠ 0 := by
      intro h0
      rw [if_pos h0] at hwalk'
      cases hwalk'
    rw [if_neg hnext] at hwalk'
    obtain ⟨hlt, hget⟩ := List.getElem?_eq_some_iff.1 h.cluster
    have hlt' : c.clusternum.toNat + 1 < (a.file.firstcluster :: cs).length := by
      by_contra hlast
      have := hchain.links.next_last (i := c.clusternum.toNat) (by omega)
      rw [hget] at this
      exact hnext this
    have hget' := hchain.links.next_getElem hlt'
    rw [hget] at hget'
    have hsec : g.cluster2sec (g.getNextCluster a.table c.cluster) ≠ 0 := by
      have hmem := hchain.has_of_mem (List.getElem_mem hlt')
      have hmem' := hchain.has_of_mem (List.getElem_mem hlt)
      rw [hget] at hmem'
      rw [← hget'] at hmem
      have hroot := hmem'.root_le_next hw rfl hmem
      have htwo := hw.two_le_root
      rw [Geometry.cluster2sec_eq hw hmem]
      omega
    refine ⟨rfl, _, rfl, ⟨h.cached, ?_, ?_⟩, hnext, .inr ?_⟩
    · have := h.nonneg
      dsimp only
      omega
    · dsimp only
      rw [show (c.clusternum + 1).toNat = c.clusternum.toNat + 1 by have := h.nonneg; omega,
        List.getElem?_eq_getElem hlt', hget']
    · unfold Cursor.offset
      dsimp only
      rw [if_neg (fun hz => hsec hz.2)]
      rw [show (1 : Int) + k - 1 = k by omega]
      exact hwalk'
  · rw [ends_ite]
    refine ⟨fun hsec => ?_, fun hsec => ?_⟩
    · rw [ends_pure]
      refine ⟨rfl, _, rfl, ⟨h.cached, h.nonneg, h.cluster⟩, hne, .inr ?_⟩
      rw [if_neg (fun hz => hsec hz.2)] at hwalk
      unfold Cursor.offset
      dsimp only
      rw [if_neg (by omega), show c.numsec + 1 + k - 1 = c.numsec + (k + 1 : Nat) - 1 by
        push_cast; ring]
      exact hwalk
    · have hskip : (if a.file.firstcluster < 0 then (g.rootdiroffset : Int) else 0) =
          g.skip a.file.firstcluster := by
        unfold Geometry.skip
        split
        · rfl
        · rfl
      rw [ends_pure]
      refine ⟨rfl, _, rfl, ⟨h.cached, h.nonneg, h.cluster⟩, hne, .inr ?_⟩
      rw [not_not] at hsec
      rw [if_pos ⟨by omega, hsec⟩] at hwalk
      have hfirst : g.cluster2sec a.file.firstcluster + g.skip a.file.firstcluster ≠ 0 := by
        have hroot := hchain.root_le_sector hw (s := g.base a.file.firstcluster +
          g.skip a.file.firstcluster) (by
            rw [Geometry.fileSectors_cons hw, drop_clusterSectors_cons (Geometry.skip_lt hw _)]
            exact List.mem_cons_self)
        have htwo := hw.two_le_root
        rw [Geometry.cluster2sec_eq hw hchain.has]
        omega
      unfold Cursor.offset
      dsimp only
      rw [hskip, if_neg (fun hz => hfirst hz.2), show (1 : Int) + g.skip a.file.firstcluster + k - 1 =
        g.skip a.file.firstcluster + (k + 1 : Nat) - 1 by push_cast; ring]
      exact hwalk

theorem read_cached (hw : g.Wf) (h : Cached g a cs) {n : Nat} (hok : Allowed g a (.read n)) :
    Ends (fun _ => True) (fatReadwrite g rc n false) a fun _ a' => ∃ cs', Cached g a' cs' := by
  have hon : OnChain g a cs a.file.cursor := ⟨h, h.nonneg, h.cluster⟩
  unfold fatReadwrite
  rw [ends_bind, ends_get, ends_ite]
  refine ⟨fun _ => (ends_pure _).2 ⟨cs, h⟩, fun heof => ?_⟩
  rw [ends_bind]
  rcases hok with hok | rfl | hok | ⟨hne, hin⟩
  · exact absurd ⟨hok, rfl⟩ heof
  · rw [readwriteLoop, ends_pure]
    refine finish_cached ⟨fun i c hr => ?_, fun e hr => ?_⟩
    · cases hr
      exact ⟨cs, hon.store⟩
    · cases hr
  · have hstop : readwriteLoop g rc false n 0 a.file.cursor = pure (.done 0 a.file.cursor) := by
      cases n with
      | zero => rfl
      | succ n => exact if_neg (by change ¬ -1 < a.file.lastsector; omega)
    rw [hstop, ends_pure]
    refine finish_cached ⟨fun i c hr => ?_, fun e hr => ?_⟩
    · cases hr
      exact ⟨cs, hon.store⟩
    · cases hr
  · refine (readwriteLoop_ends (P := fun k x c => x.table = a.table ∧ x.file = a.file ∧
        OnChain g x cs c ∧ c.cluster ≠ 0 ∧ c.Within g x.table x.file.firstcluster k)
      (R := fun x c => ∃ cs', Cached g { x with file := x.file.store c } cs')
      (F := fun x => ∃ cs', Cached g x cs') (fun _ => trivial) ?_ ?_ ?_ ?_
      ⟨rfl, rfl, hon, hne, hin⟩).mono fun r x hr => finish_cached hr
    · rintro k x c x' c' ⟨ht, hf, hx, hc, hwithin⟩ hsame hplace
      refine ⟨hsame.1.trans ht, hsame.2.trans hf, hx.same hsame hplace, ?_, ?_⟩
      · rw [hplace.cluster]
        exact hc
      · unfold Cursor.Within Cursor.offset
        rw [hsame.1, hsame.2, hplace.cluster, hplace.sector, hplace.numsec]
        exact hwithin
    · rintro k x c ⟨ht, hf, hx, hc, hwithin⟩ hs
      refine (advance_within hw hx hc hwithin hs).mono ?_
      rintro r x' ⟨rfl, c', rfl, hon', hne', hin'⟩
      refine ⟨fun c'' hc'' => ?_, fun c'' hc'' => ?_⟩
      · cases hc''
        exact ⟨ht, hf, hon', hne', hin'⟩
      · cases hc''
    · rintro k x c ⟨-, -, hx, -, -⟩
      exact ⟨cs, hx.store⟩
    · rintro k x c x' ⟨-, -, hx, -, -⟩ hsame
      exact ⟨cs, (hx.same hsame ⟨rfl, rfl, rfl, rfl, rfl⟩).cached⟩

theorem findFree_ends (start : Nat) {E : Panic → Prop} :
    Ends E (findFree g start) a fun c a' =>
      c = 0 ∧ a' = a ∧ firstFree g.toBpb a.table (fun _ => true) start = none ∨
      firstFree g.toBpb a.table (fun _ => true) start = some c ∧ Free g.toBpb a.table c ∧
        a' = { a with table := { a.table with nextfree := c } } := by
  unfold findFree
  rw [ends_bind, ends_get, ends_bind, ends_set, ends_pure]
  rcases findFreeCluster_cases g.toBpb a.table (fun _ => true) start with
    ⟨hnone, heq⟩ | ⟨c, hsome, hfree, heq⟩
  · rw [heq]
    exact .inl ⟨rfl, rfl, hnone⟩
  · rw [heq]
    exact .inr ⟨hsome, hfree, rfl⟩

theorem Free.data {c : Nat} (h : Free g.toBpb t c) : 2 ≤ c ∧ c ≤ g.dataclusters + 1 := h.2

theorem unsigned_natCast {c : Nat} (h : c < 2 ^ 32) : unsigned c = c := by
  unfold unsigned
  omega

/-- A chain with one more cluster behind its last one. -/
theorem OnChain.extend (hb : g.Fits) {c : Cursor} (h : OnChain g a cs c) (hpos : 0 < c.cluster)
    (hnext : g.getNextCluster a.table c.cluster = 0) {new : Nat} (hfree : Free g.toBpb a.table new)
    {t1 t2 : Table} (h1 : t1.entry = Function.update a.table.entry (unsigned c.cluster)
      (new % g.entries)) (hne : unsigned c.cluster ≠ new)
    (h2 : t2.entry = Function.update t1.entry new (0x0ffffff8 % g.entries)) :
    OnChain g { a with table := t2 } (cs ++ [(new : Int)]) c ∧
      (a.file.firstcluster :: (cs ++ [(new : Int)]))[c.clusternum.toNat + 1]? = some (new : Int) := by
  have hchain := h.chain hpos.ne'
  obtain ⟨hlt, hget⟩ := List.getElem?_eq_some_iff.1 h.cluster
  have hdata := hfree.data
  have hfits := hb
  have hmark := Bpb.eofMark_lt g.toBpb
  have hentries : g.entries ≤ 2 ^ 32 := by
    unfold Bpb.entries
    split
    · omega
    · omega
  unfold Bpb.Fits at hfits
  have hlast : c.clusternum.toNat + 1 = (a.file.firstcluster :: cs).length := by
    by_contra hno
    have hlt' : c.clusternum.toNat + 1 < (a.file.firstcluster :: cs).length := by omega
    have := hchain.links.next_getElem hlt'
    rw [hget, hnext] at this
    exact hchain.links.ne_zero hlt' this.symm
  have hnp : ¬ Pseudo g c.cluster := fun hp => by
    have := hp.2
    omega
  have hnpnew : ¬ Pseudo g (new : Int) := fun hp => by
    have := hp.2
    omega
  have hend : g.getNextCluster t2 (new : Int) = 0 := by
    rw [next_entry hnpnew, unsigned_natCast (by omega)]
    unfold Fat.getNextCluster
    rw [h2, Function.update_self, Bpb.eofMark_mod, if_pos le_rfl]
    rfl
  have hlink : g.getNextCluster t2 c.cluster = (new : Int) := by
    rw [next_entry hnp]
    unfold Fat.getNextCluster
    rw [h2, Function.update_of_ne hne, h1, Function.update_self,
      Nat.mod_eq_of_lt (by omega), if_neg (by omega)]
  have hnew : Chain g t2 ((a.file.firstcluster :: cs)[c.clusternum.toNat] :: [(new : Int)]) := by
    rw [hget]
    have hhas := hchain.has_of_mem (List.getElem_mem hlt)
    rw [hget] at hhas
    exact .cons hhas hlink (.last (.inl (by omega)) hend)
  have hspl := fun f hf hn hn0 hl => Cached.splice (t := t2) (f := f) hchain hf hlt hn hn0 hl
    (fun j hj hji => next_congr fun hpj => by
      -- neither the last cluster nor a free one
      have hnextj := hchain.links.next_getElem (i := j) (by omega)
      rw [h2, Function.update_of_ne, h1, Function.update_of_ne]
      · intro heq
        have := hchain.links.entry_inj hj hlt hpj (by rw [hget]; exact hnp) (by rw [hget]; exact heq)
        omega
      · intro heq
        rw [next_of_zero hpj (by rw [heq]; exact hfree.1)] at hnextj
        exact hchain.links.ne_zero (i := j) (by omega) hnextj.symm) hnew
  have htake : cs.take c.clusternum.toNat = cs := by
    refine List.take_of_length_le ?_
    rw [List.length_cons] at hlast
    omega
  rw [htake] at hspl
  have hcached := hspl a.file rfl (by
    obtain ⟨hlt', -⟩ := List.getElem?_eq_some_iff.1 h.cached.cluster
    omega) h.cached.nonneg h.cached.cluster
  have happ : ∀ i (hi : i < (a.file.firstcluster :: cs).length),
      (a.file.firstcluster :: (cs ++ [(new : Int)]))[i]? = (a.file.firstcluster :: cs)[i]? := by
    intro i hi
    rw [← List.cons_append, List.getElem?_append_left hi]
  refine ⟨⟨hcached, h.nonneg, ?_⟩, ?_⟩
  · rw [← h.cluster]
    exact happ _ hlt
  · rw [← List.cons_append, hlast, List.getElem?_append_right le_rfl, Nat.sub_self]
    rfl

/-- The cluster to write to: the next one of the chain, or a new one behind its end. -/
theorem nextWriteCluster_ends (hb : g.Fits) {c : Cursor} (h : OnChain g a cs c)
    (hne : c.cluster ≠ 0) :
    Ends (fun _ => True) (nextWriteCluster g c.cluster) a fun r a' => ∃ cs', OnChain g a' cs' c ∧
      ∀ cl s, r = some (cl, s) → cl ≠ 0 ∧
        (a'.file.firstcluster :: cs')[c.clusternum.toNat + 1]? = some cl := by
  have hchain := h.chain hne
  obtain ⟨hlt, hget⟩ := List.getElem?_eq_some_iff.1 h.cluster
  unfold nextWriteCluster
  rw [ends_bind, ends_get, if_pos hne, ends_ite]
  refine ⟨fun hnext => ?_, fun hnext => ?_⟩
  · rw [ends_pure]
    refine ⟨cs, h, fun cl s hr => ?_⟩
    have hcl : cl = g.getNextCluster a.table c.cluster := by
      unfold foundCluster at hr
      split at hr
      · cases hr
      · cases hr
        rfl
    subst hcl
    refine ⟨hnext, ?_⟩
    have hlt' : c.clusternum.toNat + 1 < (a.file.firstcluster :: cs).length := by
      by_contra hlast
      have := hchain.links.next_last (i := c.clusternum.toNat) (by omega)
      rw [hget] at this
      exact hnext this
    rw [List.getElem?_eq_getElem hlt', ← hget, hchain.links.next_getElem hlt']
  · rw [ends_ite]
    refine ⟨fun _ => ?_, fun hnneg => ?_⟩
    · rw [ends_pure]
      refine ⟨cs, h, fun cl s hr => ?_⟩
      cases hr
    · rw [not_not] at hnext
      rw [ends_bind]
      refine (findFree_ends _).mono ?_
      rintro new a' (⟨rfl, rfl, -⟩ | ⟨-, hfree, rfl⟩)
      · rw [if_pos rfl, ends_pure]
        refine ⟨cs, h, fun cl s hr => ?_⟩
        cases hr
      · have hdata := hfree.data
        rw [if_neg (by omega), if_pos hne, ends_bind]
        refine (update_ends fun _ => trivial).mono ?_
        rintro _ a1 ⟨t1, rfl, h1, hstored1⟩
        rw [ends_bind]
        refine (update_ends fun _ => trivial).mono ?_
        rintro _ a2 ⟨t2, rfl, h2, -⟩
        have hlt' : new < g.entries := by
          have hmark := Bpb.eofMark_lt g.toBpb
          unfold Bpb.Fits at hb
          omega
        have hne' : unsigned c.cluster ≠ new := by
          rcases updateFatEntry_ne hstored1 with hn | hn
          · rwa [Nat.mod_eq_of_lt hlt'] at hn
          · omega
        obtain ⟨hon, hnew⟩ := h.extend hb (by omega) hnext hfree h1 hne' h2
        rw [ends_pure]
        refine ⟨cs ++ [(new : Int)], hon, fun cl s hr => ?_⟩
        unfold foundCluster at hr
        split at hr
        · cases hr
        · cases hr
          exact ⟨by omega, hnew⟩

/-- A write that begins with a cluster comes to the next one, or to none. -/
theorem advance_write (hb : g.Fits) {c : Cursor} (h : OnChain g a cs c) (hne : c.cluster ≠ 0) :
    Ends (fun _ => True) (advance g true c) a fun r a' => ∃ cs',
      (∀ c', r = .there c' → OnChain g a' cs' c' ∧ c'.cluster ≠ 0) ∧
      ∀ c', r = .full c' → OnChain g a' cs' c' := by
  unfold advance
  rw [ends_bind, ends_get, ends_ite]
  refine ⟨fun _ => ?_, fun _ => ?_⟩
  · rw [ends_ite]
    refine ⟨fun _ => ?_, fun hf => absurd rfl hf⟩
    rw [ends_bind]
    refine (nextWriteCluster_ends hb h hne).mono ?_
    rintro r a' ⟨cs', hon, hr⟩
    cases r with
    | none =>
      refine (ends_pure _).2 ⟨cs', fun c' hc => ?_, fun c' hc => ?_⟩
      · cases hc
      · cases hc
        exact ⟨hon.cached, hon.nonneg, hon.cluster⟩
    | some p =>
      obtain ⟨hp, hget⟩ := hr p.1 p.2 rfl
      refine (ends_pure _).2 ⟨cs', fun c' hc => ?_, fun c' hc => ?_⟩
      · cases hc
        have := hon.nonneg
        refine ⟨⟨hon.cached, by dsimp only; omega, ?_⟩, hp⟩
        dsimp only
        rw [show (c.clusternum + 1).toNat = c.clusternum.toNat + 1 by omega]
        exact hget
      · cases hc
  · rw [ends_ite]
    refine ⟨fun _ => ?_, fun _ => ?_⟩
    · refine (ends_pure _).2 ⟨cs, fun c' hc => ?_, fun c' hc => ?_⟩
      · cases hc
        exact ⟨⟨h.cached, h.nonneg, h.cluster⟩, hne⟩
      · cases hc
    · refine (ends_pure _).2 ⟨cs, fun c' hc => ?_, fun c' hc => ?_⟩
      · cases hc
        exact ⟨⟨h.cached, h.nonneg, h.cluster⟩, hne⟩
      · cases hc

/-- A write to an empty file on a full disk. -/
theorem advance_full {c : Cursor} (h0 : c.cluster = 0)
    (hfull : firstFree g.toBpb a.table (fun _ => true) a.table.nextfree = none)
    {E : Panic → Prop} :
    Ends E (advance g true c) a fun r a' => a' = a ∧
      r = .full { c with numsec := c.numsec + 1, eof := true } := by
  unfold advance nextWriteCluster
  rw [ends_bind, ends_get, if_pos (.inr h0), if_pos rfl, ends_bind, ends_bind, ends_get, h0,
    if_neg (by simp), if_neg (by simp), if_neg (by simp), ends_bind]
  refine (findFree_ends _).mono ?_
  rintro new a' (⟨rfl, rfl, -⟩ | ⟨hsome, -⟩)
  · rw [if_pos rfl, ends_pure, ends_pure]
    exact ⟨rfl, rfl⟩
  · rw [hfull] at hsome
    cases hsome

theorem write_cached (hb : g.Fits) (h : Cached g a cs) {n : Nat} (hok : Allowed g a (.write n)) :
    Ends (fun _ => True) (fatReadwrite g rc n true) a fun _ a' => ∃ cs', Cached g a' cs' := by
  have hon : OnChain g a cs a.file.cursor := ⟨h, h.nonneg, h.cluster⟩
  unfold fatReadwrite
  rw [ends_bind, ends_get, if_neg (by simp), ends_bind]
  by_cases hstop : n = 0 ∨ a.file.lastsector < 0
  · have hloop : readwriteLoop g rc true n 0 a.file.cursor = pure (.done 0 a.file.cursor) := by
      cases n with
      | zero => rfl
      | succ n =>
        refine if_neg ?_
        change ¬ -1 < a.file.lastsector
        omega
    rw [hloop, ends_pure]
    refine finish_cached ⟨fun i c hr => ?_, fun e hr => ?_⟩
    · cases hr
      exact ⟨cs, hon.store⟩
    · cases hr
  by_cases hne : a.file.lastcluster ≠ 0
  · refine (readwriteLoop_ends (P := fun _ x c => ∃ cs', OnChain g x cs' c ∧ c.cluster ≠ 0)
      (R := fun x c => ∃ cs', Cached g { x with file := x.file.store c } cs')
      (F := fun x => ∃ cs', Cached g x cs') (fun _ => trivial) ?_ ?_ ?_ ?_
      ⟨cs, hon, hne⟩).mono fun r x hr => finish_cached hr
    · rintro k x c x' c' ⟨cs', hx, hc⟩ hsame hplace
      refine ⟨cs', hx.same hsame hplace, ?_⟩
      rw [hplace.cluster]
      exact hc
    · rintro k x c ⟨cs', hx, hc⟩ -
      refine (advance_write hb hx hc).mono ?_
      rintro r x' ⟨cs'', hthere, hfull⟩
      exact ⟨fun c' hc' => ⟨cs'', hthere c' hc'⟩, fun c' hc' => ⟨cs'', (hfull c' hc').store⟩⟩
    · rintro k x c ⟨cs', hx, -⟩
      exact ⟨cs', hx.store⟩
    · rintro k x c x' ⟨cs', hx, -⟩ hsame
      exact ⟨cs', (hx.same hsame ⟨rfl, rfl, rfl, rfl, rfl⟩).cached⟩
  · have hfull := (((hok.resolve_left fun h0 => hstop (.inl h0)).resolve_left
      fun h0 => hstop (.inr h0)).resolve_left hne)
    obtain ⟨m, rfl⟩ : ∃ m, n = m + 1 := ⟨n - 1, by omega⟩
    rw [readwriteLoop, if_pos (by change -1 < a.file.lastsector; omega), ends_bind]
    refine (advance_full (not_not.1 hne) hfull).mono ?_
    rintro r x ⟨rfl, rfl⟩
    refine (ends_pure _).2 (finish_cached ⟨fun i c hr => ?_, fun e hr => ?_⟩)
    · cases hr
      exact ⟨cs, h.clusters, h.nonneg, h.cluster⟩
    · cases hr

/-! ## Runs -/

theorem call_cached (hw : g.Wf) (hb : g.Fits) {op : Op} {r : Int} (h : Cached g a cs)
    (hok : Allowed g a op) (hcall : call g rc a op = some (a', r)) : ∃ cs', Cached g a' cs' := by
  have hends : Ends (fun _ => True) (op.prog g rc) a fun _ a' => ∃ cs', Cached g a' cs' := by
    cases op with
    | read n => exact read_cached hw h hok
    | write n => exact write_cached hb h hok
    | seek n => exact (fatSeek_cached h hok).mono fun _ x hx => ⟨cs, hx⟩
    | truncate => exact fatTruncate_cached h
  unfold call at hcall
  cases hrun : (op.prog g rc).run a with
  | error e =>
    rw [hrun] at hcall
    cases hcall
  | ok p =>
    rw [hrun] at hcall
    cases hcall
    exact hends.ok hrun

/-- In a run whose calls are all allowed, from the opening of a file on, every seek ends where a
walk from the first cluster ends. -/
theorem sameSeek_of_allowed (hw : g.Wf) (hb : g.Fits) {start : Int}
    {es : List (Access × Op × Int)} (hopen : a.file = fatOpen start)
    (hfile : Clusters g a.table start cs)
    (h : Lts.Runs (call g rc) (Allowed g) a es a') : SameSeek g a' := by
  have h0 : ∃ cs', Cached g a cs' := by
    refine ⟨cs, ?_, ?_, ?_⟩
    · rw [hopen]
      exact hfile
    · rw [hopen]
      exact le_rfl
    · rw [hopen]
      rfl
  obtain ⟨cs', hcached⟩ := h.invariant (I := fun x => ∃ cs', Cached g x cs') h0
    fun x op y r hx hok hcall => by
      obtain ⟨cs', hx⟩ := hx
      exact call_cached hw hb hx hok hcall
  exact hcached.sameSeek

/-! ## An empty file -/

/-- A FAT32 volume of clusters of one sector, with no file. -/
def freshGeometry : Geometry where
  isFat16 := false
  sectorSize := 512
  fatsize := 1
  dataclusters := 4
  secperclus := 1
  firstdatasector := 4
  rootdirsector := 4
  rootdiroffset := 0
  totalsectors := 8

def freshFile : Access where
  table := ⟨fun c => if c < 2 then 0x0fffffff else 0, 4, 2⟩
  file := fatOpen 0
  transfers := []

theorem freshGeometry_wf : freshGeometry.Wf := by constructor <;> decide

theorem freshFile_clusters : Clusters freshGeometry freshFile.table 0 [] :=
  .inr ⟨rfl, rfl, by decide⟩

/-- After one sector has been written to an empty file, a seek behind the second cluster ends at
the first one, which a walk does not. -/
theorem freshFile_seeks : freshFile.file = fatOpen 0 ∧ Clusters freshGeometry freshFile.table 0 [] ∧
    ∃ es a, es.map (fun e => e.2.1) = [Op.write 1] ∧
      Lts.Runs (call freshGeometry fun _ => 0) (fun _ _ => True) freshFile es a ∧
      ¬ SameSeek freshGeometry a := by
  refine ⟨rfl, freshFile_clusters, ?_⟩
  obtain ⟨a, hexec, hseek⟩ : ∃ a, Lts.exec (call freshGeometry fun _ => 0) freshFile [Op.write 1] =
      some a ∧ (seekWith freshGeometry cachedStart a.table a.file 2).1 ≠
        (seekWith freshGeometry plainStart a.table a.file 2).1 := by
    refine ⟨_, rfl, ?_⟩
    decide
  obtain ⟨es, hes, hrun⟩ := Lts.exec_runs hexec
  refine ⟨es, a, hes, hrun, fun hsame => hseek ?_⟩
  rw [hsame 2]

/-- The same volume with a file of the clusters 2 and 3. -/
def twoClusters : Access where
  table := ⟨fun c => if c = 2 then 3 else if c < 4 then 0x0fffffff else 0, 2, 4⟩
  file := fatOpen 2
  transfers := []

theorem twoClusters_clusters : Clusters freshGeometry twoClusters.table 2 [3] :=
  .inl (.cons (.inl (by decide)) (by decide) (.last (.inl (by decide)) (by decide +kernel)))

/-- After both sectors have been read. -/
theorem sameSeek_of_allowed_read : ∃ (es : List (Access × Op × Int)) (a : Access),
    es.map (fun e => e.2.1) = [Op.read 2] ∧ a.file.clusternum = 1 ∧ SameSeek freshGeometry a := by
  have hr : Lts.Runs (call freshGeometry fun _ => 0) (Allowed freshGeometry) twoClusters
      [(twoClusters, Op.read 2, 2)] _ :=
    Lts.Runs.single (.inr (.inr (.inr ⟨by decide, .inr (by decide)⟩))) rfl
  exact ⟨[(twoClusters, Op.read 2, 2)], _, rfl, by decide,
    sameSeek_of_allowed freshGeometry_wf (by unfold Bpb.Fits; decide) rfl twoClusters_clusters hr⟩

end Fat
end Freemyipod
