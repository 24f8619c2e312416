import Mathlib.Data.List.Nodup
import Mathlib.Tactic.SplitIfs
import Freemyipod.Lib.Runs

/-!
# Emcorefs.Attributes

The directory entries that the host remembers (`emcore/tools/emcorefs/cache.c`), and the functions of
`emcore/tools/emcorefs/fuse.c` that read and drop them, on a device that shows the new size of a file once
it is closed.

* `cacheGet`, `cacheInsert`, `cacheRemove`, `emcorefsGetattr`: the code.
* `step`: a call, with what the device does.
* `cacheRemove_eq`: what `cache_remove` does if no path is cached twice.
* `Device.Wf`: the directories of the device are a tree, and stay one.
-/

namespace Freemyipod
namespace Emcorefs
namespace Attributes

/-- The components of a path; `[]` is `/`. -/
abbrev Path := List String

/-- Kind and size. -/
inductive Entry
  | dir
  | file (size : Nat)
  deriving DecidableEq

abbrev Entries := List (Path × Entry)

structure Handle where
  path : Path
  size : Nat

/-- The directory entries, in their order, and the open files. -/
structure Device where
  entries : Entries
  handles : Nat → Option Handle

structure State where
  device : Device
  /-- `emcore_dir_entry_cache` -/
  cache : Entries

/-! ## The cache -/

/-- `cache_get`; also what the directories have for a path. -/
@[grind =] def cacheGet (l : Entries) (name : Path) : Option Entry :=
  match l with
  | [] => none
  | x :: l => if x.1 = name then some x.2 else cacheGet l name

/-- `cache_insert` of an entry that is no `.` or `..`, with its path put together. -/
def cacheInsert (cache : Entries) (x : Path × Entry) : Entries :=
  if (cacheGet cache x.1).isSome then cache else cache ++ [x]

/-- `cache_remove`. What follows an entry that is removed moves to its place, and the loop goes on behind
it. -/
def cacheRemove (name : Path) : Entries → Entries
  | [] => []
  | [x] => if x.1 = name then [] else [x]
  | x :: y :: l => if x.1 = name then y :: cacheRemove name l else x :: cacheRemove name (y :: l)

/-! ## The device -/

namespace Device

variable (d : Device)

def lookup (path : Path) : Option Entry := if path = [] then some .dir else cacheGet d.entries path

/-- What `emcore_dir_read` returns one after the other. -/
def listing (path : Path) : Entries :=
  d.entries.filter fun x => x.1 ≠ [] ∧ x.1.dropLast = path

def add (path : Path) (e : Entry) : Device := { d with entries := d.entries ++ [(path, e)] }

def remove (path : Path) : Device := { d with entries := d.entries.filter fun x => x.1 ≠ path }

/-- The entry of a file shows another size. -/
def resize (path : Path) (size : Nat) : Device :=
  { d with entries := d.entries.map fun x =>
      if x.1 = path ∧ x.2 ≠ .dir then (x.1, .file size) else x }

def setHandle (fh : Nat) (h : Option Handle) : Device :=
  { d with handles := Function.update d.handles fh h }

def setSize (fh : Nat) (size : Nat) : Device :=
  d.setHandle fh ((d.handles fh).map fun h => { h with size := size })

/-- `emcore_file_open` -/
def fileOpen (path : Path) (creat trunc : Bool) (fh : Nat) : Option Device :=
  match d.lookup path with
  | some (.file size) => some (d.setHandle fh (some ⟨path, if trunc then 0 else size⟩))
  | some .dir => none
  | none =>
    if creat ∧ d.lookup path.dropLast = some .dir then
      some ((d.add path (.file 0)).setHandle fh (some ⟨path, 0⟩))
    else none

/-- `emcore_file_close` -/
def fileClose (fh : Nat) : Device :=
  match d.handles fh with
  | some h => (d.resize h.path h.size).setHandle fh none
  | none => d

/-- `emcore_dir_create` -/
def dirCreate (path : Path) : Option Device :=
  if d.lookup path = none ∧ d.lookup path.dropLast = some .dir then some (d.add path .dir) else none

/-- `emcore_dir_remove` -/
def dirRemove (path : Path) : Option Device :=
  if path ≠ [] ∧ d.lookup path = some .dir ∧ d.listing path = [] then some (d.remove path) else none

/-- `emcore_file_unlink` -/
def fileUnlink (path : Path) : Option Device :=
  match d.lookup path with
  | some (.file _) => some (d.remove path)
  | _ => none

end Device

/-! ## The calls -/

/-- The loop of `emcorefs_getattr`. -/
def scan (path : Path) : Entries → Entries → Entries × Option Entry
  | [], cache => (cache, none)
  | x :: l, cache =>
    if x.1 = path then (cacheInsert cache x, some x.2) else scan path l (cacheInsert cache x)

/-- The entries that are read if reading number `fault` fails. -/
def reads (l : Entries) (fault : Option Nat) : Entries :=
  match fault with
  | some n => l.take n
  | none => l

/-- `emcorefs_getattr`: the cache, and what is reported; `none` is an error. -/
def emcorefsGetattr (s : State) (path : Path) (fault : Option Nat) : Entries × Option Entry :=
  match cacheGet s.cache path with
  | some e => (s.cache, some e)
  | none =>
    if s.device.lookup path.dropLast = some .dir then
      scan path (reads (s.device.listing path.dropLast) fault) s.cache
    else (s.cache, none)

/-- `emcorefs_readdir` -/
def emcorefsReaddir (s : State) (path : Path) (fault : Option Nat) : Entries :=
  if s.device.lookup path = some .dir then
    (reads (s.device.listing path) fault).foldl cacheInsert s.cache
  else s.cache

/-- The calls. `ok` says that the command of the device does not fail for another reason than those of the
device above. -/
inductive Call
  | getattr (path : Path) (fault : Option Nat)
  | readdir (path : Path) (fault : Option Nat)
  /-- `emcorefs_open` and `emcorefs_create`, with the handle that the device gives. -/
  | open (path : Path) (creat trunc : Bool) (fh : Nat) (ok : Bool)
  /-- `emcorefs_write`, with the size of the file after `emcore_file_write`, and what becomes of
  `emcore_malloc` and `emcore_free`. -/
  | write (fh : Nat) (size : Nat) (malloc free : Bool)
  | ftruncate (fh : Nat) (size : Nat) (ok : Bool)
  | release (fh : Nat) (ok : Bool)
  | mkdir (path : Path) (ok : Bool)
  | rmdir (path : Path) (ok : Bool)
  | unlink (path : Path) (ok : Bool)
  | rename (path newPath : Path)

/-- A command, and what follows it in the code if it succeeds. -/
def State.perform (s : State) (ok : Bool) (d : Option Device) (cache : Entries) : State :=
  match d with
  | some d => if ok then ⟨d, cache⟩ else s
  | none => s

/-- A call gets the path that its handle was opened with. -/
@[grind =] def step (s : State) : Call → Option (State × Unit)
  | .getattr path fault => some (⟨s.device, (emcorefsGetattr s path fault).1⟩, ())
  | .readdir path fault => some (⟨s.device, emcorefsReaddir s path fault⟩, ())
  | .open path creat trunc fh ok =>
    if s.device.handles fh = none then
      some (s.perform ok (s.device.fileOpen path creat trunc fh) s.cache, ())
    else none
  | .write fh size malloc free =>
    match s.device.handles fh with
    | some h =>
      if malloc = false then some (s, ())
      else
        some (⟨s.device.setSize fh size,
          if free then cacheRemove h.path s.cache else s.cache⟩, ())
    | none => none
  | .ftruncate fh size ok =>
    match s.device.handles fh with
    | some h => some (s.perform ok (some (s.device.setSize fh size)) (cacheRemove h.path s.cache), ())
    | none => none
  | .release fh ok =>
    match s.device.handles fh with
    | some _ => some (s.perform ok (some (s.device.fileClose fh)) s.cache, ())
    | none => none
  | .mkdir path ok => some (s.perform ok (s.device.dirCreate path) s.cache, ())
  | .rmdir path ok =>
    some (s.perform ok (s.device.dirRemove path) (cacheRemove path s.cache), ())
  | .unlink path ok =>
    some (s.perform ok (s.device.fileUnlink path) (cacheRemove path s.cache), ())
  -- `emcore_file_rename` returns `EMCORE_ERROR_NOT_IMPLEMENTED`
  | .rename .. => some (s, ())

/-! ## Entries -/

def keys (l : Entries) : List Path := l.map Prod.fst

variable {l cache : Entries} {path q : Path} {e : Entry} {s t : State} {d : Device}

theorem cacheGet_append {x : Path × Entry} :
    cacheGet (l ++ [x]) path = (cacheGet l path).or (if x.1 = path then some x.2 else none) := by
  induction l with
  | nil => simp [cacheGet]
  | cons y l ih => by_cases h : y.1 = path <;> simp [cacheGet, h, ih]

theorem cacheGet_filter :
    cacheGet (l.filter fun x => x.1 ≠ q) path = if path = q then none else cacheGet l path := by
  induction l with
  | nil => simp [cacheGet]
  | cons y l ih =>
    by_cases hy : y.1 = q
    · rw [List.filter_cons_of_neg (by simpa using hy), ih]
      by_cases h : path = q
      · simp [h]
      · have hne : q ≠ path := fun hq => h hq.symm
        simp [cacheGet, hy, h, hne]
    · rw [List.filter_cons_of_pos (by simpa using hy), cacheGet, cacheGet, ih]
      by_cases h : y.1 = path
      · have hne : path ≠ q := fun hq => hy (h.trans hq)
        simp [h, hne]
      · simp [h]

theorem cacheGet_resize {size : Nat} :
    cacheGet (l.map fun x => if x.1 = q ∧ x.2 ≠ .dir then (x.1, .file size) else x) path =
      (cacheGet l path).map fun e => if path = q ∧ e ≠ .dir then .file size else e := by
  induction l with
  | nil => rfl
  | cons y l ih =>
    by_cases h : y.1 = path
    · subst h
      by_cases hy : y.1 = q ∧ y.2 ≠ .dir <;> simp [cacheGet, hy]
    · by_cases hy : y.1 = q ∧ y.2 ≠ .dir
      · have hne : q ≠ path := fun hq => h (hy.1.trans hq)
        simp [cacheGet, hy, hne, ih]
      · simp [cacheGet, hy, h, ih]

theorem mem_of_cacheGet (h : cacheGet l path = some e) : (path, e) ∈ l := by
  induction l with
  | nil => cases h
  | cons y l ih =>
    rw [cacheGet] at h
    split_ifs at h with hy
    · cases h
      subst hy
      exact List.mem_cons_self
    · exact List.mem_cons_of_mem _ (ih h)

theorem cacheGet_eq_none : cacheGet l path = none ↔ path ∉ keys l := by
  induction l with
  | nil => simp [cacheGet, keys]
  | cons y l ih =>
    by_cases h : y.1 = path
    · simp [cacheGet, keys, h]
    · have hne : path ≠ y.1 := fun hq => h hq.symm
      simpa [cacheGet, keys, h, hne] using ih

theorem cacheGet_of_mem (hl : (keys l).Nodup) (h : (path, e) ∈ l) : cacheGet l path = some e := by
  induction l with
  | nil => cases h
  | cons y l ih =>
    obtain ⟨hy, hl⟩ := List.nodup_cons.1 hl
    rcases List.mem_cons.1 h with rfl | h
    · simp [cacheGet]
    · have hne : y.1 ≠ path := by
        rintro rfl
        exact hy (List.mem_map.2 ⟨_, h, rfl⟩)
      rw [cacheGet, if_neg hne]
      exact ih hl h

/-- As no path is cached twice, the loop does not go past an entry that it has to remove. -/
theorem cacheRemove_eq (hl : (keys l).Nodup) : cacheRemove q l = l.filter fun x => x.1 ≠ q := by
  induction l using cacheRemove.induct q with
  | case1 => rfl
  | case2 x h => simp [cacheRemove, h]
  | case3 x h => simp [cacheRemove, h]
  | case4 x y l h ih =>
    obtain ⟨hx, hyl⟩ := List.nodup_cons.1 hl
    have hy : y.1 ≠ q := by
      rintro rfl
      exact hx (List.mem_map.2 ⟨y, List.mem_cons_self, h.symm⟩)
    rw [cacheRemove, if_pos h, ih (List.nodup_cons.1 hyl).2]
    simp [h, hy]
  | case5 x y l h ih =>
    rw [cacheRemove, if_neg h, ih (List.nodup_cons.1 hl).2, List.filter_cons_of_pos (a := x) (by simpa using h)]

theorem nodup_filter {p : Path × Entry → Bool} (hl : (keys l).Nodup) : (keys (l.filter p)).Nodup :=
  hl.sublist (List.filter_sublist.map _)

theorem nodup_append (hl : (keys l).Nodup) (h : cacheGet l path = none) :
    (keys (l ++ [(path, e)])).Nodup := by
  rw [keys, List.map_append]
  refine List.nodup_append.2 ⟨hl, by simp, ?_⟩
  intro a ha b hb
  obtain rfl : b = path := by simpa using hb
  rintro rfl
  exact cacheGet_eq_none.1 h ha

theorem nodup_resize {size : Nat} (hl : (keys l).Nodup) :
    (keys (l.map fun x => if x.1 = q ∧ x.2 ≠ .dir then (x.1, .file size) else x)).Nodup := by
  have hkeys : keys (l.map fun x => if x.1 = q ∧ x.2 ≠ .dir then (x.1, .file size) else x) =
      keys l := by
    rw [keys, List.map_map]
    refine List.map_congr_left fun x _ => ?_
    by_cases hx : x.1 = q ∧ x.2 ≠ .dir <;> simp [hx]
  rw [hkeys]
  exact hl

/-! ## The directories -/

/-- The directories are a tree, and each path stands once in them. -/
structure Device.Wf (d : Device) : Prop where
  nodup : (keys d.entries).Nodup
  parent : ∀ p e, cacheGet d.entries p = some e → p ≠ [] ∧ d.lookup p.dropLast = some .dir
  handle : ∀ fh h, d.handles fh = some h → h.path ≠ []

theorem Device.lookup_nil : d.lookup [] = some .dir := if_pos rfl

theorem Device.lookup_of_ne (h : path ≠ []) : d.lookup path = cacheGet d.entries path := if_neg h

theorem Device.Wf.parent_dir (h : d.Wf) (hp : path ≠ []) (he : d.lookup path = some e) :
    d.lookup path.dropLast = some .dir := by
  rw [Device.lookup_of_ne hp] at he
  exact (h.parent path e he).2

theorem Device.Wf.mem_listing (h : d.Wf) {x : Path × Entry} (hx : x ∈ d.listing path) :
    x.1 ≠ [] ∧ d.lookup x.1 = some x.2 := by
  obtain ⟨hmem, hp⟩ := List.mem_filter.1 hx
  have hne : x.1 ≠ [] := (of_decide_eq_true hp).1
  rw [Device.lookup_of_ne hne]
  exact ⟨hne, cacheGet_of_mem h.nodup hmem⟩

theorem Device.listing_of_lookup (hp : path ≠ []) (he : d.lookup path = some e) :
    (path, e) ∈ d.listing path.dropLast := by
  rw [Device.lookup_of_ne hp] at he
  exact List.mem_filter.2 ⟨mem_of_cacheGet he, by simp [hp]⟩

theorem Device.lookup_add :
    (d.add path e).lookup q = (d.lookup q).or (if path = q then some e else none) := by
  by_cases hq : q = []
  · subst hq
    simp [Device.lookup]
  · rw [Device.lookup_of_ne hq, Device.lookup_of_ne hq, Device.add, cacheGet_append]

theorem Device.lookup_remove (hq : q ≠ []) :
    (d.remove path).lookup q = if q = path then none else d.lookup q := by
  rw [Device.lookup_of_ne hq, Device.lookup_of_ne hq, Device.remove, cacheGet_filter]

theorem Device.lookup_resize {size : Nat} :
    (d.resize path size).lookup q =
      (d.lookup q).map fun e => if q = path ∧ e ≠ .dir then .file size else e := by
  by_cases hq : q = []
  · subst hq
    simp [Device.lookup]
  · rw [Device.lookup_of_ne hq, Device.lookup_of_ne hq, Device.resize, cacheGet_resize]

@[simp] theorem Device.lookup_setHandle {fh : Nat} {h : Option Handle} :
    (d.setHandle fh h).lookup q = d.lookup q := rfl

@[simp] theorem Device.lookup_setSize {fh size : Nat} : (d.setSize fh size).lookup q = d.lookup q :=
  rfl

theorem Device.Wf.setHandle (hd : d.Wf) {fh : Nat} {h : Option Handle}
    (hh : ∀ x, h = some x → x.path ≠ []) : (d.setHandle fh h).Wf := by
  refine ⟨hd.nodup, hd.parent, ?_⟩
  intro fh' x hx
  by_cases heq : fh' = fh
  · subst heq
    simp only [Device.setHandle, Function.update_self] at hx
    exact hh x hx
  · simp only [Device.setHandle, Function.update_of_ne heq] at hx
    exact hd.handle fh' x hx

theorem Device.Wf.setSize (hd : d.Wf) {fh size : Nat} : (d.setSize fh size).Wf := by
  refine hd.setHandle fun x hx => ?_
  obtain ⟨h, hh, rfl⟩ := Option.map_eq_some_iff.1 hx
  exact hd.handle fh h hh

theorem Device.Wf.add (hd : d.Wf) (hnone : d.lookup path = none)
    (hdir : d.lookup path.dropLast = some .dir) : (d.add path e).Wf := by
  have hp : path ≠ [] := by
    rintro rfl
    cases hnone
  refine ⟨nodup_append hd.nodup (by rwa [Device.lookup_of_ne hp] at hnone), ?_, hd.handle⟩
  intro p e' he'
  simp only [Device.add, cacheGet_append, Option.or_eq_some_iff] at he'
  rw [Device.lookup_add]
  rcases he' with he' | ⟨-, he'⟩
  · obtain ⟨hne, hpar⟩ := hd.parent p e' he'
    exact ⟨hne, by rw [hpar]; rfl⟩
  · split_ifs at he' with heq
    subst heq
    exact ⟨hp, by rw [hdir]; rfl⟩

theorem Device.Wf.remove (hd : d.Wf) (hleaf : ∀ q e, q ≠ [] → d.lookup q = some e → q.dropLast ≠ path) :
    (d.remove path).Wf := by
  refine ⟨nodup_filter hd.nodup, ?_, hd.handle⟩
  intro p e he
  simp only [Device.remove, cacheGet_filter] at he
  split_ifs at he with hp
  obtain ⟨hne, hpar⟩ := hd.parent p e he
  refine ⟨hne, ?_⟩
  by_cases hroot : p.dropLast = []
  · rw [hroot]
    exact Device.lookup_nil
  · rw [Device.lookup_remove hroot, if_neg, hpar]
    exact hleaf p e hne (by rw [Device.lookup_of_ne hne]; exact he)

theorem Device.Wf.resize (hd : d.Wf) {size : Nat} : (d.resize path size).Wf := by
  refine ⟨nodup_resize hd.nodup, ?_, hd.handle⟩
  intro p e he
  simp only [Device.resize, cacheGet_resize, Option.map_eq_some_iff] at he
  obtain ⟨e', he', -⟩ := he
  obtain ⟨hne, hpar⟩ := hd.parent p e' he'
  refine ⟨hne, ?_⟩
  rw [Device.lookup_resize, hpar]
  simp

/-- A command adds an entry or none, or removes one that has nothing below it. -/
theorem Device.Wf.fileOpen (hd : d.Wf) {creat trunc : Bool} {fh : Nat} {d' : Device}
    (h : d.fileOpen path creat trunc fh = some d') : d'.Wf := by
  unfold Device.fileOpen at h
  split at h
  · rename_i size heq
    cases h
    refine hd.setHandle fun x hx => ?_
    cases hx
    rintro rfl
    cases heq
  · cases h
  · rename_i heq
    split_ifs at h with hc
    cases h
    refine (hd.add heq hc.2).setHandle fun x hx => ?_
    cases hx
    rintro rfl
    cases heq

theorem Device.Wf.fileClose (hd : d.Wf) {fh : Nat} : (d.fileClose fh).Wf := by
  unfold Device.fileClose
  split
  · exact hd.resize.setHandle fun x hx => by cases hx
  · exact hd

theorem Device.Wf.dirCreate (hd : d.Wf) {d' : Device} (h : d.dirCreate path = some d') : d'.Wf := by
  unfold Device.dirCreate at h
  split_ifs at h with hc
  cases h
  exact hd.add hc.1 hc.2

theorem Device.Wf.dirRemove (hd : d.Wf) {d' : Device} (h : d.dirRemove path = some d') :
    path ≠ [] ∧ d' = d.remove path ∧ d'.Wf := by
  unfold Device.dirRemove at h
  split_ifs at h with hc
  cases h
  refine ⟨hc.1, rfl, hd.remove ?_⟩
  rintro q e hq he rfl
  have hmem := Device.listing_of_lookup hq he
  rw [hc.2.2] at hmem
  exact absurd hmem List.not_mem_nil

theorem Device.Wf.fileUnlink (hd : d.Wf) {d' : Device} (h : d.fileUnlink path = some d') :
    path ≠ [] ∧ d' = d.remove path ∧ d'.Wf := by
  unfold Device.fileUnlink at h
  split at h
  · rename_i size heq
    cases h
    refine ⟨?_, rfl, hd.remove ?_⟩
    · rintro rfl
      cases heq
    · rintro q e hq he rfl
      rw [hd.parent_dir hq he] at heq
      cases heq
  · cases h

end Attributes
end Emcorefs
end Freemyipod
