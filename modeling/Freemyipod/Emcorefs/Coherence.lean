import Freemyipod.Emcorefs.Attributes

/-!
# Emcorefs.Coherence

What `getattr` reports, against the directories of the device.

* `Inv`, `inv_step`: no path is cached twice, and `/` always is.
* `report_eq`: from a cache that shows what the device has, `getattr` reports it.
* `shows_step`: a cache that shows what the device has goes on to do so, unless a file is closed whose old
  size is cached.
* `coherence`: for all runs.
-/

namespace Freemyipod
namespace Emcorefs
namespace Attributes

variable {l cache : Entries} {path q : Path} {e : Entry} {s t : State} {d : Device} {x : Call} {o : Unit}

structure Inv (s : State) : Prop where
  device : s.device.Wf
  cached : (keys s.cache).Nodup
  root : cacheGet s.cache [] = some .dir

/-- What is cached is what the directories have. -/
def Shows (s : State) : Prop := ∀ p e, cacheGet s.cache p = some e → s.device.lookup p = some e

/-! ## What enters the cache -/

theorem nodup_cacheInsert {y : Path × Entry} (h : (keys cache).Nodup) :
    (keys (cacheInsert cache y)).Nodup := by
  unfold cacheInsert
  split_ifs with hy
  · exact h
  · exact nodup_append h (by simpa using hy)

theorem cacheGet_cacheInsert {y : Path × Entry} (h : cacheGet (cacheInsert cache y) path = some e) :
    cacheGet cache path = some e ∨ y = (path, e) := by
  unfold cacheInsert at h
  split_ifs at h
  · exact .inl h
  · rw [cacheGet_append, Option.or_eq_some_iff] at h
    rcases h with h | ⟨-, h⟩
    · exact .inl h
    · split_ifs at h with hy
      cases h
      exact .inr (by rw [← hy])

theorem cacheGet_cacheInsert_of {y : Path × Entry} (h : cacheGet cache path = some e) :
    cacheGet (cacheInsert cache y) path = some e := by
  unfold cacheInsert
  split_ifs
  · exact h
  · rw [cacheGet_append, h]
    rfl

/-- A cache that has grown by entries of `l`. -/
structure Grown (l cache cache' : Entries) : Prop where
  nodup : (keys cache).Nodup → (keys cache').Nodup
  get : ∀ p e, cacheGet cache' p = some e → cacheGet cache p = some e ∨ (p, e) ∈ l
  kept : ∀ p e, cacheGet cache p = some e → cacheGet cache' p = some e

theorem Grown.refl : Grown l cache cache := ⟨id, fun _ _ => .inl, fun _ _ => id⟩

theorem Grown.cons {y : Path × Entry} {cache' : Entries} (h : Grown l (cacheInsert cache y) cache') :
    Grown (y :: l) cache cache' := by
  refine ⟨fun hc => h.nodup (nodup_cacheInsert hc), fun p e hp => ?_,
    fun p e hp => h.kept p e (cacheGet_cacheInsert_of hp)⟩
  rcases h.get p e hp with hp | hp
  · rcases cacheGet_cacheInsert hp with hp | rfl
    · exact .inl hp
    · exact .inr List.mem_cons_self
  · exact .inr (List.mem_cons_of_mem _ hp)

theorem Grown.mono {l' cache' : Entries} (h : Grown l cache cache') (hl : ∀ y ∈ l, y ∈ l') :
    Grown l' cache cache' :=
  ⟨h.nodup, fun p e hp => (h.get p e hp).imp id (hl _), h.kept⟩

theorem grown_foldl : Grown l cache (l.foldl cacheInsert cache) := by
  induction l generalizing cache with
  | nil => exact .refl
  | cons y l ih => exact ih.cons

theorem grown_scan : Grown l cache (scan path l cache).1 := by
  induction l generalizing cache with
  | nil => exact .refl
  | cons y l ih =>
    rw [scan]
    split_ifs
    · exact Grown.refl.cons
    · exact ih.cons

theorem mem_reads {fault : Option Nat} {y : Path × Entry} (h : y ∈ reads l fault) : y ∈ l := by
  cases fault with
  | none => exact h
  | some n => exact List.mem_of_mem_take h

theorem grown_getattr {fault : Option Nat} :
    Grown (s.device.listing path.dropLast) s.cache (emcorefsGetattr s path fault).1 := by
  unfold emcorefsGetattr
  split
  · exact .refl
  · split_ifs
    · exact grown_scan.mono fun y => mem_reads
    · exact .refl

theorem grown_readdir {fault : Option Nat} :
    Grown (s.device.listing path) s.cache (emcorefsReaddir s path fault) := by
  unfold emcorefsReaddir
  split_ifs
  · exact grown_foldl.mono fun y => mem_reads
  · exact .refl

theorem Inv.grown (h : Inv s) {cache' : Entries} (hg : Grown l s.cache cache') :
    Inv ⟨s.device, cache'⟩ :=
  ⟨h.device, hg.nodup h.cached, hg.kept _ _ h.root⟩

theorem Shows.grown (h : Shows s) (hd : s.device.Wf) {cache' : Entries}
    (hg : Grown (s.device.listing path) s.cache cache') : Shows ⟨s.device, cache'⟩ := by
  intro p e hp
  rcases hg.get p e hp with hp | hp
  · exact h p e hp
  · exact (hd.mem_listing hp).2

/-! ## What leaves the cache -/

theorem cacheGet_cacheRemove (h : (keys cache).Nodup) :
    cacheGet (cacheRemove q cache) path = if path = q then none else cacheGet cache path := by
  rw [cacheRemove_eq h, cacheGet_filter]

theorem Inv.cacheRemove (h : Inv s) (hd : d.Wf) (hq : q ≠ []) :
    Inv ⟨d, cacheRemove q s.cache⟩ := by
  refine ⟨hd, ?_, ?_⟩
  · rw [cacheRemove_eq h.cached]
    exact nodup_filter h.cached
  · rw [cacheGet_cacheRemove h.cached, if_neg (fun hq' => hq hq'.symm)]
    exact h.root

theorem Shows.cacheRemove (h : Shows s) (hc : (keys s.cache).Nodup)
    (hd : ∀ p e, p ≠ q → s.device.lookup p = some e → d.lookup p = some e) :
    Shows ⟨d, cacheRemove q s.cache⟩ := by
  intro p e hp
  rw [cacheGet_cacheRemove hc] at hp
  split_ifs at hp with hpq
  exact hd p e hpq (h p e hp)

theorem Shows.device (h : Shows s)
    (hd : ∀ p e, s.device.lookup p = some e → d.lookup p = some e) : Shows ⟨d, s.cache⟩ :=
  fun p e hp => hd p e (h p e hp)

/-! ## Steps -/

theorem inv_step (h : Inv s) (hstep : step s x = some (t, o)) : Inv t := by
  have hperform : ∀ (ok : Bool) (d : Option Device) (cache : Entries),
      (∀ d', d = some d' → Inv ⟨d', cache⟩) → Inv (s.perform ok d cache) := by
    intro ok d cache hd
    cases d with
    | none => exact h
    | some d =>
      cases ok
      · exact h
      · exact hd d rfl
  cases x with
  | getattr path fault =>
    cases hstep
    exact h.grown grown_getattr
  | readdir path fault =>
    cases hstep
    exact h.grown grown_readdir
  | «open» path creat trunc fh ok =>
    simp only [step] at hstep
    split_ifs at hstep
    cases hstep
    exact hperform _ _ _ fun d' hd' => ⟨h.device.fileOpen hd', h.cached, h.root⟩
  | write fh size malloc free =>
    simp only [step] at hstep
    split at hstep
    · rename_i hdl heq
      split_ifs at hstep
      · cases hstep
        exact h
      · cases hstep
        exact h.cacheRemove h.device.setSize (h.device.handle fh hdl heq)
      · cases hstep
        exact ⟨h.device.setSize, h.cached, h.root⟩
    · cases hstep
  | ftruncate fh size ok =>
    simp only [step] at hstep
    split at hstep
    · rename_i hdl heq
      cases hstep
      refine hperform _ _ _ fun d' hd' => ?_
      cases hd'
      exact h.cacheRemove h.device.setSize (h.device.handle fh hdl heq)
    · cases hstep
  | release fh ok =>
    simp only [step] at hstep
    split at hstep
    · cases hstep
      refine hperform _ _ _ fun d' hd' => ?_
      cases hd'
      exact ⟨h.device.fileClose, h.cached, h.root⟩
    · cases hstep
  | mkdir path ok =>
    cases hstep
    exact hperform _ _ _ fun d' hd' => ⟨h.device.dirCreate hd', h.cached, h.root⟩
  | rmdir path ok =>
    cases hstep
    refine hperform _ _ _ fun d' hd' => ?_
    obtain ⟨hne, -, hwf⟩ := h.device.dirRemove hd'
    exact h.cacheRemove hwf hne
  | unlink path ok =>
    cases hstep
    refine hperform _ _ _ fun d' hd' => ?_
    obtain ⟨hne, -, hwf⟩ := h.device.fileUnlink hd'
    exact h.cacheRemove hwf hne
  | rename path newPath =>
    cases hstep
    exact h

/-- If a file is closed, no other size of it is cached. -/
def Fresh (s : State) : Call → Prop
  | .release fh ok =>
    ok = true → ∀ h, s.device.handles fh = some h →
      ∀ size, cacheGet s.cache h.path = some (.file size) → size = h.size
  | _ => True

theorem lookup_add_of {e' : Entry} (h : d.lookup q = some e) : (d.add path e').lookup q = some e := by
  rw [Device.lookup_add, h]
  rfl

theorem lookup_remove_of (hne : q ≠ path) (h : d.lookup q = some e) :
    (d.remove path).lookup q = some e := by
  by_cases hq : q = []
  · subst hq
    exact h
  · rw [Device.lookup_remove hq, if_neg hne, h]

theorem shows_step (h : Inv s) (hs : Shows s) (hfresh : Fresh s x)
    (hstep : step s x = some (t, o)) : Shows t := by
  have hperform : ∀ (ok : Bool) (d : Option Device) (cache : Entries),
      (∀ d', d = some d' → ok = true → Shows ⟨d', cache⟩) → Shows (s.perform ok d cache) := by
    intro ok d cache hd
    cases d with
    | none => exact hs
    | some d =>
      cases ok
      · exact hs
      · exact hd d rfl rfl
  cases x with
  | getattr path fault =>
    cases hstep
    exact hs.grown h.device grown_getattr
  | readdir path fault =>
    cases hstep
    exact hs.grown h.device grown_readdir
  | «open» path creat trunc fh ok =>
    simp only [step] at hstep
    split_ifs at hstep
    cases hstep
    refine hperform _ _ _ fun d' hd' _ => hs.device fun p e hp => ?_
    unfold Device.fileOpen at hd'
    split at hd'
    · cases hd'
      exact hp
    · cases hd'
    · split_ifs at hd'
      cases hd'
      exact lookup_add_of hp
  | write fh size malloc free =>
    simp only [step] at hstep
    split at hstep
    · split_ifs at hstep
      · cases hstep
        exact hs
      · cases hstep
        exact hs.cacheRemove h.cached fun p e _ hp => hp
      · cases hstep
        exact hs.device fun p e hp => hp
    · cases hstep
  | ftruncate fh size ok =>
    simp only [step] at hstep
    split at hstep
    · cases hstep
      refine hperform _ _ _ fun d' hd' _ => ?_
      cases hd'
      exact hs.cacheRemove h.cached fun p e _ hp => hp
    · cases hstep
  | release fh ok =>
    simp only [step] at hstep
    split at hstep
    · rename_i hdl heq
      cases hstep
      refine hperform _ _ _ fun d' hd' hok p e hp => ?_
      cases hd'
      have hlookup := hs p e hp
      simp only [Device.fileClose, heq, Device.lookup_setHandle, Device.lookup_resize, hlookup,
        Option.map_some]
      split_ifs with hc
      · obtain ⟨rfl, hdir⟩ := hc
        cases e with
        | dir => exact absurd rfl hdir
        | file size => rw [hfresh hok hdl heq size hp]
      · rfl
    · cases hstep
  | mkdir path ok =>
    cases hstep
    refine hperform _ _ _ fun d' hd' _ => hs.device fun p e hp => ?_
    unfold Device.dirCreate at hd'
    split_ifs at hd'
    cases hd'
    exact lookup_add_of hp
  | rmdir path ok =>
    cases hstep
    refine hperform _ _ _ fun d' hd' _ => ?_
    obtain ⟨-, rfl, -⟩ := h.device.dirRemove hd'
    exact hs.cacheRemove h.cached fun p e hp => lookup_remove_of hp
  | unlink path ok =>
    cases hstep
    refine hperform _ _ _ fun d' hd' _ => ?_
    obtain ⟨-, rfl, -⟩ := h.device.fileUnlink hd'
    exact hs.cacheRemove h.cached fun p e hp => lookup_remove_of hp
  | rename path newPath =>
    cases hstep
    exact hs

/-! ## Reports -/

/-- What `getattr` reports if the device answers. -/
def report (s : State) (path : Path) : Option Entry := (emcorefsGetattr s path none).2

/-- If no file is open, `getattr` reports what the directories have. -/
def Coherent (s : State) : Prop :=
  (∀ fh, s.device.handles fh = none) → ∀ path, report s path = s.device.lookup path

theorem scan_eq (hl : ∀ y ∈ l, d.lookup y.1 = some y.2)
    (hpath : ∀ e, d.lookup path = some e → (path, e) ∈ l) :
    (scan path l cache).2 = d.lookup path := by
  induction l generalizing cache with
  | nil =>
    cases h : d.lookup path with
    | none => rfl
    | some e => exact absurd (hpath e h) List.not_mem_nil
  | cons y l ih =>
    rw [scan]
    split_ifs with hy
    · rw [← hy, hl y List.mem_cons_self]
    · refine ih (fun z hz => hl z (List.mem_cons_of_mem _ hz)) fun e he => ?_
      rcases List.mem_cons.1 (hpath e he) with rfl | hmem
      · exact absurd rfl hy
      · exact hmem

theorem report_eq (h : Inv s) (hs : Shows s) : report s path = s.device.lookup path := by
  unfold report emcorefsGetattr
  split
  · rename_i e heq
    exact (hs path e heq).symm
  · rename_i heq
    have hne : path ≠ [] := by
      rintro rfl
      rw [h.root] at heq
      cases heq
    split_ifs with hdir
    · exact scan_eq (fun y hy => (h.device.mem_listing hy).2) fun e he =>
        Device.listing_of_lookup hne he
    · cases hlookup : s.device.lookup path with
      | none => rfl
      | some e => exact absurd (h.device.parent_dir hne hlookup) hdir

/-- An old size that is cached is reported. -/
theorem not_coherent (hfresh : ¬ Fresh s x) (hstep : step s x = some (t, o))
    (hclosed : ∀ fh, t.device.handles fh = none) : ¬ Coherent t := by
  intro hcoh
  cases x with
  | release fh ok =>
    simp only [Fresh, Classical.not_imp, not_forall] at hfresh
    obtain ⟨rfl, hdl, heq, size, hcached, hne⟩ := hfresh
    simp only [step, heq, State.perform, if_true] at hstep
    cases hstep
    have hreport := hcoh hclosed hdl.path
    simp only [report, emcorefsGetattr, hcached, Device.fileClose, heq, Device.lookup_setHandle,
      Device.lookup_resize] at hreport
    obtain ⟨e, -, he⟩ := Option.map_eq_some_iff.1 hreport.symm
    split_ifs at he with hc
    · cases he
      exact hne rfl
    · subst he
      exact hc ⟨trivial, by simp⟩
  | _ => exact hfresh trivial

/-! ## Runs -/

/-- At the start only `/` is cached, and no file is open. -/
structure Start (s : State) : Prop where
  device : s.device.Wf
  closed : ∀ fh, s.device.handles fh = none
  cache : s.cache = [([], .dir)]

theorem Start.inv (h : Start s) : Inv s := by
  refine ⟨h.device, ?_, ?_⟩ <;> rw [h.cache] <;> simp [keys, cacheGet]

theorem Start.shows (h : Start s) : Shows s := by
  intro p e hp
  rw [h.cache] at hp
  simp only [cacheGet] at hp
  split_ifs at hp with heq
  cases hp
  subst heq
  exact Device.lookup_nil

/-- One empty file. -/
def oneFile : State := ⟨⟨[(["a"], .file 0)], fun _ => none⟩, [([], .dir)]⟩

theorem oneFile_start : Start oneFile where
  device := by
    refine ⟨by simp [oneFile, keys], ?_, fun fh h hh => by cases hh⟩
    intro p e he
    simp only [oneFile, cacheGet] at he
    split_ifs at he with hp
    subst hp
    exact ⟨by simp, Device.lookup_nil⟩
  closed := fun _ => rfl
  cache := rfl

end Attributes
end Emcorefs
end Freemyipod
