import Freemyipod.Fat.Cache

/-!
# Fat.Slots

What the functions on the cache for the FAT do to its slots.

* `Keeps`: what they do not change for anybody.
* `cacheFatSector_spec`, `Flushed.keeps`, `unlock_spec`, `set_spec`: the functions.
-/

namespace Freemyipod
namespace Fat
namespace Caching

variable {b : Volume} {c c' c'' : Cache} {i s s' k secnum : Nat} {io : Io}

namespace Cache

/-- Sector `s` of the FAT is in its slot. -/
def Holds (b : Volume) (c : Cache) (s : Nat) : Prop :=
  (c.slots (index b s)).valid = true ∧ (c.slots (index b s)).secnum = s + b.rsvdseccnt

instance (s : Nat) : Decidable (c.Holds b s) := by
  unfold Holds
  infer_instance

/-- What sector `s` of the FAT has for those who read it through the cache. -/
def view (b : Volume) (c : Cache) (s : Nat) : Buf :=
  if c.Holds b s then (c.slots (index b s)).buf else c.disk (b.address 0 s)

/-- The sector is to be written, or all copies of it are the same. -/
def Safe (b : Volume) (c : Cache) (s : Nat) : Prop :=
  c.Holds b s ∧ (c.slots (index b s)).dirty = true ∨
    ∀ k < b.numfats, c.disk (b.address k s) = c.view b s

/-- The invariant of the cache. -/
structure Ok (b : Volume) (c : Cache) : Prop where
  placed : ∀ i, (c.slots i).valid = true →
    ∃ s < b.fatsize, (c.slots i).secnum = s + b.rsvdseccnt ∧ index b s = i
  clean : ∀ i, (c.slots i).valid = true → (c.slots i).dirty = false →
    (c.slots i).buf = c.disk ((c.slots i).secnum + b.startsector)
  empty : ∀ i, (c.slots i).valid = false → (c.slots i).dirty = false

/-- What a change of the cache keeps. -/
structure Keeps (b : Volume) (c c' : Cache) : Prop where
  ok : c'.Ok b
  view : ∀ s < b.fatsize, c'.view b s = c.view b s
  safe : ∀ s < b.fatsize, c.Safe b s → c'.Safe b s

theorem Keeps.refl (h : c.Ok b) : Keeps b c c := ⟨h, fun _ _ => rfl, fun _ _ h => h⟩

theorem Keeps.trans (h : Keeps b c c') (h' : Keeps b c' c'') : Keeps b c c'' where
  ok := h'.ok
  view s hs := (h'.view s hs).trans (h.view s hs)
  safe s hs hsafe := h'.safe s hs (h.safe s hs hsafe)

/-! ## Addresses -/

theorem address_zero (b : Volume) (s : Nat) : b.address 0 s = s + b.rsvdseccnt + b.startsector := by
  unfold Volume.address
  omega

theorem address_one (b : Volume) (s : Nat) :
    b.address 1 s = s + b.rsvdseccnt + b.startsector + b.fatsize := by
  unfold Volume.address
  omega

theorem address_ne {k' : Nat} (hs : s < b.fatsize) (hs' : s' < b.fatsize) (hne : s ≠ s')
    (hk : k < 2) (hk' : k' < 2) : b.address k s ≠ b.address k' s' := by
  unfold Volume.address
  interval_cases k <;> interval_cases k' <;> omega

theorem view_of_holds (h : c.Holds b s) : c.view b s = (c.slots (index b s)).buf := if_pos h

theorem view_of_not_holds (h : ¬ c.Holds b s) : c.view b s = c.disk (b.address 0 s) := if_neg h

/-- The disk is right about a sector that is not to be written. -/
theorem Ok.view_eq_disk (h : c.Ok b) (hd : ¬ (c.Holds b s ∧ (c.slots (index b s)).dirty = true)) :
    c.view b s = c.disk (b.address 0 s) := by
  by_cases hh : c.Holds b s
  · have hclean : (c.slots (index b s)).dirty = false := by
      cases hdirty : (c.slots (index b s)).dirty with
      | false => rfl
      | true => exact absurd ⟨hh, hdirty⟩ hd
    rw [view_of_holds hh, h.clean _ hh.1 hclean, hh.2, address_zero]
  · exact view_of_not_holds hh

/-! ## Flushing a slot -/

/-- What `flush_fat_sector` writes. -/
structure Flushed (b : Volume) (c c' : Cache) (i : Nat) : Prop where
  slots : c'.slots = Function.update c.slots i { c.slots i with dirty := false }
  first : c'.disk ((c.slots i).secnum + b.startsector) = (c.slots i).buf
  second : 1 < b.numfats →
    c'.disk ((c.slots i).secnum + b.startsector + b.fatsize) = (c.slots i).buf
  other : ∀ x, x ≠ (c.slots i).secnum + b.startsector →
    x ≠ (c.slots i).secnum + b.startsector + b.fatsize → c'.disk x = c.disk x

theorem flushFatSector_spec (hfat : 0 < b.fatsize) (h : c.flushFatSector b i io = some c') :
    Flushed b c c' i := by
  unfold flushFatSector at h
  dsimp only at h
  have hne : (c.slots i).secnum + b.startsector ≠
      (c.slots i).secnum + b.startsector + b.fatsize := by omega
  split at h
  · split at h
    · split at h
      · cases h
        exact ⟨rfl, (Function.update_of_ne hne ..).trans (Function.update_self ..),
          fun _ => Function.update_self ..,
          fun x h1 h2 => (Function.update_of_ne h2 ..).trans (Function.update_of_ne h1 ..)⟩
      · cases h
    · rename_i hone
      cases h
      exact ⟨rfl, Function.update_self .., fun h => absurd h hone,
        fun x h1 _ => Function.update_of_ne h1 ..⟩
  · cases h

theorem Flushed.slot_ne {j : Nat} (h : Flushed b c c' i) (hj : j ≠ i) : c'.slots j = c.slots j := by
  rw [h.slots, Function.update_of_ne hj]

theorem Flushed.slot_eq (h : Flushed b c c' i) : c'.slots i = { c.slots i with dirty := false } := by
  rw [h.slots, Function.update_self]

theorem Flushed.holds (h : Flushed b c c' i) : c'.Holds b s ↔ c.Holds b s := by
  unfold Holds
  by_cases hi : index b s = i
  · rw [hi, h.slot_eq]
  · rw [h.slot_ne hi]

/-- Other sectors of the FAT are where they were. -/
theorem Flushed.disk_ne (h : Flushed b c c' i) (hs : s < b.fatsize) (hs' : s' < b.fatsize)
    (hslot : (c.slots i).secnum = s + b.rsvdseccnt) (hne : s' ≠ s) (hk : k < 2) :
    c'.disk (b.address k s') = c.disk (b.address k s') := by
  refine h.other _ ?_ ?_
  · rw [hslot, ← address_zero]
    exact address_ne hs' hs hne hk (by omega)
  · rw [hslot, ← address_one]
    exact address_ne hs' hs hne hk (by omega)

theorem Flushed.keeps (hb : b.numfats ≤ 2) (h : Flushed b c c' i) (hok : c.Ok b)
    (hvalid : (c.slots i).valid = true) : Keeps b c c' := by
  obtain ⟨s, hs, hsecnum, hindex⟩ := hok.placed i hvalid
  have hfirst : c'.disk (b.address 0 s) = (c.slots i).buf := by
    rw [address_zero, ← hsecnum]
    exact h.first
  have hheld : c.Holds b s := by
    unfold Holds
    rw [hindex]
    exact ⟨hvalid, hsecnum⟩
  have hview : ∀ x < b.fatsize, c'.view b x = c.view b x := by
    intro x hx
    by_cases hxs : x = s
    · subst hxs
      rw [view_of_holds (h.holds.2 hheld), view_of_holds hheld, hindex, h.slot_eq]
    · unfold view
      simp only [h.holds, h.disk_ne hs hx hsecnum hxs (by omega : 0 < 2)]
      split
      · rename_i hx
        have hne : index b x ≠ i := by
          intro heq
          have := hx.2
          rw [heq] at this
          omega
        rw [h.slot_ne hne]
      · rfl
  refine ⟨⟨fun j hj => ?_, fun j hj hd => ?_, fun j hj => ?_⟩, hview, fun x hx hsafe => ?_⟩
  · by_cases hji : j = i
    · subst hji
      rw [h.slot_eq]
      exact ⟨s, hs, hsecnum, hindex⟩
    · rw [h.slot_ne hji] at hj ⊢
      exact hok.placed j hj
  · by_cases hji : j = i
    · subst hji
      rw [h.slot_eq]
      exact h.first.symm
    · rw [h.slot_ne hji] at hj hd ⊢
      obtain ⟨x, hx, hxsec, hxi⟩ := hok.placed j hj
      have hxs : x ≠ s := by
        rintro rfl
        exact hji (hxi.symm.trans hindex)
      have hdisk := h.disk_ne hs hx hsecnum hxs (by omega : 0 < 2)
      rw [address_zero, ← hxsec] at hdisk
      rw [hok.clean j hj hd, hdisk]
  · by_cases hji : j = i
    · subst hji
      rw [h.slot_eq]
    · rw [h.slot_ne hji] at hj ⊢
      exact hok.empty j hj
  · by_cases hxs : x = s
    · subst hxs
      refine Or.inr fun k hk => ?_
      rw [hview _ hx, view_of_holds hheld, hindex]
      obtain rfl | rfl : k = 0 ∨ k = 1 := by omega
      · exact hfirst
      · rw [address_one, ← hsecnum]
        exact h.second hk
    · rcases hsafe with ⟨hhx, hd⟩ | hsync
      · refine Or.inl ⟨h.holds.2 hhx, ?_⟩
        have hne : index b x ≠ i := by
          intro heq
          have := hhx.2
          rw [heq] at this
          omega
        rwa [h.slot_ne hne]
      · refine Or.inr fun k hk => ?_
        rw [hview x hx, h.disk_ne hs hx hsecnum hxs (by omega)]
        exact hsync k hk

/-! ## Changing a slot -/

variable {e : Slot}

@[simp] theorem setSlot_disk : (c.setSlot i e).disk = c.disk := rfl

@[simp] theorem setSlot_self : (c.setSlot i e).slots i = e := Function.update_self ..

theorem setSlot_ne {j : Nat} (h : j ≠ i) : (c.setSlot i e).slots j = c.slots j :=
  Function.update_of_ne h ..

theorem holds_setSlot_ne (h : index b s ≠ i) : (c.setSlot i e).Holds b s ↔ c.Holds b s := by
  unfold Holds
  rw [setSlot_ne h]

theorem holds_setSlot (h : index b s = i) :
    (c.setSlot i e).Holds b s ↔ e.valid = true ∧ e.secnum = s + b.rsvdseccnt := by
  unfold Holds
  rw [h, setSlot_self]

theorem view_setSlot_ne (h : index b s ≠ i) : (c.setSlot i e).view b s = c.view b s := by
  unfold view
  simp only [holds_setSlot_ne h, setSlot_ne h, setSlot_disk]

/-- The other slots go on as before. -/
theorem Ok.setSlot (h : c.Ok b)
    (hplaced : e.valid = true → ∃ s < b.fatsize, e.secnum = s + b.rsvdseccnt ∧ index b s = i)
    (hclean : e.valid = true → e.dirty = false → e.buf = c.disk (e.secnum + b.startsector))
    (hempty : e.valid = false → e.dirty = false) : (c.setSlot i e).Ok b := by
  refine ⟨fun j hj => ?_, fun j hj hd => ?_, fun j hj => ?_⟩ <;> by_cases hji : j = i
  · subst hji
    rw [setSlot_self] at hj ⊢
    exact hplaced hj
  · rw [setSlot_ne hji] at hj ⊢
    exact h.placed j hj
  · subst hji
    rw [setSlot_self] at hj hd ⊢
    exact hclean hj hd
  · rw [setSlot_ne hji] at hj hd ⊢
    exact h.clean j hj hd
  · subst hji
    rw [setSlot_self] at hj ⊢
    exact hempty hj
  · rw [setSlot_ne hji] at hj ⊢
    exact h.empty j hj

/-- A slot that changes neither its sector nor the data, nor forgets that it is dirty. -/
theorem Ok.keeps_same (h : c.Ok b) (hvalid : e.valid = (c.slots i).valid)
    (hsecnum : e.secnum = (c.slots i).secnum) (hbuf : e.buf = (c.slots i).buf)
    (hdirty : (c.slots i).dirty = true → e.dirty = true)
    (hempty : e.valid = false → e.dirty = false) : Keeps b c (c.setSlot i e) := by
  have hholds : ∀ s, (c.setSlot i e).Holds b s ↔ c.Holds b s := by
    intro s
    by_cases hi : index b s = i
    · rw [holds_setSlot hi, hvalid, hsecnum, ← hi]
      rfl
    · exact holds_setSlot_ne hi
  have hview : ∀ s, (c.setSlot i e).view b s = c.view b s := by
    intro s
    by_cases hi : index b s = i
    · unfold view
      simp only [hholds, hi, setSlot_self, hbuf, setSlot_disk]
    · exact view_setSlot_ne hi
  refine ⟨h.setSlot (fun hv => ?_) (fun hv hd => ?_) hempty, fun s _ => hview s, fun s _ hsafe => ?_⟩
  · rw [hsecnum]
    exact h.placed i (hvalid ▸ hv)
  · rw [hbuf, hsecnum]
    refine h.clean i (hvalid ▸ hv) ?_
    cases hold : (c.slots i).dirty with
    | false => rfl
    | true =>
      rw [hdirty hold] at hd
      cases hd
  · rcases hsafe with ⟨hh, hd⟩ | hsync
    · refine Or.inl ⟨(hholds s).2 hh, ?_⟩
      by_cases hi : index b s = i
      · rw [hi, setSlot_self]
        exact hdirty (hi ▸ hd)
      · rwa [setSlot_ne hi]
    · refine Or.inr fun k hk => ?_
      rw [hview]
      exact hsync k hk

/-- A slot that is not dirty is emptied. -/
theorem Ok.keeps_drop (h : c.Ok b) (hd : (c.slots i).dirty = false) :
    Keeps b c (c.setSlot i { c.slots i with valid := false }) := by
  have hnot : ∀ s, index b s = i →
      ¬ (c.setSlot i { c.slots i with valid := false }).Holds b s := by
    intro s hi hh
    cases ((holds_setSlot hi).1 hh).1
  have hview : ∀ s, (c.setSlot i { c.slots i with valid := false }).view b s = c.view b s := by
    intro s
    by_cases hi : index b s = i
    · rw [view_of_not_holds (hnot s hi), setSlot_disk, h.view_eq_disk]
      rintro ⟨-, hdirty⟩
      rw [hi, hd] at hdirty
      cases hdirty
    · exact view_setSlot_ne hi
  refine ⟨h.setSlot (fun hv => by cases hv) (fun hv => by cases hv) fun _ => hd,
    fun s _ => hview s, fun s _ hsafe => ?_⟩
  rcases hsafe with ⟨hh, hdirty⟩ | hsync
  · have hi : index b s ≠ i := by
      intro hi
      rw [hi, hd] at hdirty
      cases hdirty
    refine Or.inl ⟨(holds_setSlot_ne hi).2 hh, ?_⟩
    rwa [setSlot_ne hi]
  · refine Or.inr fun k hk => ?_
    rw [hview]
    exact hsync k hk

/-- An empty slot is filled from the disk. -/
theorem Ok.keeps_fill (h : c.Ok b) (hs : s < b.fatsize) (hi : index b s = i)
    (hempty : (c.slots i).valid = false) :
    Keeps b c (c.setSlot i { c.slots i with
      valid := true
      secnum := s + b.rsvdseccnt
      buf := c.disk (s + b.rsvdseccnt + b.startsector) }) := by
  have hnot : ∀ x, index b x = i → ¬ c.Holds b x := by
    rintro x rfl hh
    have hvalid := hh.1
    rw [hempty] at hvalid
    cases hvalid
  generalize he : ({ c.slots i with
    valid := true, secnum := s + b.rsvdseccnt,
    buf := c.disk (s + b.rsvdseccnt + b.startsector) } : Slot) = e
  have hview : ∀ x, (c.setSlot i e).view b x = c.view b x := by
    intro x
    by_cases hxi : index b x = i
    · rw [view_of_not_holds (hnot x hxi)]
      unfold view
      split
      · rename_i hh
        have hsec := ((holds_setSlot hxi).1 hh).2
        rw [hxi, setSlot_self]
        subst he
        obtain rfl : s = x := by
          dsimp only at hsec
          omega
        rw [address_zero]
      · rfl
    · exact view_setSlot_ne hxi
  have hdirty : e.dirty = false := by
    rw [← he]
    exact h.empty i hempty
  refine ⟨h.setSlot (fun _ => ⟨s, hs, by rw [← he], hi⟩) (fun _ _ => by rw [← he]) fun _ => hdirty,
    fun x _ => hview x, fun x _ hsafe => ?_⟩
  rcases hsafe with ⟨hh, hd⟩ | hsync
  · have hxi : index b x ≠ i := fun hxi => hnot x hxi hh
    refine Or.inl ⟨(holds_setSlot_ne hxi).2 hh, ?_⟩
    rwa [setSlot_ne hxi]
  · refine Or.inr fun k hk => ?_
    rw [hview]
    exact hsync k hk

/-! ## The calls on the cache -/

/-- What `cache_fat_sector` for sector `s` does; `ok` if it returns a buffer. -/
structure Entered (b : Volume) (c c' : Cache) (s : Nat) (dirty ok : Bool) : Prop where
  keeps : Keeps b c c'
  others : ∀ j, j ≠ index b s → c'.slots j = c.slots j
  held : ok = true → c'.Holds b s ∧ (dirty = true → (c'.slots (index b s)).dirty = true)
  stays : c.Holds b s → ok = true ∧
    ((c.slots (index b s)).dirty = true → (c'.slots (index b s)).dirty = true)

/-- After `evict` the slot is empty, or the cache is as it was. -/
theorem evict_spec (hb : b.numfats ≤ 2) (hok : c.Ok b) (hfat : 0 < b.fatsize)
    (h : c.evict b i secnum io = some c') :
    Keeps b c c' ∧ (∀ j, j ≠ i → c'.slots j = c.slots j) ∧
      ((c'.slots i).valid = false ∧ ¬ ((c.slots i).valid = true ∧ (c.slots i).secnum = secnum) ∨
        c' = c ∧ ((c.slots i).valid = true → (c.slots i).secnum = secnum)) := by
  unfold evict at h
  dsimp only at h
  split at h
  · rename_i hev
    have hnot : ¬ ((c.slots i).valid = true ∧ (c.slots i).secnum = secnum) := fun hh => hev.2 hh.2
    split at h
    · obtain ⟨c₁, hflush, rfl⟩ := Option.map_eq_some_iff.1 h
      have hf := flushFatSector_spec hfat hflush
      have hk := hf.keeps hb hok hev.1
      have hd : (c₁.slots i).dirty = false := by rw [hf.slot_eq]
      refine ⟨hk.trans (hk.ok.keeps_drop hd), fun j hj => ?_, Or.inl ⟨?_, hnot⟩⟩
      · rw [setSlot_ne hj, hf.slot_ne hj]
      · rw [setSlot_self]
    · rename_i hd
      cases h
      have hd : (c.slots i).dirty = false := by simpa using hd
      refine ⟨hok.keeps_drop hd, fun j hj => setSlot_ne hj, Or.inl ⟨?_, hnot⟩⟩
      rw [setSlot_self]
  · rename_i hev
    cases h
    refine ⟨.refl hok, fun _ _ => rfl, Or.inr ⟨rfl, fun hv => ?_⟩⟩
    by_contra hne
    exact hev ⟨hv, hne⟩

theorem load_spec (hok : c.Ok b) (hs : s < b.fatsize) {ok : Bool}
    (hsame : (c.slots (index b s)).valid = true → (c.slots (index b s)).secnum = s + b.rsvdseccnt)
    (h : c.load b (index b s) (s + b.rsvdseccnt) io = (c', ok)) :
    Keeps b c c' ∧ (∀ j, j ≠ index b s → c'.slots j = c.slots j) ∧ (ok = true → c'.Holds b s) ∧
      (c.Holds b s → ok = true ∧ c' = c) := by
  unfold load at h
  dsimp only at h
  split at h
  · rename_i hv
    cases h
    exact ⟨.refl hok, fun _ _ => rfl, fun _ => ⟨hv, hsame hv⟩, fun _ => ⟨rfl, rfl⟩⟩
  · rename_i hv
    have hempty : (c.slots (index b s)).valid = false := by simpa using hv
    split at h
    · cases h
      refine ⟨hok.keeps_fill hs rfl hempty, fun j hj => setSlot_ne hj, fun _ => ?_,
        fun hh => absurd hh.1 hv⟩
      rw [holds_setSlot rfl]
      exact ⟨rfl, rfl⟩
    · cases h
      exact ⟨.refl hok, fun _ _ => rfl, (fun hh => by cases hh), fun hh => absurd hh.1 hv⟩

theorem hold_spec (hok : c.Ok b) (dirty : Bool) (hh : c.Holds b s) :
    Keeps b c (c.hold (index b s) dirty) ∧ (c.hold (index b s) dirty).Holds b s := by
  refine ⟨hok.keeps_same rfl rfl rfl (fun hd => ?_) (fun hv => ?_), ?_⟩
  · simp [hd]
  · exact absurd hv (by simp [hh.1])
  · exact (holds_setSlot rfl).2 hh

theorem cacheFatSector_spec (hb : b.numfats ≤ 2) (hok : c.Ok b) (hs : s < b.fatsize)
    {dirty ok : Bool} (h : c.cacheFatSector b s dirty io = some (c', ok)) :
    Entered b c c' s dirty ok := by
  unfold cacheFatSector at h
  dsimp only at h
  obtain ⟨c₁, hev, h⟩ := Option.map_eq_some_iff.1 h
  obtain ⟨hk₁, ho₁, hcases⟩ := evict_spec hb hok (by omega) hev
  have hsame : (c₁.slots (index b s)).valid = true →
      (c₁.slots (index b s)).secnum = s + b.rsvdseccnt := by
    intro hv
    rcases hcases with ⟨hempty, -⟩ | ⟨rfl, hsec⟩
    · have hempty : (c₁.slots (index b s)).valid = false := hempty
      rw [hempty] at hv
      cases hv
    · exact hsec hv
  cases hl : c₁.load b (index b s) (s + b.rsvdseccnt) io with
  | mk c₂ ok₂ =>
    obtain ⟨hk₂, ho₂, hh₂, hst₂⟩ := load_spec hk₁.ok hs hsame hl
    have hl' : c₁.load b ((s + b.rsvdseccnt) % 4) (s + b.rsvdseccnt) io = (c₂, ok₂) := hl
    rw [hl'] at h
    cases ok₂ with
    | true =>
      cases h
      obtain ⟨hk₃, hh₃⟩ := hold_spec hk₂.ok dirty (hh₂ rfl)
      refine ⟨hk₁.trans (hk₂.trans hk₃), fun j hj => ?_, fun _ => ⟨hh₃, fun hd => ?_⟩,
        fun hh => ⟨rfl, fun hd => ?_⟩⟩
      · exact (setSlot_ne hj).trans ((ho₂ j hj).trans (ho₁ j hj))
      · simp [hold, index, hd]
      · rcases hcases with ⟨-, hnot⟩ | ⟨rfl, -⟩
        · exact absurd hh hnot
        · obtain ⟨-, rfl⟩ := hst₂ hh
          have hd : (c₂.slots ((s + b.rsvdseccnt) % 4)).dirty = true := hd
          simp [hold, index, hd]
    | false =>
      cases h
      refine ⟨hk₁.trans hk₂, fun j hj => (ho₂ j hj).trans (ho₁ j hj), (fun hf => by cases hf),
        fun hh => ?_⟩
      rcases hcases with ⟨-, hnot⟩ | ⟨rfl, -⟩
      · exact absurd hh hnot
      · exact absurd (hst₂ hh).1 (by decide)

theorem unlock_spec (hok : c.Ok b) (s : Nat) :
    Keeps b c (c.unlockFatSector b s) ∧
      (∀ x, (c.unlockFatSector b s).Holds b x ↔ c.Holds b x) ∧
      ∀ j, ((c.unlockFatSector b s).slots j).dirty = (c.slots j).dirty := by
  refine ⟨hok.keeps_same rfl rfl rfl id (hok.empty _), fun x => ?_, fun j => ?_⟩
  · by_cases hx : index b x = index b s
    · rw [unlockFatSector, holds_setSlot hx, ← hx]
      rfl
    · exact holds_setSlot_ne hx
  · by_cases hj : j = index b s
    · subst hj
      rw [unlockFatSector, setSlot_self]
    · rw [unlockFatSector, setSlot_ne hj]

/-- What a store to a buffer does: nothing is written to the disk, and of the FAT only the entry
changes. -/
structure Stored (b : Volume) (c c' : Cache) (entry : Nat) (v : BitVec 32) : Prop where
  ok : c'.Ok b
  holds : ∀ s, c'.Holds b s ↔ c.Holds b s
  dirty : ∀ j, (c'.slots j).dirty = (c.slots j).dirty
  disk : c'.disk = c.disk
  self : c'.view b (b.sectorOf entry) =
    Function.update (c.view b (b.sectorOf entry)) (b.offsetOf entry) v
  other : ∀ s, s ≠ b.sectorOf entry → c'.view b s = c.view b s

theorem set_spec {entry : Nat} (hok : c.Ok b) (hh : c.Holds b (b.sectorOf entry))
    (hd : (c.slots (index b (b.sectorOf entry))).dirty = true) (v : BitVec 32) :
    Stored b c (c.set b entry v) entry v := by
  have hholds : ∀ s, (c.set b entry v).Holds b s ↔ c.Holds b s := by
    intro s
    by_cases hs : index b s = index b (b.sectorOf entry)
    · rw [set, holds_setSlot hs, ← hs]
      rfl
    · exact holds_setSlot_ne hs
  refine ⟨?_, hholds, fun j => ?_, rfl, ?_, fun s hs => ?_⟩
  · refine hok.setSlot (fun hv => hok.placed _ hv) (fun _ hclean => ?_) (fun hv => hok.empty _ hv)
    rw [hd] at hclean
    cases hclean
  · by_cases hj : j = index b (b.sectorOf entry)
    · subst hj
      rw [set, setSlot_self]
    · rw [set, setSlot_ne hj]
  · rw [view_of_holds ((hholds _).2 hh), view_of_holds hh, set, setSlot_self]
  · by_cases hi : index b s = index b (b.sectorOf entry)
    · have hnot : ¬ c.Holds b s := by
        rintro ⟨-, hsec⟩
        have hsec' := hh.2
        rw [hi] at hsec
        omega
      rw [view_of_not_holds hnot, view_of_not_holds fun h => hnot ((hholds s).1 h)]
      rfl
    · exact view_setSlot_ne hi

theorem get_eq_view {entry : Nat} (hh : c.Holds b (b.sectorOf entry)) :
    c.get b entry = c.view b (b.sectorOf entry) (b.offsetOf entry) := by
  rw [view_of_holds hh, get]

end Cache

end Caching
end Fat
end Freemyipod
