import Mathlib.Data.List.Basic
import Freemyipod.Vfl.Model

/-!
# Vfl.Commit

What a commit that returns 0 leaves on the flash.

* `Bank.Valid`: the active block is the one a mount would choose, all its groups below the next
  free page can be read, and the pages from there on are free.
* `Bank.Holds`: the last group reads as the context in memory.
* `commit_spec`: a commit keeps `Valid` and establishes `Holds`, whatever programs and erases fail
  on the way, if it returns 0 and does not run out of update counts.
-/

namespace Freemyipod.Vfl

/-! ## Fields of the context -/

namespace Cxt

variable {c d : Cxt} {i j : Nat} {w : BitVec 32}

theorem setWord_apply (h : j / 2 ≠ i) : c.setWord i w j = c j := by
  have h0 : j ≠ 2 * i := by omega
  have h1 : j ≠ 2 * i + 1 := by omega
  rw [setWord, Function.update_of_ne h1, Function.update_of_ne h0]

@[simp] theorem word_setWord : (c.setWord i w).word i = w := by
  have h : 2 * i ≠ 2 * i + 1 := by omega
  rw [word, setWord, Function.update_self, Function.update_of_ne h, Function.update_self]
  exact BitVec.extractLsb'_append_extractLsb'

theorem word_setWord_of_ne (h : i ≠ j) : (c.setWord i w).word j = c.word j := by
  have h0 : 2 * j / 2 ≠ i := by omega
  have h1 : (2 * j + 1) / 2 ≠ i := by omega
  rw [word, word, setWord_apply h0, setWord_apply h1]

theorem word_update_of_ne {v : BitVec 16} (h : i ≠ j / 2) :
    word (Function.update c j v) i = c.word i := by
  have h0 : 2 * i ≠ j := by omega
  have h1 : 2 * i + 1 ≠ j := by omega
  rw [word, word, Function.update_of_ne h0, Function.update_of_ne h1]

theorem calculateChecksum_congr (h : ∀ i < 0x1fe, c.word i = d.word i) :
    c.calculateChecksum = d.calculateChecksum := by
  refine List.foldl_ext _ _ _ fun s i hi => ?_
  rw [h i (List.mem_range.1 hi)]

theorem updateChecksum_word (h : i < 0x1fe) : c.updateChecksum.word i = c.word i := by
  have h1 : 0x1fe ≠ i := by omega
  have h2 : 0x1ff ≠ i := by omega
  rw [updateChecksum, setChecksum2, setChecksum1, word_setWord_of_ne h2, word_setWord_of_ne h1]

theorem updateChecksum_apply (h : i < 0x3fc) : c.updateChecksum i = c i := by
  have h1 : i / 2 ≠ 0x1fe := by omega
  have h2 : i / 2 ≠ 0x1ff := by omega
  rw [updateChecksum, setChecksum2, setChecksum1, setWord_apply h2, setWord_apply h1]

/-- An updated checksum passes the check. -/
theorem updateChecksum_verifies : c.updateChecksum.verifyChecksum = true := by
  have hsum : c.updateChecksum.calculateChecksum = c.calculateChecksum :=
    calculateChecksum_congr fun i hi => updateChecksum_word hi
  have h1 : c.updateChecksum.checksum1 = c.calculateChecksum.1 := by
    rw [checksum1, updateChecksum, setChecksum2, word_setWord_of_ne (by decide), setChecksum1,
      word_setWord]
  rw [verifyChecksum, hsum, h1]
  simp

theorem memcmp_self : c.memcmp c = true := by
  simp [memcmp]

end Cxt

namespace Bank

variable {b : Bank} {i : Nat}

@[simp] theorem advance_flash : b.advance.flash = b.flash := rfl

@[simp] theorem advance_updatecount :
    b.advance.cxt.updatecount = b.cxt.updatecount - 1 := by
  simp only [advance, Cxt.updatecount]
  rw [Cxt.updateChecksum_word (by decide), Cxt.setNextcxtpage, Cxt.word_update_of_ne (by decide),
    Cxt.setUsn, Cxt.word_setWord_of_ne (by decide), Cxt.setUpdatecount, Cxt.word_setWord]

theorem advance_apply (h : 10 ≤ i) (hi : i < 0x3fc) : b.advance.cxt i = b.cxt i := by
  have h9 : i ≠ 9 := by omega
  have h0 : i / 2 ≠ 0 := by omega
  have h3 : i / 2 ≠ 3 := by omega
  simp only [advance]
  rw [Cxt.updateChecksum_apply hi, Cxt.setNextcxtpage, Function.update_of_ne h9, Cxt.setUsn,
    Cxt.setWord_apply h0, Cxt.setUpdatecount, Cxt.setWord_apply h3]

@[simp] theorem advance_activecxtblock :
    b.advance.cxt.activecxtblock = b.cxt.activecxtblock := by
  simp only [advance, Cxt.activecxtblock]
  rw [Cxt.updateChecksum_apply (by decide), Cxt.setNextcxtpage,
    Function.update_of_ne (by decide), Cxt.setUsn, Cxt.setWord_apply (by decide),
    Cxt.setUpdatecount, Cxt.setWord_apply (by decide)]

@[simp] theorem advance_nextcxtpage :
    b.advance.cxt.nextcxtpage = b.cxt.nextcxtpage + 8 := by
  simp only [advance, Cxt.nextcxtpage]
  rw [Cxt.updateChecksum_apply (by decide), Cxt.setNextcxtpage, Function.update_self,
    Cxt.setUsn, Cxt.setWord_apply (by decide), Cxt.setUpdatecount, Cxt.setWord_apply (by decide)]

theorem advance_vflcxtblocks (h : i < 4) :
    b.advance.cxt.vflcxtblocks i = b.cxt.vflcxtblocks i := by
  rw [Cxt.vflcxtblocks, advance_apply (by omega) (by omega), Cxt.vflcxtblocks]

theorem advance_verifies : b.advance.cxt.verifyChecksum = true := Cxt.updateChecksum_verifies

end Bank

/-! ## Pages -/

section Pages

variable {pagesperblock : Nat} {flash flash' : Flash} {block startpage page : Nat} {c : Cxt}
  {m : Spare} {r : Cxt × Spare}

theorem nandWritePage_of_ne {succeeds : Bool} {p : Nat} (h : p ≠ page) :
    nandWritePage flash page c m succeeds p = flash p :=
  Function.update_of_ne h _ _

/-- Programming a free page writes it or spoils it. -/
theorem nandWritePage_erased {succeeds : Bool} (h : flash page = .erased) :
    nandWritePage flash page c m succeeds page =
      if succeeds then .page c m else .unreadable := by
  rw [nandWritePage, Function.update_self, h, Cell.program]

/-- Whatever was there, a page that can be read after a program is the old or the new one. -/
theorem nandWritePage_read {succeeds : Bool} {p : Nat}
    (h : (nandWritePage flash page c m succeeds p).read = some r) :
    (flash p).read = some r ∨ r = (c, m) := by
  by_cases hp : p = page
  · subst hp
    rw [nandWritePage, Function.update_self] at h
    cases hc : flash p <;> cases succeeds <;> simp [hc, Cell.program, Cell.read] at h
    exact .inr h.symm
  · rw [nandWritePage_of_ne hp] at h
    exact .inl h

theorem nandBlockErase_of_ne {p : Nat} (h : p / pagesperblock ≠ page / pagesperblock) :
    nandBlockErase pagesperblock flash page p = flash p :=
  if_neg h

theorem nandBlockErase_erased {p : Nat} (h : p / pagesperblock = page / pagesperblock) :
    nandBlockErase pagesperblock flash page p = .erased :=
  if_pos h

theorem nandBlockErase_read {p : Nat}
    (h : (nandBlockErase pagesperblock flash page p).read = some r) :
    (flash p).read = some r := by
  by_cases hp : p / pagesperblock = page / pagesperblock
  · rw [nandBlockErase_erased hp] at h
    cases h
  · rwa [nandBlockErase_of_ne hp] at h

theorem nandBlockEraseFailed_read {survives : Nat → Bool} {p : Nat}
    (h : (nandBlockEraseFailed pagesperblock flash page survives p).read = some r) :
    (flash p).read = some r := by
  rw [nandBlockEraseFailed] at h
  split at h
  · cases h
  · exact h

theorem ftlVflReadPage_congr
    (h : ∀ i < 8, flash (block * pagesperblock + startpage + i) =
      flash' (block * pagesperblock + startpage + i)) :
    ftlVflReadPage pagesperblock flash block startpage =
      ftlVflReadPage pagesperblock flash' block startpage := by
  have hl : ∀ l : List Nat, (∀ i ∈ l, i < 8) →
      l.findSome? (fun i =>
        (flash (block * pagesperblock + startpage + i)).read.filter fun r => r.2.isVfl) =
      l.findSome? (fun i =>
        (flash' (block * pagesperblock + startpage + i)).read.filter fun r => r.2.isVfl) := by
    intro l hl
    induction l with
    | nil => rfl
    | cons i l ih =>
      rw [List.findSome?_cons, List.findSome?_cons, h i (hl i List.mem_cons_self),
        ih fun j hj => hl j (List.mem_cons_of_mem _ hj)]
  exact hl _ fun i hi => List.mem_range.1 hi

/-- What is read is one of the eight pages. -/
theorem ftlVflReadPage_some (h : ftlVflReadPage pagesperblock flash block startpage = some r) :
    ∃ i < 8, (flash (block * pagesperblock + startpage + i)).read = some r ∧
      r.2.isVfl = true := by
  obtain ⟨i, hi, hr⟩ := List.exists_of_findSome?_eq_some h
  rw [Option.filter_eq_some_iff] at hr
  exact ⟨i, List.mem_range.1 hi, hr.1, hr.2⟩

/-- A group without readable pages. -/
theorem ftlVflReadPage_none
    (h : ∀ i < 8, (flash (block * pagesperblock + startpage + i)).read = none) :
    ftlVflReadPage pagesperblock flash block startpage = none := by
  cases hr : ftlVflReadPage pagesperblock flash block startpage with
  | none => rfl
  | some r =>
    obtain ⟨i, hi, h', -⟩ := ftlVflReadPage_some hr
    rw [h i hi] at h'
    cases h'

/-- If every readable page of a group holds the same, and there is one, it is what is read. -/
theorem ftlVflReadPage_copies (hm : m.isVfl = true)
    (hall : ∀ i < 8, ∀ r, (flash (block * pagesperblock + startpage + i)).read = some r →
      r = (c, m))
    (hone : ∃ i < 8, (flash (block * pagesperblock + startpage + i)).read = some (c, m)) :
    ftlVflReadPage pagesperblock flash block startpage = some (c, m) := by
  obtain ⟨i, hi, hr⟩ := hone
  have hsome : (ftlVflReadPage pagesperblock flash block startpage).isSome := by
    rw [ftlVflReadPage, List.findSome?_isSome_iff]
    refine ⟨i, List.mem_range.2 hi, ?_⟩
    simp [hr, hm]
  obtain ⟨r, hr⟩ := Option.isSome_iff_exists.1 hsome
  obtain ⟨j, hj, h, -⟩ := ftlVflReadPage_some hr
  rw [hr, hall j hj r h]

/-- Pages of different blocks are different. -/
theorem page_ne {block' p p' : Nat} (hb : block ≠ block') (hp : p < pagesperblock)
    (hp' : p' < pagesperblock) : block * pagesperblock + p ≠ block' * pagesperblock + p' := by
  intro h
  have hpos : 0 < pagesperblock := by omega
  apply hb
  calc block = (block * pagesperblock + p) / pagesperblock := by
        rw [Nat.mul_comm, Nat.mul_add_div hpos, Nat.div_eq_of_lt hp, Nat.add_zero]
    _ = (block' * pagesperblock + p') / pagesperblock := by rw [h]
    _ = block' := by
        rw [Nat.mul_comm, Nat.mul_add_div hpos, Nat.div_eq_of_lt hp', Nat.add_zero]

theorem page_div {p : Nat} (hp : p < pagesperblock) :
    (block * pagesperblock + p) / pagesperblock = block * pagesperblock / pagesperblock := by
  have hpos : 0 < pagesperblock := by omega
  rw [Nat.mul_comm, Nat.mul_add_div hpos, Nat.div_eq_of_lt hp, Nat.add_zero,
    Nat.mul_div_cancel_left _ hpos]

end Pages

/-! ## Storing the copies -/

section Store

variable {pagesperblock : Nat} {flash : Flash} {c : Cxt} {programs : Nat → Bool} {p : Nat}
  {r : Cxt × Spare} {b : Bank} {luck : Luck}

theorem writeCopies_of_ne {is : List Nat} (h : ∀ i ∈ is, p ≠ copyPage pagesperblock c i) :
    writeCopies pagesperblock c programs is flash p = flash p := by
  induction is generalizing flash with
  | nil => rfl
  | cons i is ih =>
    rw [writeCopies, ih fun j hj => h j (List.mem_cons_of_mem _ hj),
      nandWritePage_of_ne (h i List.mem_cons_self)]

theorem writeCopies_read {is : List Nat}
    (h : (writeCopies pagesperblock c programs is flash p).read = some r) :
    (flash p).read = some r ∨ r = (c, storeSpare c) := by
  induction is generalizing flash with
  | nil => exact .inl h
  | cons i is ih =>
    rcases ih h with h' | h'
    · exact nandWritePage_read h'
    · exact .inr h'

/-- The store changes only the pages of its group. -/
theorem store_of_ne
    (h : ∀ i, 1 ≤ i → i ≤ 8 → p ≠ copyPage pagesperblock b.advance.cxt i) :
    (ftlVflStoreCxt pagesperblock programs b).1.flash p = b.flash p := by
  refine writeCopies_of_ne fun i hi => ?_
  have hi := List.mem_range'_1.1 hi
  exact h i hi.1 (by omega)

theorem store_read (h : ((ftlVflStoreCxt pagesperblock programs b).1.flash p).read = some r) :
    (b.flash p).read = some r ∨ r = (b.advance.cxt, storeSpare b.advance.cxt) :=
  writeCopies_read h

/-- A store that returns 0 leaves a copy that can be read. -/
theorem store_good (h : (ftlVflStoreCxt pagesperblock programs b).2 = 0) :
    ∃ i, 1 ≤ i ∧ i ≤ 8 ∧ ((ftlVflStoreCxt pagesperblock programs b).1.flash
      (copyPage pagesperblock b.advance.cxt i)).read ≠ none := by
  have hlen : 3 < ((List.range' 1 8).filter
      (goodCopy pagesperblock (ftlVflStoreCxt pagesperblock programs b).1.flash
        b.advance.cxt)).length := by
    by_contra hlen
    exact absurd (h.symm.trans (if_neg hlen)) (by decide)
  obtain ⟨i, hi⟩ := List.exists_mem_of_length_pos (Nat.lt_of_le_of_lt (Nat.zero_le 3) hlen)
  obtain ⟨hi, hgood⟩ := List.mem_filter.1 hi
  have hi := List.mem_range'_1.1 hi
  refine ⟨i, hi.1, by omega, fun hnone => ?_⟩
  rw [goodCopy, hnone] at hgood
  cases hgood

theorem eraseTries_read {i page : Nat} {js : List Nat}
    (h : ((eraseTries pagesperblock luck i page js flash).1 p).read = some r) :
    (flash p).read = some r := by
  induction js generalizing flash with
  | nil => exact h
  | cons j js ih =>
    rw [eraseTries] at h
    split at h
    · exact nandBlockErase_read h
    · exact nandBlockEraseFailed_read (ih h)

theorem eraseTries_erased {i page : Nat} {js : List Nat}
    (h : (eraseTries pagesperblock luck i page js flash).2 = true)
    (hp : p / pagesperblock = page / pagesperblock) :
    (eraseTries pagesperblock luck i page js flash).1 p = .erased := by
  induction js generalizing flash with
  | nil => cases h
  | cons j js ih =>
    rw [eraseTries] at h ⊢
    split at h
    · rename_i hj
      rw [if_pos hj]
      exact nandBlockErase_erased hp
    · rename_i hj
      rw [if_neg hj]
      exact ih h

end Store

/-! ## Valid banks -/

namespace Bank

variable (pagesperblock : Nat) (b : Bank)

/-- The active context block. -/
def block : Nat := (b.cxt.vflcxtblocks b.cxt.activecxtblock.toNat).toNat

/-- The group from page `startpage` of block `block`, as a mount reads it. -/
def group (block startpage : Nat) : Option (Cxt × Spare) :=
  ftlVflReadPage pagesperblock b.flash block startpage

/-- No copy in the first group of a context block is newer than the context in memory. -/
def Above : Prop :=
  ∀ i < 4, b.cxt.vflcxtblocks i ≠ 0xFFFF → ∀ k < 8, ∀ r,
    (b.flash ((b.cxt.vflcxtblocks i).toNat * pagesperblock + k)).read = some r →
      r.2.isVfl = true → 0 < r.2.usn → b.cxt.updatecount ≤ r.2.usn

/-- The active context block holds a context, and a mount would choose it: no other listed block
has a lower usn in its first group, nor the same at a later index. -/
structure Valid : Prop where
  active_lt : b.cxt.activecxtblock.toNat < 4
  listed : b.cxt.vflcxtblocks b.cxt.activecxtblock.toNat ≠ 0xFFFF
  next_le : b.cxt.nextcxtpage.toNat ≤ pagesperblock
  groups : ∃ n, b.cxt.nextcxtpage.toNat = 8 * (n + 1) ∧
    ∀ k ≤ n, (b.group pagesperblock b.block (8 * k)).isSome
  /-- The pages from `nextcxtpage` on are free. -/
  free : ∀ p, b.cxt.nextcxtpage.toNat ≤ p → p < pagesperblock →
    b.flash (b.block * pagesperblock + p) = .erased
  above : b.Above pagesperblock
  first : ∃ r, b.group pagesperblock b.block 0 = some r ∧ 0 < r.2.usn ∧
    ∀ i < 4, b.cxt.vflcxtblocks i ≠ 0xFFFF → ∀ q,
      b.group pagesperblock (b.cxt.vflcxtblocks i).toNat 0 = some q → 0 < q.2.usn →
        r.2.usn < q.2.usn ∨ (r.2.usn = q.2.usn ∧ i ≤ b.cxt.activecxtblock.toNat) ∨
          (b.cxt.vflcxtblocks i).toNat = b.block

/-- The last group below the next free page reads as the context in memory. -/
structure Holds : Prop where
  last : b.group pagesperblock b.block (b.cxt.nextcxtpage.toNat - 8) =
    some (b.cxt, storeSpare b.cxt)
  verifies : b.cxt.verifyChecksum = true

end Bank

/-! ## What a store does to a bank -/

section

variable {pagesperblock : Nat} {b b' : Bank} {programs : Nat → Bool} {luck : Luck}

theorem store_cxt : (ftlVflStoreCxt pagesperblock programs b).1.cxt = b.advance.cxt := rfl

theorem advance_next (h : b.cxt.nextcxtpage.toNat + 8 < 0x10000) :
    b.advance.cxt.nextcxtpage.toNat = b.cxt.nextcxtpage.toNat + 8 := by
  rw [Bank.advance_nextcxtpage, BitVec.toNat_add]
  exact Nat.mod_eq_of_lt h

theorem advance_block (ha : b.cxt.activecxtblock.toNat < 4) : b.advance.block = b.block := by
  rw [Bank.block, Bank.block, Bank.advance_activecxtblock, Bank.advance_vflcxtblocks ha]

theorem copyPage_advance (ha : b.cxt.activecxtblock.toNat < 4)
    (hn : b.cxt.nextcxtpage.toNat + 8 < 0x10000) {i : Nat} (hi : i ≤ 8) :
    copyPage pagesperblock b.advance.cxt i =
      b.block * pagesperblock + (b.cxt.nextcxtpage.toNat + (8 - i)) := by
  have hblock := advance_block ha
  rw [Bank.block] at hblock
  rw [copyPage, hblock, advance_next hn, Nat.add_sub_assoc hi]

/-- Another group reads as before. -/
theorem store_group_of_ne (ha : b.cxt.activecxtblock.toNat < 4)
    (hn : b.cxt.nextcxtpage.toNat + 8 ≤ pagesperblock) (hlt : pagesperblock < 0x10000)
    {block startpage : Nat} (hs : startpage + 8 ≤ pagesperblock)
    (h : block ≠ b.block ∨ startpage + 8 ≤ b.cxt.nextcxtpage.toNat) :
    (ftlVflStoreCxt pagesperblock programs b).1.group pagesperblock block startpage =
      b.group pagesperblock block startpage := by
  refine ftlVflReadPage_congr fun k hk => store_of_ne fun i hi hi8 => ?_
  rw [copyPage_advance ha (by omega) hi8, Nat.add_assoc]
  rcases h with h | h
  · exact page_ne h (by omega) (by omega)
  · by_cases hb : block = b.block
    · subst hb
      omega
    · exact page_ne hb (by omega) (by omega)

/-- The new group, if it was free and the store returned 0. -/
theorem store_group (ha : b.cxt.activecxtblock.toNat < 4)
    (hn : b.cxt.nextcxtpage.toNat + 8 ≤ pagesperblock) (hlt : pagesperblock < 0x10000)
    (hfree : ∀ p, b.cxt.nextcxtpage.toNat ≤ p → p < pagesperblock →
      b.flash (b.block * pagesperblock + p) = .erased)
    (hrc : (ftlVflStoreCxt pagesperblock programs b).2 = 0) :
    (ftlVflStoreCxt pagesperblock programs b).1.group pagesperblock b.block
      b.cxt.nextcxtpage.toNat = some (b.advance.cxt, storeSpare b.advance.cxt) := by
  have hcopy : ∀ k < 8, ∀ r, ((ftlVflStoreCxt pagesperblock programs b).1.flash
      (b.block * pagesperblock + b.cxt.nextcxtpage.toNat + k)).read = some r →
        r = (b.advance.cxt, storeSpare b.advance.cxt) := by
    intro k hk r hr
    rcases store_read hr with h | h
    · rw [Nat.add_assoc, hfree _ (by omega) (by omega)] at h
      cases h
    · exact h
  obtain ⟨i, hi, hi8, hread⟩ := store_good hrc
  rw [copyPage_advance ha (by omega) hi8, ← Nat.add_assoc] at hread
  obtain ⟨r, hr⟩ := Option.ne_none_iff_exists'.1 hread
  refine ftlVflReadPage_copies rfl hcopy ⟨8 - i, by omega, ?_⟩
  rw [hr, hcopy (8 - i) (by omega) r hr]

/-- The copies of a store are no newer than the context in memory. -/
theorem store_above (h : b.Above pagesperblock)
    (hdec : b.cxt.updatecount - 1 ≤ b.cxt.updatecount) :
    (ftlVflStoreCxt pagesperblock programs b).1.Above pagesperblock := by
  intro i hi hlisted k hk r hr hvfl husn
  rw [store_cxt, Bank.advance_vflcxtblocks hi] at hlisted hr
  rw [store_cxt, Bank.advance_updatecount]
  rcases store_read hr with h' | h'
  · exact BitVec.le_trans hdec (h i hi hlisted k hk r h' hvfl husn)
  · subst h'
    rw [storeSpare, Bank.advance_updatecount]
    exact BitVec.le_refl _

/-- A store into the free pages of a valid bank. -/
theorem store_valid (hv : b.Valid pagesperblock)
    (hn : b.cxt.nextcxtpage.toNat + 8 ≤ pagesperblock) (hlt : pagesperblock < 0x10000)
    (hdec : b.cxt.updatecount - 1 ≤ b.cxt.updatecount)
    (hrc : (ftlVflStoreCxt pagesperblock programs b).2 = 0) :
    (ftlVflStoreCxt pagesperblock programs b).1.Valid pagesperblock ∧
      (ftlVflStoreCxt pagesperblock programs b).1.Holds pagesperblock := by
  have ha := hv.active_lt
  have hnext : b.advance.cxt.nextcxtpage.toNat = b.cxt.nextcxtpage.toNat + 8 :=
    advance_next (by omega)
  have hblock : (ftlVflStoreCxt pagesperblock programs b).1.block = b.block := advance_block ha
  have hnew := store_group ha hn hlt hv.free hrc
  obtain ⟨n, hn8, hgroups⟩ := hv.groups
  obtain ⟨r, hr, hpos, hfirst⟩ := hv.first
  -- The first groups are as before: the store is at page 8 or later.
  have hold : ∀ block, (ftlVflStoreCxt pagesperblock programs b).1.group pagesperblock block 0 =
      b.group pagesperblock block 0 :=
    fun block => store_group_of_ne ha hn hlt (by omega) (.inr (by omega))
  constructor
  · refine ⟨?_, ?_, ?_, ⟨n + 1, ?_, ?_⟩, ?_, store_above hv.above hdec, ⟨r, ?_, hpos, ?_⟩⟩
    · rw [store_cxt, Bank.advance_activecxtblock]
      exact ha
    · rw [store_cxt, Bank.advance_activecxtblock, Bank.advance_vflcxtblocks ha]
      exact hv.listed
    · rw [store_cxt, hnext]
      exact hn
    · rw [store_cxt, hnext, hn8, Nat.mul_succ 8 (n + 1)]
    · intro k hk
      rw [hblock]
      by_cases hkn : k ≤ n
      · rw [store_group_of_ne ha hn hlt (by omega) (.inr (by omega))]
        exact hgroups k hkn
      · have hk' : 8 * k = b.cxt.nextcxtpage.toNat := by omega
        rw [hk', hnew]
        rfl
    · intro p hp hplt
      rw [store_cxt, hnext] at hp
      rw [hblock, store_of_ne fun i hi hi8 => ?_]
      · exact hv.free p (by omega) hplt
      · rw [copyPage_advance ha (by omega) hi8]
        omega
    · rw [hblock, hold]
      exact hr
    · intro i hi hlisted q hq
      rw [store_cxt, Bank.advance_vflcxtblocks hi] at hlisted hq
      rw [hold] at hq
      rw [store_cxt, Bank.advance_vflcxtblocks hi, Bank.advance_activecxtblock, hblock]
      exact hfirst i hi hlisted q hq
  · refine ⟨?_, Bank.advance_verifies⟩
    rw [hblock, store_cxt, hnext, Nat.add_sub_cancel]
    exact hnew

/-! ## Starting another block -/

/-- The bank with an erased block `i` made the active one. -/
@[grind =] def Bank.moved (b : Bank) (flash : Flash) (i : Nat) : Bank :=
  { b with
    flash := flash
    cxt := (b.cxt.setActivecxtblock (BitVec.ofNat 16 i)).setNextcxtpage 0 }

@[simp] theorem moved_flash {flash : Flash} {i : Nat} : (b.moved flash i).flash = flash := rfl

@[simp] theorem moved_updatecount {flash : Flash} {i : Nat} :
    (b.moved flash i).cxt.updatecount = b.cxt.updatecount := by
  rw [Bank.moved, Cxt.updatecount, Cxt.setNextcxtpage, Cxt.word_update_of_ne (by decide),
    Cxt.setActivecxtblock, Cxt.word_update_of_ne (by decide), Cxt.updatecount]

@[simp] theorem moved_vflcxtblocks {flash : Flash} {i k : Nat} :
    (b.moved flash i).cxt.vflcxtblocks k = b.cxt.vflcxtblocks k := by
  have h9 : 0x3d1 + k ≠ 9 := by omega
  have h8 : 0x3d1 + k ≠ 8 := by omega
  simp only [Bank.moved, Cxt.vflcxtblocks, Cxt.setNextcxtpage, Cxt.setActivecxtblock]
  rw [Function.update_of_ne h9, Function.update_of_ne h8]

@[simp] theorem moved_next {flash : Flash} {i : Nat} :
    (b.moved flash i).cxt.nextcxtpage = 0 := by
  simp only [Bank.moved, Cxt.nextcxtpage, Cxt.setNextcxtpage, Function.update_self]

theorem moved_active {flash : Flash} {i : Nat} (hi : i < 4) :
    (b.moved flash i).cxt.activecxtblock.toNat = i := by
  simp only [Bank.moved, Cxt.activecxtblock, Cxt.setNextcxtpage, Cxt.setActivecxtblock]
  rw [Function.update_of_ne (by decide), Function.update_self, BitVec.toNat_ofNat]
  omega

theorem moved_block {flash : Flash} {i : Nat} (hi : i < 4) :
    (b.moved flash i).block = (b.cxt.vflcxtblocks i).toNat := by
  rw [Bank.block, moved_active hi, moved_vflcxtblocks]

/-- Erasing leaves no copies behind that were not there before. -/
theorem Bank.Above.of_read {flash : Flash} {i : Nat} (h : b.Above pagesperblock)
    (hread : ∀ p r, (flash p).read = some r → (b.flash p).read = some r) :
    (b.moved flash i).Above pagesperblock := by
  intro k hk hlisted j hj r hr
  rw [moved_vflcxtblocks] at hlisted hr
  rw [moved_updatecount]
  exact h k hk hlisted j hj r (hread _ r hr)

/-- A store that starts the erased block `i`. -/
theorem moved_valid {flash : Flash} {i : Nat} (hi : i < 4)
    (hlisted : b.cxt.vflcxtblocks i ≠ 0xFFFF) (h8 : 8 ≤ pagesperblock)
    (hlt : pagesperblock < 0x10000) (habove : b.Above pagesperblock)
    (hread : ∀ p r, (flash p).read = some r → (b.flash p).read = some r)
    (herased : ∀ p < pagesperblock,
      flash ((b.cxt.vflcxtblocks i).toNat * pagesperblock + p) = .erased)
    (hpos : 0 < b.cxt.updatecount - 1) (hdec : b.cxt.updatecount - 1 < b.cxt.updatecount)
    (hrc : (ftlVflStoreCxt pagesperblock programs (b.moved flash i)).2 = 0) :
    (ftlVflStoreCxt pagesperblock programs (b.moved flash i)).1.Valid pagesperblock ∧
      (ftlVflStoreCxt pagesperblock programs (b.moved flash i)).1.Holds pagesperblock := by
  have hact : (b.moved flash i).cxt.activecxtblock.toNat = i := moved_active hi
  have ha : (b.moved flash i).cxt.activecxtblock.toNat < 4 := by rw [hact]; exact hi
  have hn0 : (b.moved flash i).cxt.nextcxtpage.toNat = 0 := by rw [moved_next]; rfl
  have hn : (b.moved flash i).cxt.nextcxtpage.toNat + 8 ≤ pagesperblock := by
    rw [hn0]
    exact h8
  have hnext : (b.moved flash i).advance.cxt.nextcxtpage.toNat = 8 := by
    rw [advance_next (by omega), hn0]
  have hblock : (ftlVflStoreCxt pagesperblock programs (b.moved flash i)).1.block =
      (b.cxt.vflcxtblocks i).toNat := by
    exact (advance_block ha).trans (moved_block hi)
  have hab : (b.moved flash i).Above pagesperblock := habove.of_read hread
  have hnew := store_group ha hn hlt
    (fun p _ hp => by rw [moved_block hi]; exact herased p hp) hrc
  rw [hn0, moved_block hi] at hnew
  constructor
  · refine ⟨?_, ?_, ?_, ⟨0, ?_, ?_⟩, ?_, store_above hab ?_,
      ⟨((b.moved flash i).advance.cxt, storeSpare (b.moved flash i).advance.cxt), ?_, ?_, ?_⟩⟩
    · rw [store_cxt, Bank.advance_activecxtblock]
      exact ha
    · rw [store_cxt, Bank.advance_activecxtblock, Bank.advance_vflcxtblocks ha, hact,
        moved_vflcxtblocks]
      exact hlisted
    · rw [store_cxt, hnext]
      exact h8
    · rw [store_cxt, hnext]
    · intro k hk
      obtain rfl := Nat.le_zero.1 hk
      rw [hblock, hnew]
      rfl
    · intro p hp hplt
      rw [store_cxt, hnext] at hp
      rw [hblock, store_of_ne fun k hk hk8 => ?_]
      · exact herased p hplt
      · rw [copyPage_advance ha (by omega) hk8, moved_block hi, hn0]
        omega
    · rw [moved_updatecount]
      exact BitVec.le_of_lt hdec
    · rw [hblock]
      exact hnew
    · rw [storeSpare, Bank.advance_updatecount, moved_updatecount]
      exact hpos
    · intro k hk hklisted q hq hqpos
      rw [store_cxt, Bank.advance_vflcxtblocks hk, moved_vflcxtblocks] at hklisted hq
      rw [store_cxt, Bank.advance_vflcxtblocks hk, moved_vflcxtblocks, hblock]
      by_cases hb : (b.cxt.vflcxtblocks k).toNat = (b.cxt.vflcxtblocks i).toNat
      · exact .inr (.inr hb)
      · -- The other blocks hold what they held before this store, with a higher count.
        rw [store_group_of_ne ha hn hlt (by omega)
          (.inl (by rw [moved_block hi]; exact hb))] at hq
        obtain ⟨j, hj, hr, hvfl⟩ := ftlVflReadPage_some hq
        have hle := hab k hk (by rw [moved_vflcxtblocks]; exact hklisted) j hj q
          (by rw [moved_vflcxtblocks, ← hr, Nat.add_zero]) hvfl hqpos
        rw [moved_updatecount] at hle
        rw [storeSpare, Bank.advance_updatecount, moved_updatecount]
        exact .inl (Nat.lt_of_lt_of_le (BitVec.lt_def.1 hdec) (BitVec.le_def.1 hle))
  · refine ⟨?_, Bank.advance_verifies⟩
    rw [hblock, store_cxt, hnext]
    exact hnew

/-! ## The commit -/

section Loop

variable {current rounds i : Nat}

/-- Erases, successful or not, lead from one flash to the other: nothing new can be read. -/
def Erasure (old new : Flash) : Prop :=
  ∀ p r, (new p).read = some r → (old p).read = some r

/-- One round of the loop that leads to a commit: the context block is not used, or it cannot be
erased, or the store into it fails, and the loop goes on; or the store is the last. -/
theorem commitLoop_cases
    (h : commitLoop pagesperblock luck current (rounds + 1) i b = some b') :
    commitLoop pagesperblock luck current rounds ((i + 1) &&& 3) b = some b' ∨
      ∃ flash, Erasure b.flash flash ∧
        (commitLoop pagesperblock luck current rounds ((i + 1) &&& 3) { b with flash := flash } =
            some b' ∨
          b.cxt.vflcxtblocks ((i + 1) &&& 3) ≠ 0xFFFF ∧
          (∀ p < pagesperblock,
            flash ((b.cxt.vflcxtblocks ((i + 1) &&& 3)).toNat * pagesperblock + p) = .erased) ∧
          ∃ b1 rc, ftlVflStoreCxt pagesperblock (luck.programs ((i + 1) &&& 3))
              (b.moved flash ((i + 1) &&& 3)) = (b1, rc) ∧
            (rc = 0 ∧ b' = b1 ∨
              commitLoop pagesperblock luck current rounds ((i + 1) &&& 3) b1 = some b')) := by
  simp only [commitLoop] at h
  split at h
  · cases h
  · split at h
    · exact .inl h
    · rename_i hlisted
      generalize he : eraseTries pagesperblock luck ((i + 1) &&& 3)
        ((b.cxt.vflcxtblocks ((i + 1) &&& 3)).toNat * pagesperblock) (List.range 4) b.flash = e at h
      have hread : Erasure b.flash e.1 := fun p r hr => eraseTries_read (he ▸ hr)
      refine .inr ⟨e.1, hread, ?_⟩
      split at h
      · exact .inl h
      · rename_i herased
        have hdone : e.2 = true := by simpa using herased
        refine .inr ⟨hlisted, fun p hp => ?_, _, _, rfl, ?_⟩
        · rw [← he] at hdone ⊢
          exact eraseTries_erased hdone (page_div hp)
        · split at h
          · rename_i hrc
            exact .inl ⟨hrc, (Option.some.inj h).symm⟩
          · exact .inr h

/-- Each store takes one from the update count. -/
theorem commitLoop_updatecount
    (h : commitLoop pagesperblock luck current rounds i b = some b') :
    ∃ k ≤ rounds, b'.cxt.updatecount = b.cxt.updatecount - BitVec.ofNat 32 k := by
  induction rounds generalizing i b with
  | zero => cases h
  | succ rounds ih =>
    rcases commitLoop_cases h with h | ⟨flash, -, h | ⟨-, -, b1, rc, hs, h⟩⟩
    · obtain ⟨k, hk, hu⟩ := ih h
      exact ⟨k, by omega, hu⟩
    · obtain ⟨k, hk, hu⟩ := ih h
      exact ⟨k, by omega, hu⟩
    · have hone : b1.cxt.updatecount = b.cxt.updatecount - 1 := by
        cases hs
        rw [Bank.advance_updatecount, moved_updatecount]
      rcases h with ⟨-, rfl⟩ | h
      · exact ⟨1, by omega, hone⟩
      · obtain ⟨k, hk, hu⟩ := ih h
        refine ⟨k + 1, by omega, ?_⟩
        rw [hu, hone, BitVec.sub_sub, BitVec.ofNat_add, BitVec.add_comm]
        rfl

/-- If the count after a few more stores is below the one before them, they did not exhaust it. -/
theorem not_exhausted {u v : BitVec 32} {k : Nat} (hk : k ≤ 4) (hv : v = u - 1 - BitVec.ofNat 32 k)
    (hpos : 0 < v) (hle : v ≤ u) : 0 < u - 1 ∧ u - 1 < u ∧ v ≤ u - 1 := by
  subst hv
  bv_omega

/-- A block that the loop stores the context into is then the one a mount chooses: its first group
is newer than everything on the flash. -/
theorem commitLoop_spec (h8 : 8 ≤ pagesperblock) (hlt : pagesperblock < 0x10000)
    (hrounds : rounds ≤ 4) (habove : b.Above pagesperblock)
    (h : commitLoop pagesperblock luck current rounds i b = some b')
    (hpos : 0 < b'.cxt.updatecount) (hle : b'.cxt.updatecount ≤ b.cxt.updatecount) :
    b'.Valid pagesperblock ∧ b'.Holds pagesperblock := by
  induction rounds generalizing i b with
  | zero => cases h
  | succ rounds ih =>
    rcases commitLoop_cases h with h | ⟨flash, hread, h | ⟨hlisted, herased, b1, rc, hs, h⟩⟩
    · exact ih (by omega) habove h hle
    · refine ih (by omega) ?_ h hle
      exact fun k hk hl j hj r hr => habove k hk hl j hj r (hread _ r hr)
    · have hi : (i + 1) &&& 3 < 4 := Nat.lt_succ_of_le Nat.and_le_right
      have hone : b1.cxt.updatecount = b.cxt.updatecount - 1 := by
        cases hs
        rw [Bank.advance_updatecount, moved_updatecount]
      have hrest : ∃ k ≤ 4, b'.cxt.updatecount =
          b.cxt.updatecount - 1 - BitVec.ofNat 32 k := by
        rcases h with ⟨-, rfl⟩ | h
        · exact ⟨0, by omega, by rw [hone]; bv_omega⟩
        · obtain ⟨k, hk, hu⟩ := commitLoop_updatecount h
          exact ⟨k, by omega, by rw [hu, hone]⟩
      obtain ⟨k, hk, hu⟩ := hrest
      obtain ⟨hpos1, hdec, hle1⟩ := not_exhausted hk hu hpos hle
      rcases h with ⟨hrc, rfl⟩ | h
      · have hrc : (ftlVflStoreCxt pagesperblock (luck.programs ((i + 1) &&& 3))
            (b.moved flash ((i + 1) &&& 3))).2 = 0 := by rw [hs]; exact hrc
        have hmoved := moved_valid hi hlisted h8 hlt habove hread herased hpos1 hdec hrc
        rw [hs] at hmoved
        exact hmoved
      · refine ih (by omega) ?_ h (by rw [hone]; exact hle1)
        have hmoved : (b.moved flash ((i + 1) &&& 3)).Above pagesperblock := habove.of_read hread
        have hab : (ftlVflStoreCxt pagesperblock (luck.programs ((i + 1) &&& 3))
            (b.moved flash ((i + 1) &&& 3))).1.Above pagesperblock :=
          store_above hmoved (by rw [moved_updatecount]; exact BitVec.le_of_lt hdec)
        rw [hs] at hab
        exact hab

end Loop

/-- A commit stores into the active block if that has room, and else or after a failure goes
through the other ones. -/
theorem commit_cases (h : ftlVflCommitCxt pagesperblock luck b = some b') :
    (∃ current i, commitLoop pagesperblock luck current 4 i b = some b') ∨
      b.cxt.nextcxtpage.toNat + 8 ≤ pagesperblock ∧
      ∃ b1 rc, ftlVflStoreCxt pagesperblock (luck.programs b.cxt.activecxtblock.toNat) b =
          (b1, rc) ∧
        (rc = 0 ∧ b' = b1 ∨ ∃ current i, commitLoop pagesperblock luck current 4 i b1 = some b') := by
  rw [ftlVflCommitCxt] at h
  by_cases hn : b.cxt.nextcxtpage.toNat + 8 ≤ pagesperblock
  · rw [if_pos hn] at h
    refine .inr ⟨hn, _, _, rfl, ?_⟩
    by_cases hrc : (ftlVflStoreCxt pagesperblock
        (luck.programs b.cxt.activecxtblock.toNat) b).2 = 0
    · exact .inl ⟨hrc, (Option.some.inj ((if_pos hrc).symm.trans h)).symm⟩
    · exact .inr ⟨_, _, (if_neg hrc).symm.trans h⟩
  · rw [if_neg hn] at h
    exact .inl ⟨_, _, h⟩

/-- A commit that returns 0 leaves a valid bank whose last group holds the context, unless the
update count ran out. -/
theorem commit_spec (h8 : 8 ≤ pagesperblock) (hlt : pagesperblock < 0x10000)
    (hv : b.Valid pagesperblock) (h : ftlVflCommitCxt pagesperblock luck b = some b')
    (hpos : 0 < b'.cxt.updatecount) (hdec : b'.cxt.updatecount < b.cxt.updatecount) :
    b'.Valid pagesperblock ∧ b'.Holds pagesperblock := by
  rcases commit_cases h with ⟨_, _, h⟩ | ⟨hn, b1, rc, hs, h⟩
  · exact commitLoop_spec h8 hlt (Nat.le_refl 4) hv.above h hpos (BitVec.le_of_lt hdec)
  · have hone : b1.cxt.updatecount = b.cxt.updatecount - 1 := by
      cases hs
      exact Bank.advance_updatecount
    rcases h with ⟨hrc, rfl⟩ | ⟨_, _, h⟩
    · rw [hone] at hdec
      have hrc : (ftlVflStoreCxt pagesperblock
          (luck.programs b.cxt.activecxtblock.toNat) b).2 = 0 := by rw [hs]; exact hrc
      have hvalid := store_valid hv hn hlt (BitVec.le_of_lt hdec) hrc
      rw [hs] at hvalid
      exact hvalid
    · obtain ⟨k, hk, hu⟩ := commitLoop_updatecount h
      rw [hone] at hu
      obtain ⟨-, hdec1, hle1⟩ := not_exhausted hk hu hpos (BitVec.le_of_lt hdec)
      have hab : (ftlVflStoreCxt pagesperblock
          (luck.programs b.cxt.activecxtblock.toNat) b).1.Above pagesperblock :=
        store_above hv.above (BitVec.le_of_lt hdec1)
      rw [hs] at hab
      exact commitLoop_spec h8 hlt (Nat.le_refl 4) hab h hpos (by rw [hone]; exact hle1)

/-! ## The list of context blocks -/

/-- The context in memory and every copy in the pages `region` list the context blocks `list`. -/
structure Bank.Lists (region : Nat → Prop) (list : Nat → BitVec 16) (b : Bank) : Prop where
  cxt : ∀ i < 4, b.cxt.vflcxtblocks i = list i
  copies : ∀ p, region p → ∀ r, (b.flash p).read = some r → r.2.isVfl = true →
    ∀ i < 4, r.1.vflcxtblocks i = list i

section Lists

variable {region : Nat → Prop} {list : Nat → BitVec 16}

theorem Bank.Lists.store (h : b.Lists region list) :
    (ftlVflStoreCxt pagesperblock programs b).1.Lists region list := by
  have hcxt : ∀ i < 4, b.advance.cxt.vflcxtblocks i = list i := fun i hi => by
    rw [Bank.advance_vflcxtblocks hi, h.cxt i hi]
  refine ⟨hcxt, fun p hp r hr hvfl => ?_⟩
  rcases store_read hr with h' | h'
  · exact h.copies p hp r h' hvfl
  · subst h'
    exact hcxt

theorem Bank.Lists.moved {flash : Flash} {i : Nat} (h : b.Lists region list)
    (hread : Erasure b.flash flash) : (b.moved flash i).Lists region list :=
  ⟨fun k hk => by rw [moved_vflcxtblocks, h.cxt k hk],
    fun p hp r hr => h.copies p hp r (hread p r hr)⟩

theorem Bank.Lists.commitLoop {current rounds i : Nat} (hl : b.Lists region list)
    (h : commitLoop pagesperblock luck current rounds i b = some b') :
    b'.Lists region list := by
  induction rounds generalizing i b with
  | zero => cases h
  | succ rounds ih =>
    rcases commitLoop_cases h with h | ⟨flash, hread, h | ⟨-, -, b1, rc, hs, h⟩⟩
    · exact ih hl h
    · have hsame : ({ b with flash := flash } : Bank).Lists region list :=
        ⟨hl.cxt, fun p hp r hr => hl.copies p hp r (hread p r hr)⟩
      exact ih hsame h
    · have hmoved : (b.moved flash ((i + 1) &&& 3)).Lists region list := hl.moved hread
      have hstore : (ftlVflStoreCxt pagesperblock (luck.programs ((i + 1) &&& 3))
          (b.moved flash ((i + 1) &&& 3))).1.Lists region list := hmoved.store
      rw [hs] at hstore
      rcases h with ⟨-, rfl⟩ | h
      · exact hstore
      · exact ih hstore h

theorem Bank.Lists.commit (hl : b.Lists region list)
    (h : ftlVflCommitCxt pagesperblock luck b = some b') : b'.Lists region list := by
  rcases commit_cases h with ⟨_, _, h⟩ | ⟨-, b1, rc, hs, h⟩
  · exact hl.commitLoop h
  · have hstore : (ftlVflStoreCxt pagesperblock
        (luck.programs b.cxt.activecxtblock.toNat) b).1.Lists region list := hl.store
    rw [hs] at hstore
    rcases h with ⟨-, rfl⟩ | ⟨_, _, h⟩
    · exact hstore
    · exact hstore.commitLoop h

end Lists

end

end Freemyipod.Vfl
