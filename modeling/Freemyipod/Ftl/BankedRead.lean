import Freemyipod.Ftl.Read
import Freemyipod.Vfl.Remap

/-!
# Ftl.BankedRead

How `ftl_read` gets at its sectors: page by page with `ftl_vfl_read`, and, where a group of pages
lies at one place on all banks, with `nand_read_page_fast`, which reads the banks together.

The chips hold pages that are erased or written, and with each written page what the ECC unit makes
of it. `nand_read_page_fast` collects a status for each bank, but what it returns is the status of
the banks that are absent.

* `ftlRead_combine`, `ftlReadEach_combine`: a call, and a call for each sector, put together what
  each position is read as.
* `multiRead_iff`: the two agree, and errors and erased pages are told, exactly if the pages that
  are read on all banks at once give no reason to look at their status.
-/

namespace Freemyipod
namespace Ftl
namespace Banked

/-! ## The chips -/

/-- What the part of a buffer for one page holds. -/
inductive Buf (α : Type) where
  | sector (a : α)
  | zeros
  | ones
  /-- Data of a page that the ECC unit could not correct. -/
  | garbage
deriving DecidableEq

/-- A page. `dataEcc` and `ctrlEcc` are the results of the ECC unit for its data and for the first
bytes of its spare area: the lowest bit says that they could not be corrected. The ECC mark is
among those bytes, `rawmark` as it is transferred and `eccmark` after the correction. -/
inductive NandPage (α : Type) where
  | erased (dataEcc ctrlEcc : BitVec 4)
  | written (data : α) (eccmark rawmark : BitVec 8) (dataEcc ctrlEcc : BitVec 4)

namespace NandPage

variable {α : Type}

def isErased : NandPage α → Bool
  | erased _ _ => true
  | written _ _ _ _ _ => false

def dataEcc : NandPage α → BitVec 4
  | erased dataEcc _ => dataEcc
  | written _ _ _ dataEcc _ => dataEcc

def ctrlEcc : NandPage α → BitVec 4
  | erased _ ctrlEcc => ctrlEcc
  | written _ _ _ _ ctrlEcc => ctrlEcc

def eccmark : NandPage α → BitVec 8
  | erased _ _ => 0xFF
  | written _ eccmark _ _ _ => eccmark

def rawmark : NandPage α → BitVec 8
  | erased _ _ => 0xFF
  | written _ _ rawmark _ _ => rawmark

def dataFails (p : NandPage α) : Bool := p.dataEcc.getLsbD 0

def ctrlFails (p : NandPage α) : Bool := p.ctrlEcc.getLsbD 0

/-- The data buffer after the ECC unit has been at it. -/
def content (p : NandPage α) : Buf α :=
  match p with
  | erased _ _ => .ones
  | written data _ _ _ _ => if p.dataFails then .garbage else .sector data

/-- The return code of `nand_read_page`, with `doecc` and `checkempty`. -/
def readRc (p : NandPage α) : Nat :=
  (p.dataEcc.toNat &&& 0xF) <<< 4 ||| (p.ctrlEcc.toNat &&& 0xF) <<< 8 |||
    (if p.isErased then 1 else 0) <<< 1

/-- The ECC mark that `nand_read_page` leaves in the spare buffer. -/
def readMark (p : NandPage α) : BitVec 8 := if p.ctrlFails then 0xFF else p.eccmark

/-- `status[i]` in `nand_read_page_fast`, for a bank that is there. -/
def fastStatus (p : NandPage α) : Nat :=
  if p.dataFails then 4
  else (if p.ctrlFails then 8 else 0) ||| (if p.isErased then 1 else 0) <<< 1

/-- The ECC mark that `nand_read_page_fast` leaves in the spare buffer. -/
def fastMark (p : NandPage α) : BitVec 8 := if p.dataFails then p.rawmark else p.readMark

end NandPage

end Banked

namespace Device

variable (d : Device)

def syshyperblocks : Nat := d.type.blocks - d.type.userblocks - 0x17

end Device

namespace Banked

section Places

variable (d : Device)

def abspageOf (vpage : Nat) : Nat := wrap (vpage + d.ppb * d.syshyperblocks)

def bankOf (abspage : Nat) : Nat := abspage &&& (d.banks - 1)

def blockOf (abspage : Nat) : Nat := abspage >>> (d.type.blocksizeexponent + d.banksExponent)

def pageInBlock (abspage : Nat) : Nat :=
  (abspage >>> d.banksExponent) &&& (1 <<< d.type.blocksizeexponent - 1)

end Places

/-- The pages of the chips, by bank and physical page, and the VFL contexts. -/
structure Chips (α : Type) where
  page : Nat → Nat → NandPage α
  cxt : Nat → Vfl.RemapCxt

/-- The part of the data buffer for one page, and the ECC mark in the spare buffer for it. -/
abbrev Slot (α : Type) := Buf α × BitVec 8

namespace Chips

variable {α : Type} (d : Device) (c : Chips α)

def nandReadPage (bank page : Nat) : Nat × Slot α :=
  ((c.page bank page).readRc, (c.page bank page).content, (c.page bank page).readMark)

/-- `nand_read_page_fast`. The banks from `ftl_banks` on are absent. -/
def nandReadPageFast (page : Nat) (slots : Nat → Slot α) : Nat × (Nat → Slot α) :=
  let status := fun i => if i < d.banks then (c.page i page).fastStatus else 1
  -- the status of a bank counts if its `nand_type` is negative
  ((List.range 4).foldl (fun rc i => if d.banks ≤ i then rc ||| status i <<< (i <<< 2) else rc) 0,
    fun i => if i < d.banks then ((c.page i page).content, (c.page i page).fastMark) else slots i)

/-- `ftl_vfl_schedule_block_for_remap`, which panics unless the block is scheduled already. -/
def scheduleBlockForRemap (bank block : Nat) : Option Unit :=
  if (c.cxt bank).checkRemapScheduled (BitVec.ofNat 32 block) then some () else none

/-! ## The VFL -/

/-- The test for a page that could not be read and is not empty. -/
def Fails (ret : Nat) : Prop := ret &&& 0x11D ≠ 0 ∧ ret &&& 2 = 0

instance (ret : Nat) : Decidable (Fails ret) := inferInstanceAs (Decidable (_ ∧ _))

/-- `ftl_vfl_read(vpage, .., 1, 1)`; nothing if the thread is killed. -/
def vflRead (vpage : Nat) (slot : Slot α) : Option (Nat × Slot α) :=
  let abspage := abspageOf d vpage
  if d.type.blocks * d.ppb ≤ abspage ∨ abspage < d.ppb then some (4, slot)
  else
    let bank := bankOf d abspage
    let block := blockOf d abspage
    let physblock := (c.cxt bank).getPhysicalBlock block
    let physpage := physblock * d.type.pagesperblock + pageInBlock d abspage
    let r := c.nandReadPage bank physpage
    if Fails r.1 then
      -- after `nand_reset` the page is read once more
      let r := c.nandReadPage bank physpage
      if Fails r.1 then (c.scheduleBlockForRemap bank block).map fun _ => r else some r
    else some r

/-- The loop of `ftl_vfl_read_fast` that reads the banks one by one. -/
def readEachBank (vpage : Nat) (slots : Nat → Slot α) : Nat → Option (Nat × (Nat → Slot α))
  | 0 => some (0, slots)
  | i + 1 =>
    (readEachBank vpage slots i).bind fun r =>
      (c.vflRead d (vpage + i) (r.2 i)).map fun p =>
        (r.1 ||| bankBits p.1 <<< (i <<< 2), upd r.2 i p.2)

/-- The loop of `ftl_vfl_read_fast` that reads the pages that failed once more. -/
def retryBanks (block physpage : Nat) (r : Nat × (Nat → Slot α)) :
    Nat → Option (Nat × (Nat → Slot α))
  | 0 => some r
  | i + 1 =>
    (retryBanks block physpage r i).bind fun r =>
      if r.1 >>> (i <<< 2) &&& 2 ≠ 0 then some r
      else if r.1 >>> (i <<< 2) &&& 0xd ≠ 0 then
        let rc := r.1 ^^^ (r.1 &&& 0xf <<< (i <<< 2))
        let p := c.nandReadPage i physpage
        (if Fails p.1 then c.scheduleBlockForRemap i block else some ()).map fun _ =>
          (rc ||| bankBits p.1 <<< (i <<< 2), upd r.2 i p.2)
      else some r

/-- `remapped` in `ftl_vfl_read_fast`. -/
def remapped (block : Nat) : Bool :=
  (List.range d.banks).any fun i => (c.cxt i).getPhysicalBlock block != block

/-- `ftl_vfl_read_fast(vpage, .., 1, 1)`. -/
def vflReadFast (vpage : Nat) (slots : Nat → Slot α) : Option (Nat × (Nat → Slot α)) :=
  let abspage := abspageOf d vpage
  if d.type.blocks * d.ppb ≤ wrap (abspage + d.banks - 1) ∨ abspage < d.ppb then some (4, slots)
  else
    let block := blockOf d abspage
    if bankOf d abspage ≠ 0 ∨ c.remapped d block then c.readEachBank d vpage slots d.banks
    else
      let physpage := block * d.type.pagesperblock + pageInBlock d abspage
      let r := c.nandReadPageFast d physpage slots
      if r.1 &&& 0xdddd = 0 then some r else c.retryBanks block physpage r d.banks

end Chips

/-! ## The FTL -/

/-- The buffer of `ftl_read`, its return code so far, and the ECC marks in `ftl_sparebuffer`. -/
structure Reading (α : Type) where
  error : Int
  buffer : Nat → Buf α
  spare : Nat → BitVec 8

namespace Reading

variable {α : Type} (r : Reading α)

/-- A page read into the buffer at `i`: `empty` and `failed` are the tests on the return code and
the ECC mark. -/
def store (i : Nat) (empty failed : Bool) (data : Buf α) (code : Int) : Reading α :=
  if empty then { r with buffer := upd r.buffer i .zeros }
  else if failed then { r with error := code, buffer := upd r.buffer i .zeros }
  else { r with buffer := upd r.buffer i data }

/-- `for (j = 0; j < n; j++) ..` after a fast read of the pages from `i` on. -/
def storeBanks (i ret : Nat) (slots : Nat → Slot α) : Nat → Reading α
  | 0 => { r with spare := fun j => (slots j).2 }
  | j + 1 =>
    (storeBanks i ret slots j).store (i + j) (ret &&& 2 <<< (j <<< 2) ≠ 0)
      (ret &&& 0xd <<< (j <<< 2) ≠ 0 ∨ (slots j).2 ≠ 0xFF) (slots j).1 (-3)

end Reading

variable {α : Type} (d : Device) (s : State α) (c : Chips α)

/-- The test in `ftl_read` for reading from all banks at once. -/
def TakesFast (sector count i : Nat) : Prop :=
  i + d.banks ≤ count ∧ wrap (sector + i) % d.ppb &&& (d.banks - 1) = 0 ∧
    s.getLogEntry (wrap (sector + i) / d.ppb) = none

instance (sector count i : Nat) : Decidable (TakesFast d s sector count i) :=
  inferInstanceAs (Decidable (_ ∧ _ ∧ _))

/-- The virtual page of the sector at `i`. -/
def vpageAt (sector i : Nat) : Nat :=
  s.abspage d (wrap (sector + i) / d.ppb) (wrap (sector + i) % d.ppb)

/-- The loop of `ftl_read` from turn `i`, with `n` turns at most to go. -/
def readLoop (sector count : Nat) : Nat → Nat → Reading α → Option (Reading α)
  | 0, _, r => some r
  | n + 1, i, r =>
    if count ≤ i then some r
    else if TakesFast d s sector count i then
      (c.vflReadFast d (vpageAt d s sector i) fun j => (r.buffer (i + j), r.spare j)).bind fun p =>
        readLoop sector count n (i + d.banks) (r.storeBanks i p.1 p.2 d.banks)
    else
      (c.vflRead d (vpageAt d s sector i) (r.buffer i, r.spare 0)).bind fun p =>
        readLoop sector count n (i + 1)
          (({ r with spare := upd r.spare 0 p.2.2 } : Reading α).store i (p.1 &&& 2 ≠ 0)
            (p.1 &&& 0x11D ≠ 0 ∨ p.2.2 ≠ 0xFF) p.2.1 (-4))

/-- `ftl_read`, of an FTL that is initialized; nothing if the thread is killed. -/
def ftlRead (sector count : Nat) (buffer : Nat → Buf α) (spare : Nat → BitVec 8) :
    Option (Reading α) :=
  if d.sectors < wrap (sector + count) then some ⟨-2, buffer, spare⟩
  else readLoop d s c sector count count 0 ⟨0, buffer, spare⟩

/-- The first `n` of separate calls for one sector each: the last error and the whole buffer. -/
def ftlReadEach (sector : Nat) (buffer : Nat → Buf α) (spare : Nat → BitVec 8) :
    Nat → Option (Reading α)
  | 0 => some ⟨0, buffer, spare⟩
  | i + 1 =>
    (ftlReadEach sector buffer spare i).bind fun r =>
      (ftlRead d s c (sector + i) 1 (fun k => r.buffer (i + k)) r.spare).map fun q =>
        ⟨if q.error ≠ 0 then q.error else r.error, upd r.buffer i (q.buffer 0), q.spare⟩

/-! ## Return codes -/

section Bits

theorem readRc_bits (a b : BitVec 4) (e : Bool) :
    let rc := (a.toNat &&& 0xF) <<< 4 ||| (b.toNat &&& 0xF) <<< 8 ||| (if e then 1 else 0) <<< 1
    (rc &&& 2 ≠ 0 ↔ e = true) ∧ (rc &&& 0x11D ≠ 0 ↔ (a.getLsbD 0 || b.getLsbD 0) = true) ∧
      bankBits rc < 16 ∧ (bankBits rc &&& 2 ≠ 0 ↔ e = true) ∧
      (bankBits rc &&& 0xd ≠ 0 ↔ (a.getLsbD 0 || b.getLsbD 0) = true) := by
  revert a b e
  decide

namespace NandPage

variable (p : NandPage α)

/-- The ECC unit cannot correct the page, which is not erased. -/
def Uncorrectable : Prop := p.isErased = false ∧ (p.dataFails || p.ctrlFails) = true

instance : Decidable p.Uncorrectable := inferInstanceAs (Decidable (_ ∧ _))

theorem rc_empty : p.readRc &&& 2 ≠ 0 ↔ p.isErased = true := (readRc_bits _ _ _).1

theorem rc_fails : p.readRc &&& 0x11D ≠ 0 ↔ (p.dataFails || p.ctrlFails) = true :=
  (readRc_bits _ _ _).2.1

theorem bits_lt : bankBits p.readRc < 16 := (readRc_bits _ _ _).2.2.1

theorem bits_empty : bankBits p.readRc &&& 2 ≠ 0 ↔ p.isErased = true := (readRc_bits _ _ _).2.2.2.1

theorem bits_fails : bankBits p.readRc &&& 0xd ≠ 0 ↔ (p.dataFails || p.ctrlFails) = true :=
  (readRc_bits _ _ _).2.2.2.2

theorem fails_iff : Chips.Fails p.readRc ↔ p.Uncorrectable := by
  rw [Chips.Fails, p.rc_fails, Uncorrectable, and_comm, ← Bool.not_eq_true, ← p.rc_empty, not_not]

/-- What a page is read as on its own: whether an error is reported, and the data. -/
@[grind =] def slow : Bool × Buf α :=
  if p.isErased then (false, .zeros)
  else if (p.dataFails || p.ctrlFails) = true ∨ p.readMark ≠ 0xFF then (true, .zeros)
  else (false, p.content)

/-- What it is read as on all banks at once. -/
@[grind =] def fast : Bool × Buf α := if p.fastMark ≠ 0xFF then (true, .zeros) else (false, p.content)

end NandPage

/-- The nibbles below `n`, packed. -/
def pack (nib : Nat → Nat) : Nat → Nat
  | 0 => 0
  | n + 1 => pack nib n ||| nib n <<< (n <<< 2)

theorem and_shift_ne_zero (x m k : Nat) : x &&& m <<< k ≠ 0 ↔ x >>> k &&& m ≠ 0 := by
  have heq : x &&& m <<< k = (x >>> k &&& m) <<< k := by
    refine Nat.eq_of_testBit_eq fun i => ?_
    simp only [Nat.testBit_and, Nat.testBit_shiftLeft, Nat.testBit_shiftRight]
    by_cases hi : k ≤ i
    · simp [hi, Nat.add_sub_cancel' hi]
    · simp [hi]
  rw [heq, Nat.shiftLeft_eq, Ne, Nat.mul_eq_zero, not_or]
  exact and_iff_left (Nat.two_pow_pos k).ne'

theorem nibble_testBit {x : Nat} (hx : x < 16) {i : Nat} (hi : 4 ≤ i) : x.testBit i = false := by
  have hpow : 2 ^ 4 ≤ 2 ^ i := Nat.pow_le_pow_right (by decide) hi
  exact Nat.testBit_lt_two_pow (Nat.lt_of_lt_of_le hx hpow)

theorem pack_testBit {nib : Nat → Nat} (hnib : ∀ i, nib i < 16) {n j b : Nat} (hb : b < 4) :
    (pack nib n).testBit (4 * j + b) = (decide (j < n) && (nib j).testBit b) := by
  induction n with
  | zero => simp [pack]
  | succ n ih =>
    have hshift : n <<< 2 = 4 * n := by
      rw [Nat.shiftLeft_eq]
      omega
    rw [pack, Nat.testBit_or, ih, Nat.testBit_shiftLeft, hshift]
    rcases Nat.lt_trichotomy j n with hlt | heq | hgt
    · have hlow : ¬ 4 * n ≤ 4 * j + b := by omega
      have hlt' : j < n + 1 := by omega
      simp [hlow, hlt, hlt']
    · subst heq
      have hidx : 4 * j + b - 4 * j = b := by omega
      rw [hidx]
      simp
    · have hhigh : (nib n).testBit (4 * j + b - 4 * n) = false :=
        nibble_testBit (hnib n) (by omega)
      have hge : ¬ j < n + 1 := by omega
      rw [hhigh]
      simp [Nat.not_lt.2 hgt.le, hge]

theorem pack_and {nib : Nat → Nat} (hnib : ∀ i, nib i < 16) {n j m : Nat} (hm : m < 16)
    (hj : j < n) : pack nib n &&& m <<< (j <<< 2) ≠ 0 ↔ nib j &&& m ≠ 0 := by
  rw [and_shift_ne_zero]
  have heq : pack nib n >>> (j <<< 2) &&& m = nib j &&& m := by
    refine Nat.eq_of_testBit_eq fun i => ?_
    rw [Nat.testBit_and, Nat.testBit_and, Nat.testBit_shiftRight, Nat.shiftLeft_eq]
    by_cases hi : i < 4
    · have hidx : j * 2 ^ 2 + i = 4 * j + i := by omega
      rw [hidx, pack_testBit hnib hi]
      simp [hj]
    · rw [nibble_testBit hm (by omega), Bool.and_false, Bool.and_false]
  rw [heq]

end Bits

/-! ## Places -/

section Places

theorem table_blocks : ∀ t ∈ nandDeviceinfotable,
    t.userblocks + 0x17 < t.blocks ∧ t.blocks ≤ 8320 := by
  decide

variable {d c} {vpage a j : Nat}

theorem abspageOf_eq (hv : vpage < d.vblocks * d.ppb) :
    abspageOf d vpage = vpage + d.ppb * d.syshyperblocks ∧ d.ppb ≤ abspageOf d vpage ∧
      abspageOf d vpage < d.type.blocks * d.ppb ∧ d.type.blocks * d.ppb < 2 ^ 32 := by
  obtain ⟨hsys, hblocks⟩ := table_blocks _ d.known
  have hpos : 1 ≤ d.syshyperblocks := by
    unfold Device.syshyperblocks
    omega
  have hle : d.ppb * 1 ≤ d.ppb * d.syshyperblocks := Nat.mul_le_mul_left _ hpos
  have hsum : d.vblocks * d.ppb + d.ppb * d.syshyperblocks = d.type.blocks * d.ppb := by
    rw [Nat.mul_comm d.ppb, ← Nat.add_mul]
    congr 1
    unfold Device.vblocks Device.syshyperblocks
    omega
  have hsize : d.type.blocks * d.ppb < 2 ^ 32 := by
    have hppb := d.ppb_cases
    calc d.type.blocks * d.ppb ≤ 8320 * 512 := Nat.mul_le_mul hblocks (by omega)
      _ < 2 ^ 32 := by norm_num
  have habs : abspageOf d vpage = vpage + d.ppb * d.syshyperblocks :=
    Nat.mod_eq_of_lt (by omega)
  exact ⟨habs, by omega, by omega, hsize⟩

theorem bankOf_eq (a : Nat) : bankOf d a = a % d.banks := by
  rw [bankOf, Device.banks, Nat.and_two_pow_sub_one_eq_mod]

theorem blockOf_eq (a : Nat) : blockOf d a = a / d.ppb := by
  rw [blockOf, Nat.shiftRight_eq_div_pow]
  rfl

theorem pageInBlock_eq (a : Nat) :
    pageInBlock d a = a / d.banks % 2 ^ d.type.blocksizeexponent := by
  rw [pageInBlock, Nat.shiftRight_eq_div_pow, Nat.one_shiftLeft,
    Nat.and_two_pow_sub_one_eq_mod]
  rfl

/-- Pages side by side from a first bank on are on different banks, in one block, and at one place
in it. -/
theorem group_places (ha : a % d.banks = 0) (hj : j < d.banks) :
    bankOf d (a + j) = j ∧ blockOf d (a + j) = blockOf d a ∧
      pageInBlock d (a + j) = pageInBlock d a := by
  have hpos : 0 < d.banks := by omega
  have hmod : a % d.ppb % d.banks = 0 := by rw [Nat.mod_mod_of_dvd _ d.banks_dvd, ha]
  refine ⟨?_, ?_, ?_⟩
  · rw [bankOf_eq, Nat.add_mod, ha, Nat.zero_add, Nat.mod_mod, Nat.mod_eq_of_lt hj]
  · rw [blockOf_eq, blockOf_eq, (bank_group hmod hj).1]
  · obtain ⟨q, hq⟩ := Nat.dvd_of_mod_eq_zero ha
    have hdiv : (a + j) / d.banks = a / d.banks := by
      rw [hq, Nat.mul_add_div hpos, Nat.mul_div_cancel_left _ hpos, Nat.div_eq_of_lt hj,
        Nat.add_zero]
    rw [pageInBlock_eq, pageInBlock_eq, hdiv]

namespace Chips

/-- Where the VFL finds a virtual page. -/
def pageAt (d : Device) (c : Chips α) (vpage : Nat) : NandPage α :=
  let a := abspageOf d vpage
  c.page (bankOf d a) ((c.cxt (bankOf d a)).getPhysicalBlock (blockOf d a) * d.type.pagesperblock +
    pageInBlock d a)

/-- The block of a virtual page is scheduled for remapping on its bank. -/
def Scheduled (d : Device) (c : Chips α) (vpage : Nat) : Prop :=
  let a := abspageOf d vpage
  (c.cxt (bankOf d a)).checkRemapScheduled (BitVec.ofNat 32 (blockOf d a)) = true

instance (vpage : Nat) : Decidable (c.Scheduled d vpage) :=
  inferInstanceAs (Decidable (_ = true))

/-- Reading the page on its own kills the thread. -/
def Kills (d : Device) (c : Chips α) (vpage : Nat) : Prop :=
  (c.pageAt d vpage).Uncorrectable ∧ ¬ c.Scheduled d vpage

instance (vpage : Nat) : Decidable (c.Kills d vpage) := inferInstanceAs (Decidable (_ ∧ _))

theorem vflRead_spec (hv : vpage < d.vblocks * d.ppb) (slot : Slot α) :
    c.vflRead d vpage slot = if c.Kills d vpage then none
      else some ((c.pageAt d vpage).readRc, (c.pageAt d vpage).content,
        (c.pageAt d vpage).readMark) := by
  obtain ⟨-, hlo, hhi, -⟩ := abspageOf_eq hv
  have hfails : Fails (c.pageAt d vpage).readRc ↔ (c.pageAt d vpage).Uncorrectable :=
    NandPage.fails_iff _
  have hread : c.nandReadPage (bankOf d (abspageOf d vpage))
      ((c.cxt (bankOf d (abspageOf d vpage))).getPhysicalBlock (blockOf d (abspageOf d vpage)) *
        d.type.pagesperblock + pageInBlock d (abspageOf d vpage)) =
      ((c.pageAt d vpage).readRc, (c.pageAt d vpage).content, (c.pageAt d vpage).readMark) := rfl
  rw [vflRead]
  dsimp only
  rw [if_neg (by omega), hread]
  by_cases hu : (c.pageAt d vpage).Uncorrectable
  · have hsched : c.scheduleBlockForRemap (bankOf d (abspageOf d vpage))
        (blockOf d (abspageOf d vpage)) = if c.Scheduled d vpage then some () else none := rfl
    rw [if_pos (hfails.2 hu), if_pos (hfails.2 hu), hsched]
    by_cases hs : c.Scheduled d vpage
    · rw [if_pos hs, if_neg fun hk => hk.2 hs]
      rfl
    · rw [if_neg hs, if_pos ⟨hu, hs⟩]
      rfl
  · rw [if_neg fun hf => hu (hfails.1 hf), if_neg fun hk => hu hk.1]

/-- The banks one by one: the nibbles of the return codes side by side. -/
theorem readEachBank_spec (hv : vpage + d.banks ≤ d.vblocks * d.ppb) (slots : Nat → Slot α) :
    ∀ n ≤ d.banks,
      (∃ r, c.readEachBank d vpage slots n = some r ∧
        r.1 = pack (fun i => bankBits (c.pageAt d (vpage + i)).readRc) n ∧
        (∀ i < n, ¬ c.Kills d (vpage + i)) ∧
        ∀ i < n, r.2 i = ((c.pageAt d (vpage + i)).content, (c.pageAt d (vpage + i)).readMark)) ∨
      c.readEachBank d vpage slots n = none ∧ ∃ i < n, c.Kills d (vpage + i) := by
  intro n
  induction n with
  | zero =>
    exact fun _ => .inl ⟨_, rfl, rfl, fun i hi => absurd hi (Nat.not_lt_zero i),
      fun i hi => absurd hi (Nat.not_lt_zero i)⟩
  | succ n ih =>
    intro hn
    rcases ih (by omega) with ⟨r, hr, hrc, hlive, hslots⟩ | ⟨hr, i, hi, hk⟩
    · rw [readEachBank, hr, Option.bind_some, vflRead_spec (by omega)]
      by_cases hk : c.Kills d (vpage + n)
      · rw [if_pos hk]
        exact .inr ⟨rfl, n, Nat.lt_succ_self n, hk⟩
      · rw [if_neg hk]
        refine .inl ⟨_, rfl, ?_, fun i hi => ?_, fun i hi => ?_⟩
        · rw [hrc]
          rfl
        · rcases Nat.lt_succ_iff_lt_or_eq.1 hi with hlt | heq
          · exact hlive i hlt
          · rwa [heq]
        · by_cases heq : i = n
          · rw [heq]
            exact upd_self _ _ _
          · exact (upd_ne _ _ heq).trans (hslots i (by omega))
    · rw [readEachBank, hr]
      exact .inr ⟨rfl, i, by omega, hk⟩

/-- All banks at once: the status of a bank that is there is not returned. -/
theorem nandReadPageFast_rc (d : Device) (c : Chips α) (page : Nat) (slots : Nat → Slot α) :
    (c.nandReadPageFast d page slots).1 =
      if d.banks = 1 then 0x1110 else if d.banks = 2 then 0x1100 else 0 := by
  rcases d.banks_cases with h | h | h <;> simp [nandReadPageFast, h, List.range_succ]

theorem fast_bits {rc : Nat}
    (hrc : rc = if d.banks = 1 then 0x1110 else if d.banks = 2 then 0x1100 else 0)
    (hj : j < d.banks) {m : Nat} (hm : m < 16) :
    rc &&& m <<< (j <<< 2) = 0 ∧ rc >>> (j <<< 2) &&& m = 0 := by
  have hzero : rc >>> (j <<< 2) &&& m = 0 := by
    have hall : ∀ m < 16, ∀ j < 4, (j < 1 → 0x1110 >>> (j <<< 2) &&& m = 0) ∧
        (j < 2 → 0x1100 >>> (j <<< 2) &&& m = 0) ∧ 0 >>> (j <<< 2) &&& m = 0 := by decide
    rcases d.banks_cases with h | h | h
    · rw [hrc, if_pos h]
      exact (hall m hm j (by omega)).1 (by omega)
    · rw [hrc, if_neg (by omega), if_pos h]
      exact (hall m hm j (by omega)).2.1 (by omega)
    · rw [hrc, if_neg (by omega), if_neg (by omega)]
      exact (hall m hm j (by omega)).2.2
  refine ⟨?_, hzero⟩
  by_contra hne
  exact (and_shift_ne_zero rc m _).1 hne hzero

theorem retryBanks_spec {block page : Nat} {r : Nat × (Nat → Slot α)}
    (hrc : r.1 = if d.banks = 1 then 0x1110 else if d.banks = 2 then 0x1100 else 0) :
    ∀ n ≤ d.banks, c.retryBanks block page r n = some r := by
  intro n
  induction n with
  | zero => exact fun _ => rfl
  | succ n ih =>
    intro hn
    have htwo := (fast_bits hrc (show n < d.banks by omega) (show 2 < 16 by decide)).2
    have hd := (fast_bits hrc (show n < d.banks by omega) (show 0xd < 16 by decide)).2
    rw [retryBanks, ih (by omega), Option.bind_some, htwo, hd]
    rfl

/-- A fast read of a group of pages that lie side by side in one block: all at once, or, if a bank
has the block remapped, one by one. -/
theorem vflReadFast_spec (hv : vpage + d.banks ≤ d.vblocks * d.ppb) (ha : vpage % d.banks = 0)
    (slots : Nat → Slot α) :
    (c.remapped d (blockOf d (abspageOf d vpage)) = false →
      ∃ r, c.vflReadFast d vpage slots = some r ∧
        (∀ j < d.banks, ∀ m < 16, r.1 &&& m <<< (j <<< 2) = 0) ∧
        ∀ j < d.banks, r.2 j =
          ((c.pageAt d (vpage + j)).content, (c.pageAt d (vpage + j)).fastMark)) ∧
      (c.remapped d (blockOf d (abspageOf d vpage)) = true →
        c.vflReadFast d vpage slots = c.readEachBank d vpage slots d.banks) := by
  have hpos : 0 < d.banks := by
    have := d.banks_cases
    omega
  obtain ⟨habs, hlo, -, hsize⟩ := abspageOf_eq (show vpage < d.vblocks * d.ppb by omega)
  have hgroup : ∀ j < d.banks, abspageOf d (vpage + j) = abspageOf d vpage + j := by
    intro j hj
    rw [habs, (abspageOf_eq (show vpage + j < d.vblocks * d.ppb by omega)).1]
    omega
  have hfirst : abspageOf d vpage % d.banks = 0 := by
    obtain ⟨m, hm⟩ := d.banks_dvd
    rw [habs, hm, Nat.mul_assoc, Nat.add_mul_mod_self_left, ha]
  have hin : ¬ (d.type.blocks * d.ppb ≤ wrap (abspageOf d vpage + d.banks - 1) ∨
      abspageOf d vpage < d.ppb) := by
    have hend := hgroup (d.banks - 1) (by omega)
    obtain ⟨-, -, hhi, -⟩ :=
      abspageOf_eq (show vpage + (d.banks - 1) < d.vblocks * d.ppb by omega)
    rw [wrap, Nat.mod_eq_of_lt (by omega)]
    omega
  have hbank : bankOf d (abspageOf d vpage) = 0 := by rw [bankOf_eq, hfirst]
  constructor
  · intro hrem
    have hunit : vflReadFast d c vpage slots =
        some (c.nandReadPageFast d (blockOf d (abspageOf d vpage) * d.type.pagesperblock +
          pageInBlock d (abspageOf d vpage)) slots) := by
      rw [vflReadFast]
      dsimp only
      rw [if_neg hin, hbank, hrem]
      split
      case isTrue h => simp at h
      case isFalse =>
        split
        case isTrue => rfl
        case isFalse => exact retryBanks_spec (nandReadPageFast_rc d c _ slots) _ le_rfl
    refine ⟨_, hunit, fun j hj m hm => ?_, fun j hj => ?_⟩
    · exact (fast_bits (nandReadPageFast_rc d c _ slots) hj hm).1
    · obtain ⟨hb, hblock, hpage⟩ := group_places hfirst hj
      have hphys : (c.cxt j).getPhysicalBlock (blockOf d (abspageOf d vpage)) =
          blockOf d (abspageOf d vpage) := by
        rw [remapped, List.any_eq_false] at hrem
        have := hrem j (List.mem_range.2 hj)
        simpa using this
      have hat : c.pageAt d (vpage + j) = c.page j (blockOf d (abspageOf d vpage) *
          d.type.pagesperblock + pageInBlock d (abspageOf d vpage)) := by
        rw [pageAt, hgroup j hj, hb, hblock, hpage, hphys]
      rw [hat, nandReadPageFast]
      exact if_pos hj
  · intro hrem
    rw [vflReadFast]
    dsimp only
    rw [if_neg hin, hrem]
    simp

end Chips
end Places

/-! ## Putting the sectors together -/

section Combine

variable {d s c}

/-- The first `n` positions of the buffer are read, each as `out` says. -/
structure Done (out : Nat → Option (Bool × Buf α)) (n : Nat) (buffer : Nat → Buf α)
    (r : Reading α) : Prop where
  live : ∀ i < n, (out i).isSome = true
  data : ∀ i < n, ∀ o, out i = some o → r.buffer i = o.2
  rest : ∀ i, n ≤ i → r.buffer i = buffer i
  error : r.error ≠ 0 ↔ ∃ i < n, ∃ o, out i = some o ∧ o.1 = true

/-- Either all are read, or one of them kills the thread. -/
def Combines (out : Nat → Option (Bool × Buf α)) (n : Nat) (buffer : Nat → Buf α)
    (res : Option (Reading α)) : Prop :=
  (∃ r, res = some r ∧ Done out n buffer r) ∨ res = none ∧ ∃ i < n, out i = none

variable {out : Nat → Option (Bool × Buf α)} {n i : Nat} {buffer : Nat → Buf α} {r : Reading α}
  {o : Bool × Buf α}

theorem Done.zero (spare : Nat → BitVec 8) : Done out 0 buffer ⟨0, buffer, spare⟩ where
  live i hi := absurd hi (Nat.not_lt_zero i)
  data i hi := absurd hi (Nat.not_lt_zero i)
  rest _ _ := rfl
  error := ⟨fun h => absurd rfl h, fun ⟨i, hi, _⟩ => absurd hi (Nat.not_lt_zero i)⟩

theorem Done.spare (h : Done out n buffer r) (sp : Nat → BitVec 8) :
    Done out n buffer { r with spare := sp } := ⟨h.live, h.data, h.rest, h.error⟩

/-- One more position. -/
theorem Done.succ (h : Done out n buffer r) (ho : out n = some o) {q : Reading α}
    (hbuf : q.buffer = upd r.buffer n o.2)
    (herr : q.error ≠ 0 ↔ r.error ≠ 0 ∨ o.1 = true) : Done out (n + 1) buffer q where
  live i hi := by
    rcases Nat.lt_succ_iff_lt_or_eq.1 hi with hlt | heq
    · exact h.live i hlt
    · rw [heq, ho]
      rfl
  data i hi o' ho' := by
    rw [hbuf]
    rcases Nat.lt_succ_iff_lt_or_eq.1 hi with hlt | heq
    · rw [upd_ne _ _ (by omega)]
      exact h.data i hlt o' ho'
    · rw [heq, ho] at ho'
      rw [heq, upd_self, Option.some.inj ho']
  rest i hi := by
    rw [hbuf, upd_ne _ _ (by omega)]
    exact h.rest i (by omega)
  error := by
    rw [herr, h.error]
    constructor
    · rintro (⟨i, hi, o', ho', he⟩ | he)
      · exact ⟨i, by omega, o', ho', he⟩
      · exact ⟨n, Nat.lt_succ_self n, o, ho, he⟩
    · rintro ⟨i, hi, o', ho', he⟩
      rcases Nat.lt_succ_iff_lt_or_eq.1 hi with hlt | heq
      · exact .inl ⟨i, hlt, o', ho', he⟩
      · rw [heq, ho] at ho'
        rw [Option.some.inj ho']
        exact .inr he

/-- One more position, put into the buffer by `ftl_read`. -/
theorem Done.store (h : Done out n buffer r) {empty failed : Bool} {data : Buf α} {code : Int}
    (hcode : code ≠ 0)
    (ho : out n = some (if empty then (false, .zeros) else if failed then (true, .zeros)
      else (false, data))) : Done out (n + 1) buffer (r.store n empty failed data code) := by
  refine h.succ ho ?_ ?_
  · cases empty <;> cases failed <;> rfl
  · cases empty <;> cases failed <;> simp [Reading.store, hcode]

/-- The positions of a fast read. -/
theorem Done.storeBanks (h : Done out i buffer r) {ret : Nat} {slots : Nat → Slot α} :
    ∀ n, (∀ j < n, out (i + j) = some (if decide (ret &&& 2 <<< (j <<< 2) ≠ 0) then (false, .zeros)
      else if decide (ret &&& 0xd <<< (j <<< 2) ≠ 0 ∨ (slots j).2 ≠ 0xFF) then (true, .zeros)
      else (false, (slots j).1))) → Done out (i + n) buffer (r.storeBanks i ret slots n) := by
  intro n
  induction n with
  | zero => exact fun _ => h.spare _
  | succ n ih =>
    intro hn
    have hprev := ih fun j hj => hn j (by omega)
    exact hprev.store (by decide) (hn n (Nat.lt_succ_self n))

end Combine

/-! ## Reading a range -/

section Range

variable {d s c} {sector count i j : Nat}

/-- The page that the sector at `i` is read from. -/
def sourceAt (d : Device) (s : State α) (c : Chips α) (sector i : Nat) : NandPage α :=
  c.pageAt d (vpageAt d s sector i)

/-- Reading the sector at `i` on its own kills the thread. -/
def KillsAt (d : Device) (s : State α) (c : Chips α) (sector i : Nat) : Prop :=
  c.Kills d (vpageAt d s sector i)

/-- The sector at `i` is read on all banks at once: its group is read together, and no bank has the
block remapped. -/
def FastRead (d : Device) (s : State α) (c : Chips α) (sector count i : Nat) : Prop :=
  InGroup d s sector count i ∧ c.remapped d (blockOf d (abspageOf d
    (vpageAt d s sector (i - (sector + i) % d.banks)))) = false

instance (sector i : Nat) : Decidable (KillsAt d s c sector i) :=
  inferInstanceAs (Decidable (Chips.Kills _ _ _))

instance (sector count i : Nat) : Decidable (FastRead d s c sector count i) :=
  inferInstanceAs (Decidable (_ ∧ _))

/-- What a call reads at `i`, and whether it reports an error for it. -/
@[grind =] def outAt (d : Device) (s : State α) (c : Chips α) (sector count i : Nat) :
    Option (Bool × Buf α) :=
  if FastRead d s c sector count i then some (sourceAt d s c sector i).fast
  else if KillsAt d s c sector i then none
  else some (sourceAt d s c sector i).slow

theorem NandPage.slow_eq (p : NandPage α) :
    p.slow = if decide (p.readRc &&& 2 ≠ 0) then (false, .zeros)
      else if decide (p.readRc &&& 0x11D ≠ 0 ∨ p.readMark ≠ 0xFF) then (true, .zeros)
      else (false, p.content) := by
  simp only [slow, decide_eq_true_eq, p.rc_empty, p.rc_fails]

theorem NandPage.slow_bits (p : NandPage α) :
    p.slow = if decide (bankBits p.readRc &&& 2 ≠ 0) then (false, .zeros)
      else if decide (bankBits p.readRc &&& 0xd ≠ 0 ∨ p.readMark ≠ 0xFF) then (true, .zeros)
      else (false, p.content) := by
  simp only [slow, decide_eq_true_eq, p.bits_empty, p.bits_fails]

theorem takesFast_iff (hk : sector + i < d.sectors) :
    TakesFast d s sector count i ↔ Together d s sector count i := by
  have hlt := d.sectors_lt
  have hwrap : wrap (sector + i) = sector + i := Nat.mod_eq_of_lt (by omega)
  have hand : (sector + i) % d.ppb &&& (d.banks - 1) = (sector + i) % d.banks := by
    rw [← Nat.mod_mod_of_dvd (sector + i) d.banks_dvd]
    exact Nat.and_two_pow_sub_one_eq_mod _ _
  rw [TakesFast, hwrap, hand, Together]

theorem vpageAt_eq (hk : sector + i < d.sectors) :
    vpageAt d s sector i = s.abspage d ((sector + i) / d.ppb) ((sector + i) % d.ppb) := by
  have hlt := d.sectors_lt
  rw [vpageAt, wrap, Nat.mod_eq_of_lt (by omega)]

theorem vpageAt_lt (h : Mapped d s) (hk : sector + i < d.sectors) :
    vpageAt d s sector i < d.vblocks * d.ppb := by
  rw [vpageAt_eq hk]
  exact h.abspage_lt (Device.sector_block hk) (Device.mod_lt_ppb _)

/-- The pages of the sectors that `ftl_read` takes together lie side by side. -/
theorem vpageAt_group (h : Mapped d s) (hk : sector + count ≤ d.sectors)
    (hf : Together d s sector count i) :
    vpageAt d s sector i + d.banks ≤ d.vblocks * d.ppb ∧ vpageAt d s sector i % d.banks = 0 ∧
      ∀ j < d.banks, vpageAt d s sector (i + j) = vpageAt d s sector i + j := by
  have hpos := d.banks_cases
  have hend := hf.1
  obtain ⟨hlast, hfirst, hside⟩ := h.group hk hf
  rw [vpageAt_eq (by omega)]
  refine ⟨hlast, hfirst, fun j hj => ?_⟩
  rw [vpageAt_eq (by omega)]
  exact hside j hj

theorem fastRead_group (hf : Together d s sector count i) (hj : j < d.banks) :
    FastRead d s c sector count (i + j) ↔
      c.remapped d (blockOf d (abspageOf d (vpageAt d s sector i))) = false := by
  have hsub : i + j - j = i := by omega
  rw [FastRead, group_mod hf hj, hsub]
  exact and_iff_right (hf.inGroup hj)

/-- A group of pages that are taken together. -/
theorem readLoop_fast (hs : Mapped d s) (hk : sector + count ≤ d.sectors)
    (hf : Together d s sector count i) {buffer : Nat → Buf α} {r : Reading α}
    (hr : Done (outAt d s c sector count) i buffer r) (slots : Nat → Slot α) :
    (∃ p, c.vflReadFast d (vpageAt d s sector i) slots = some p ∧
      Done (outAt d s c sector count) (i + d.banks) buffer (r.storeBanks i p.1 p.2 d.banks)) ∨
      c.vflReadFast d (vpageAt d s sector i) slots = none ∧
        ∃ k < count, outAt d s c sector count k = none := by
  obtain ⟨hrange, hfirst, hside⟩ := vpageAt_group hs hk hf
  have hend : i + d.banks ≤ count := hf.1
  obtain ⟨hunit, heach⟩ := Chips.vflReadFast_spec (c := c) hrange hfirst slots
  cases hrem : c.remapped d (blockOf d (abspageOf d (vpageAt d s sector i))) with
  | false =>
    obtain ⟨p, hp, hbits, hslots⟩ := hunit hrem
    refine .inl ⟨p, hp, hr.storeBanks d.banks fun j hj => ?_⟩
    have hfast : FastRead d s c sector count (i + j) := (fastRead_group hf hj).2 hrem
    rw [outAt, if_pos hfast, hbits j hj 2 (by decide), hbits j hj 0xd (by decide), hslots j hj,
      sourceAt, hside j hj, NandPage.fast]
    simp
  | true =>
    have hslow : ∀ j < d.banks, ¬ FastRead d s c sector count (i + j) := by
      intro j hj hfast
      have := (fastRead_group hf hj).1 hfast
      rw [hrem] at this
      cases this
    rw [heach hrem]
    rcases Chips.readEachBank_spec (c := c) hrange slots d.banks le_rfl with
      ⟨p, hp, hrc, hlive, hslots⟩ | ⟨hp, j, hj, hkill⟩
    · refine .inl ⟨p, hp, hr.storeBanks d.banks fun j hj => ?_⟩
      have hnib : ∀ k, bankBits (c.pageAt d (vpageAt d s sector i + k)).readRc < 16 := fun k =>
        NandPage.bits_lt _
      have hlivej : ¬ KillsAt d s c sector (i + j) := by
        rw [KillsAt, hside j hj]
        exact hlive j hj
      rw [outAt, if_neg (hslow j hj), if_neg hlivej, sourceAt, hside j hj, NandPage.slow_bits, hrc,
        hslots j hj]
      simp only [pack_and hnib (show 2 < 16 by decide) hj,
        pack_and hnib (show 0xd < 16 by decide) hj]
    · refine .inr ⟨hp, i + j, by omega, ?_⟩
      have hkillj : KillsAt d s c sector (i + j) := by
        rw [KillsAt, hside j hj]
        exact hkill
      rw [outAt, if_neg (hslow j hj), if_pos hkillj]

theorem readLoop_combine (hs : Mapped d s) (hk : sector + count ≤ d.sectors)
    {buffer : Nat → Buf α} :
    ∀ n i (r : Reading α), i ≤ count → count ≤ i + n → Between d s sector count i →
      Done (outAt d s c sector count) i buffer r →
      Combines (outAt d s c sector count) count buffer (readLoop d s c sector count n i r) := by
  intro n
  induction n with
  | zero =>
    intro i r hi hn _ hr
    have heq : i = count := by omega
    rw [heq] at hr
    exact .inl ⟨r, rfl, hr⟩
  | succ n ih =>
    intro i r hi hn hb hr
    have hpos := d.banks_cases
    rw [readLoop]
    split
    case isTrue hdone =>
      have heq : i = count := by omega
      rw [heq] at hr
      exact .inl ⟨r, rfl, hr⟩
    case isFalse hdone =>
      have htakes : TakesFast d s sector count i ↔ Together d s sector count i :=
        takesFast_iff (by omega)
      split
      case isTrue hf =>
        have hf := htakes.1 hf
        have hend : i + d.banks ≤ count := hf.1
        rcases readLoop_fast hs hk hf hr fun j => (r.buffer (i + j), r.spare j) with
          ⟨p, hp, hdone⟩ | ⟨hp, hkill⟩
        · rw [hp, Option.bind_some]
          exact ih _ _ hend (by omega) (between_group hf) hdone
        · rw [hp]
          exact .inr ⟨rfl, hkill⟩
      case isFalse hf =>
        have hf : ¬ Together d s sector count i := fun hc => hf (htakes.2 hc)
        have hki : sector + i < d.sectors := by omega
        have hslow : ¬ FastRead d s c sector count i := fun hc => hb.not_inGroup hf hc.1
        rw [Chips.vflRead_spec (vpageAt_lt hs hki)]
        by_cases hkill : c.Kills d (vpageAt d s sector i)
        · rw [if_pos hkill]
          refine .inr ⟨rfl, i, by omega, ?_⟩
          rw [outAt, if_neg hslow]
          exact if_pos hkill
        · rw [if_neg hkill, Option.bind_some]
          refine ih _ _ (by omega) (by omega) (between_succ hb hf) ?_
          refine (hr.spare _).store (by decide) ?_
          rw [outAt, if_neg hslow, if_neg (show ¬ KillsAt d s c sector i from hkill),
            NandPage.slow_eq]
          rfl

/-- `ftl_read` of sectors that there are. -/
theorem ftlRead_combine (hs : Mapped d s) (hk : sector + count ≤ d.sectors) (buffer : Nat → Buf α)
    (spare : Nat → BitVec 8) : Combines (outAt d s c sector count) count buffer
      (ftlRead d s c sector count buffer spare) := by
  have hlt := d.sectors_lt
  have hin : ¬ d.sectors < wrap (sector + count) := by
    rw [wrap, Nat.mod_eq_of_lt (by omega)]
    omega
  rw [ftlRead, if_neg hin]
  exact readLoop_combine hs hk count 0 _ (Nat.zero_le _) (by omega)
    (between_start d s sector count) (Done.zero spare)

/-- What a call for the sector at `i` alone reads; where there is no sector it fails. -/
def outEach (d : Device) (s : State α) (c : Chips α) (sector : Nat) (buffer : Nat → Buf α)
    (i : Nat) : Option (Bool × Buf α) :=
  if sector + i < d.sectors then outAt d s c (sector + i) 1 0 else some (true, buffer i)

theorem ftlRead_refused (h : d.sectors < sector + count) (hwrap : sector + count < 2 ^ 32)
    (buffer : Nat → Buf α) (spare : Nat → BitVec 8) :
    ftlRead d s c sector count buffer spare = some ⟨-2, buffer, spare⟩ := by
  have hout : d.sectors < wrap (sector + count) := by
    rw [wrap, Nat.mod_eq_of_lt hwrap]
    exact h
  rw [ftlRead, if_pos hout]

theorem ftlReadEach_combine (hs : Mapped d s) (hwrap : sector + count < 2 ^ 32)
    (buffer : Nat → Buf α) (spare : Nat → BitVec 8) :
    ∀ n ≤ count, Combines (outEach d s c sector buffer) n buffer
      (ftlReadEach d s c sector buffer spare n) := by
  intro n
  induction n with
  | zero => exact fun _ => .inl ⟨_, rfl, Done.zero spare⟩
  | succ n ih =>
    intro hn
    rcases ih (by omega) with ⟨r, hr, hdone⟩ | ⟨hr, i, hi, hkill⟩
    · rw [ftlReadEach, hr, Option.bind_some]
      by_cases hin : sector + n < d.sectors
      · have hout : outEach d s c sector buffer n = outAt d s c (sector + n) 1 0 := if_pos hin
        rcases ftlRead_combine (c := c) hs (show sector + n + 1 ≤ d.sectors from hin)
            (fun k => r.buffer (n + k)) r.spare with ⟨q, hq, hone⟩ | ⟨hq, i, hi, hkill⟩
        · obtain ⟨o, ho⟩ := Option.isSome_iff_exists.1 (hone.live 0 Nat.zero_lt_one)
          have herr : q.error ≠ 0 ↔ o.1 = true := by
            rw [hone.error]
            constructor
            · rintro ⟨i, hi, o', ho', he⟩
              obtain rfl : i = 0 := by omega
              rw [ho] at ho'
              rw [Option.some.inj ho']
              exact he
            · exact fun he => ⟨0, Nat.zero_lt_one, o, ho, he⟩
          rw [hq, Option.map_some]
          refine .inl ⟨_, rfl, hdone.succ (hout.trans ho) ?_ ?_⟩
          · rw [hone.data 0 Nat.zero_lt_one o ho]
          · rw [← herr]
            by_cases he : q.error = 0 <;> simp [he]
        · obtain rfl : i = 0 := by omega
          rw [hq]
          exact .inr ⟨rfl, n, Nat.lt_succ_self n, hout.trans hkill⟩
      · have hout : outEach d s c sector buffer n = some (true, r.buffer n) := by
          rw [outEach, if_neg hin, hdone.rest n le_rfl]
        rw [ftlRead_refused (show d.sectors < sector + n + 1 by omega) (by omega), Option.map_some]
        refine .inl ⟨_, rfl, hdone.succ hout rfl ?_⟩
        simp
    · rw [ftlReadEach, hr]
      exact .inr ⟨rfl, i, by omega, hkill⟩

/-! ## One call and many -/

/-- One call and one for each sector give the same, a page that cannot be corrected makes the call
fail, and an erased one is read as zeros. -/
structure MultiReadOk (d : Device) (s : State α) (c : Chips α) (sector count : Nat)
    (buffer : Nat → Buf α) (spare : Nat → BitVec 8) : Prop where
  killed : ftlRead d s c sector count buffer spare = none ↔
    ftlReadEach d s c sector buffer spare count = none
  same : ∀ r q, ftlRead d s c sector count buffer spare = some r →
    ftlReadEach d s c sector buffer spare count = some q →
      r.buffer = q.buffer ∧ (r.error ≠ 0 ↔ q.error ≠ 0)
  fails : ∀ r, ftlRead d s c sector count buffer spare = some r →
    ∀ i < count, sector + i < d.sectors → (sourceAt d s c sector i).Uncorrectable → r.error ≠ 0
  zeros : ∀ r, ftlRead d s c sector count buffer spare = some r →
    ∀ i < count, sector + i < d.sectors → (sourceAt d s c sector i).isErased = true →
      r.buffer i = .zeros

/-- A page that is read on its own kills the thread. -/
def Killed (d : Device) (s : State α) (c : Chips α) (sector count : Nat) : Prop :=
  ∃ i < count, ¬ FastRead d s c sector count i ∧ KillsAt d s c sector i

/-- The page at `i` makes the call fail. -/
def Noticed (d : Device) (s : State α) (c : Chips α) (sector count i : Nat) : Prop :=
  if FastRead d s c sector count i then (sourceAt d s c sector i).fast.1 = true
  else (sourceAt d s c sector i).slow.1 = true

/-- Something shows that the page at `i` could not be corrected: on several banks its own ECC mark,
where a call for it alone would not kill the thread, and on one bank any page of the call. -/
def Reported (d : Device) (s : State α) (c : Chips α) (sector count i : Nat) : Prop :=
  if d.banks = 1 then ∃ k < count, Noticed d s c sector count k
  else c.Scheduled d (vpageAt d s sector i) ∧ (sourceAt d s c sector i).fastMark ≠ 0xFF

/-- The pages that are read on all banks at once give no reason to look at their status. -/
def StatusSpared (d : Device) (s : State α) (c : Chips α) (sector count : Nat) : Prop :=
  ∀ i < count, FastRead d s c sector count i → (sourceAt d s c sector i).isErased = false ∧
    ((sourceAt d s c sector i).Uncorrectable → Reported d s c sector count i)

/-- The sectors that there are read as what the buffer holds already. -/
def Unmoved (d : Device) (s : State α) (c : Chips α) (sector count : Nat) (buffer : Nat → Buf α) :
    Prop :=
  ∀ i < count, sector + i < d.sectors → ∃ o, outAt d s c (sector + i) 1 0 = some o ∧
    o.2 = buffer i ∧ ((sourceAt d s c sector i).isErased = true → o.2 = .zeros)

namespace NandPage

variable {p : NandPage α}

theorem fast_erased (h : p.isErased = true) : p.fast = (false, .ones) := by
  cases p with
  | erased a b => simp [fast, fastMark, readMark, rawmark, eccmark, content]
  | written => cases h

theorem slow_erased (h : p.isErased = true) : p.slow = (false, .zeros) := if_pos h

theorem slow_uncorrectable (h : p.Uncorrectable) : p.slow = (true, .zeros) := by
  rw [slow, if_neg (by simp [h.1]), if_pos (.inl h.2)]

theorem fast_marked (h : p.fastMark ≠ 0xFF) : p.fast = (true, .zeros) := if_pos h

theorem fast_unmarked (h : p.fastMark = 0xFF) : p.fast.2 ≠ .zeros := by
  rw [fast, if_neg (not_not.2 h)]
  cases p with
  | erased => simp [content]
  | written data e r a b =>
    simp only [content]
    split <;> simp

theorem fast_eq_slow (he : p.isErased = false) (hu : ¬ p.Uncorrectable) : p.fast = p.slow := by
  have hfails : (p.dataFails || p.ctrlFails) = false := by
    rw [← Bool.not_eq_true]
    exact fun h => hu ⟨he, h⟩
  have hdata : p.dataFails = false := (Bool.or_eq_false_iff.1 hfails).1
  have hmark : p.fastMark = p.readMark := by simp [fastMark, hdata]
  simp [fast, slow, he, hfails, hmark]

end NandPage

theorem outAt_single (hk : sector + count ≤ d.sectors) (hi : i < count) :
    outAt d s c (sector + i) 1 0 =
      if d.banks = 1 then outAt d s c sector count i
      else if KillsAt d s c sector i then none else some (sourceAt d s c sector i).slow := by
  have hki : sector + i < d.sectors := by omega
  have hzero : sector + i + 0 < d.sectors := hki
  have hpage : vpageAt d s (sector + i) 0 = vpageAt d s sector i := rfl
  by_cases hone : d.banks = 1
  · have hfast : FastRead d s c (sector + i) 1 0 ↔ FastRead d s c sector count i := by
      have hgroup : InGroup d s (sector + i) 1 0 ↔ InGroup d s sector count i := by
        simp only [InGroup, Together, hone, Nat.mod_one, Nat.sub_zero, Nat.add_zero, Nat.zero_le,
          true_and]
        exact and_congr_left fun _ => ⟨fun _ => hi, fun _ => le_rfl⟩
      simp only [FastRead, hgroup, hone, Nat.mod_one, Nat.sub_zero, hpage]
    rw [if_pos hone, outAt, outAt]
    by_cases hf : FastRead d s c sector count i
    · rw [if_pos hf, if_pos (hfast.2 hf)]
      rfl
    · rw [if_neg hf, if_neg fun h => hf (hfast.1 h)]
      rfl
  · have hslow : ¬ FastRead d s c (sector + i) 1 0 := by
      rintro ⟨⟨-, htogether⟩, -⟩
      have hend : 0 - (sector + i + 0) % d.banks + d.banks ≤ 1 := htogether.1
      have hpos := d.banks_cases
      omega
    rw [if_neg hone, outAt, if_neg hslow]
    rfl

theorem outAt_none : outAt d s c sector count i = none ↔
    ¬ FastRead d s c sector count i ∧ KillsAt d s c sector i := by
  unfold outAt
  by_cases hf : FastRead d s c sector count i
  · simp [hf]
  · by_cases hkill : KillsAt d s c sector i <;> simp [hf, hkill]

theorem outAt_noticed (hlive : (outAt d s c sector count i).isSome = true) :
    (∃ o, outAt d s c sector count i = some o ∧ o.1 = true) ↔ Noticed d s c sector count i := by
  by_cases hf : FastRead d s c sector count i
  · simp [outAt, Noticed, hf]
  · by_cases hkill : KillsAt d s c sector i
    · rw [outAt_none.2 ⟨hf, hkill⟩] at hlive
      cases hlive
    · simp [outAt, Noticed, hf, hkill]

/-- If the status is not needed, a page is read alike in both. -/
theorem StatusSpared.single (h : StatusSpared d s c sector count)
    (hk : sector + count ≤ d.sectors) (hi : i < count) :
    outAt d s c (sector + i) 1 0 = outAt d s c sector count i := by
  rw [outAt_single hk hi]
  split
  case isTrue => rfl
  case isFalse hbanks =>
    by_cases hf : FastRead d s c sector count i
    · obtain ⟨he, hu⟩ := h i hi hf
      have hrep : (sourceAt d s c sector i).Uncorrectable →
          c.Scheduled d (vpageAt d s sector i) ∧ (sourceAt d s c sector i).fastMark ≠ 0xFF := by
        intro hun
        have := hu hun
        rwa [Reported, if_neg hbanks] at this
      have hlive : ¬ KillsAt d s c sector i := fun hkill => hkill.2 (hrep hkill.1).1
      have heq : (sourceAt d s c sector i).slow = (sourceAt d s c sector i).fast := by
        by_cases hun : (sourceAt d s c sector i).Uncorrectable
        · rw [NandPage.slow_uncorrectable hun, NandPage.fast_marked (hrep hun).2]
        · rw [NandPage.fast_eq_slow he hun]
      rw [if_neg hlive, outAt, if_pos hf, heq]
    · rw [outAt, if_neg hf]

theorem Combines.of_none {out : Nat → Option (Bool × Buf α)} {n : Nat} {buffer : Nat → Buf α}
    {res : Option (Reading α)} (h : Combines out n buffer res) (hi : i < n)
    (hout : out i = none) : res = none := by
  rcases h with ⟨r, -, hdone⟩ | ⟨hres, -⟩
  · have hlive := hdone.live i hi
    rw [hout] at hlive
    cases hlive
  · exact hres

theorem Combines.none_iff {out : Nat → Option (Bool × Buf α)} {n : Nat} {buffer : Nat → Buf α}
    {res : Option (Reading α)} (h : Combines out n buffer res) :
    res = none ↔ ∃ i < n, out i = none := by
  refine ⟨fun hres => ?_, fun ⟨i, hi, hout⟩ => h.of_none hi hout⟩
  rcases h with ⟨r, hr, -⟩ | ⟨-, hex⟩
  · rw [hres] at hr
    cases hr
  · exact hex

theorem Combines.done {out : Nat → Option (Bool × Buf α)} {n : Nat} {buffer : Nat → Buf α}
    {res : Option (Reading α)} (h : Combines out n buffer res) {r : Reading α}
    (hr : res = some r) : Done out n buffer r := by
  rcases h with ⟨q, hq, hdone⟩ | ⟨hres, -⟩
  · rw [hq] at hr
    rwa [← Option.some.inj hr]
  · rw [hres] at hr
    cases hr

/-- What is read alike is put together alike. -/
theorem Done.same {out out' : Nat → Option (Bool × Buf α)} {n : Nat} {buffer : Nat → Buf α}
    {r q : Reading α} (hout : ∀ i < n, out' i = out i) (hr : Done out n buffer r)
    (hq : Done out' n buffer q) : r.buffer = q.buffer ∧ (r.error ≠ 0 ↔ q.error ≠ 0) := by
  constructor
  · funext i
    by_cases hi : i < n
    · obtain ⟨o, ho⟩ := Option.isSome_iff_exists.1 (hr.live i hi)
      rw [hr.data i hi o ho, hq.data i hi o ((hout i hi).trans ho)]
    · rw [hr.rest i (by omega), hq.rest i (by omega)]
  · rw [hr.error, hq.error]
    constructor
    · rintro ⟨i, hi, o, ho, he⟩
      exact ⟨i, hi, o, (hout i hi).trans ho, he⟩
    · rintro ⟨i, hi, o, ho, he⟩
      exact ⟨i, hi, o, (hout i hi).symm.trans ho, he⟩

/-- A call for sectors that there are. -/
theorem multiRead_inside (hs : Mapped d s) (hk : sector + count ≤ d.sectors)
    (buffer : Nat → Buf α) (spare : Nat → BitVec 8) :
    MultiReadOk d s c sector count buffer spare ↔
      Killed d s c sector count ∨ StatusSpared d s c sector count := by
  have hlt := d.sectors_lt
  have hone := ftlRead_combine (c := c) hs hk buffer spare
  have heach := ftlReadEach_combine (c := c) hs (show sector + count < 2 ^ 32 by omega) buffer
    spare count le_rfl
  have hin : ∀ i < count, outEach d s c sector buffer i = outAt d s c (sector + i) 1 0 := by
    intro i hi
    exact if_pos (by omega)
  constructor
  · intro h
    by_cases hkilled : Killed d s c sector count
    · exact .inl hkilled
    · have hlive : ftlRead d s c sector count buffer spare ≠ none := by
        intro hnone
        obtain ⟨i, hi, hout⟩ := hone.none_iff.1 hnone
        exact hkilled ⟨i, hi, outAt_none.1 hout⟩
      obtain ⟨r, hr⟩ := Option.ne_none_iff_exists'.1 hlive
      obtain ⟨q, hq⟩ := Option.ne_none_iff_exists'.1 fun hnone => hlive (h.killed.2 hnone)
      obtain ⟨hbuffer, -⟩ := h.same r q hr hq
      refine .inr fun i hi hf => ?_
      have hout : outAt d s c sector count i = some (sourceAt d s c sector i).fast := if_pos hf
      have hdata := (hone.done hr).data i hi _ hout
      constructor
      · by_contra herased
        have he : (sourceAt d s c sector i).isErased = true := by simpa using herased
        rw [h.zeros r hr i hi (by omega) he, NandPage.fast_erased he] at hdata
        cases hdata
      · intro hu
        rw [Reported]
        split
        case isTrue =>
          have herr := h.fails r hr i hi (by omega) hu
          obtain ⟨k, hlt, o, ho, he⟩ := (hone.done hr).error.1 herr
          exact ⟨k, hlt, (outAt_noticed ((hone.done hr).live k hlt)).1 ⟨o, ho, he⟩⟩
        case isFalse hbanks =>
          have hsingle := outAt_single (s := s) (c := c) hk hi
          rw [if_neg hbanks] at hsingle
          have hlive := (heach.done hq).live i hi
          have hnot : ¬ KillsAt d s c sector i := by
            intro hkill
            rw [hin i hi, hsingle, if_pos hkill] at hlive
            cases hlive
          rw [if_neg hnot] at hsingle
          refine ⟨by_contra fun hsched => hnot ⟨hu, hsched⟩, fun hmark => ?_⟩
          have hzeros := (heach.done hq).data i hi _ ((hin i hi).trans hsingle)
          rw [← hbuffer, hdata, NandPage.slow_uncorrectable hu] at hzeros
          exact NandPage.fast_unmarked hmark hzeros
  · rintro (⟨i, hi, hkill⟩ | hspared)
    · have hnone := hone.none_iff.2 ⟨i, hi, outAt_none.2 hkill⟩
      have hsingle := outAt_single (s := s) (c := c) hk hi
      rw [outAt_none.2 hkill, if_pos hkill.2, ite_self] at hsingle
      have hnone' := heach.none_iff.2 ⟨i, hi, (hin i hi).trans hsingle⟩
      have hdead : ∀ r, ftlRead d s c sector count buffer spare ≠ some r := by
        intro r hr
        rw [hnone] at hr
        cases hr
      exact ⟨⟨fun _ => hnone', fun _ => hnone⟩, fun r _ hr => absurd hr (hdead r),
        fun r hr => absurd hr (hdead r), fun r hr => absurd hr (hdead r)⟩
    · have hsame : ∀ i < count, outEach d s c sector buffer i = outAt d s c sector count i := by
        intro i hi
        rw [hin i hi]
        exact hspared.single hk hi
      refine ⟨?_, fun r q hr hq => (hone.done hr).same hsame (heach.done hq), ?_, ?_⟩
      · rw [hone.none_iff, heach.none_iff]
        exact exists_congr fun i => and_congr_right fun hi => by rw [hsame i hi]
      · intro r hr i hi _ hu
        have hdone := hone.done hr
        have hnoticed : ∃ k < count, Noticed d s c sector count k := by
          by_cases hf : FastRead d s c sector count i
          · have hrep := (hspared i hi hf).2 hu
            rw [Reported] at hrep
            split at hrep
            case isTrue => exact hrep
            case isFalse =>
              refine ⟨i, hi, ?_⟩
              rw [Noticed, if_pos hf, NandPage.fast_marked hrep.2]
          · refine ⟨i, hi, ?_⟩
            rw [Noticed, if_neg hf, NandPage.slow_uncorrectable hu]
        obtain ⟨k, hlt, hn⟩ := hnoticed
        obtain ⟨o, ho, he⟩ := (outAt_noticed (hdone.live k hlt)).2 hn
        exact hdone.error.2 ⟨k, hlt, o, ho, he⟩
      · intro r hr i hi _ he
        have hdone := hone.done hr
        have hf : ¬ FastRead d s c sector count i := by
          intro hf
          rw [(hspared i hi hf).1] at he
          cases he
        have hnot : ¬ KillsAt d s c sector i := by
          rintro ⟨hu, -⟩
          have hwritten := hu.1
          rw [show c.pageAt d (vpageAt d s sector i) = sourceAt d s c sector i from rfl, he]
            at hwritten
          cases hwritten
        have hout : outAt d s c sector count i = some (sourceAt d s c sector i).slow := by
          rw [outAt, if_neg hf, if_neg hnot]
        rw [hdone.data i hi _ hout, NandPage.slow_erased he]

/-- A call that reaches past the last sector is refused as a whole. -/
theorem multiRead_outside (hs : Mapped d s) (hk : d.sectors < sector + count)
    (hwrap : sector + count < 2 ^ 32) (buffer : Nat → Buf α) (spare : Nat → BitVec 8) :
    MultiReadOk d s c sector count buffer spare ↔ 0 < count ∧ Unmoved d s c sector count buffer := by
  have hone := ftlRead_refused (s := s) (c := c) hk hwrap buffer spare
  have heach := ftlReadEach_combine (c := c) hs hwrap buffer spare count le_rfl
  have hcode : (-2 : Int) ≠ 0 := by decide
  constructor
  · intro h
    have hlive : ftlReadEach d s c sector buffer spare count ≠ none := by
      intro hnone
      have hdead := h.killed.2 hnone
      rw [hone] at hdead
      cases hdead
    obtain ⟨q, hq⟩ := Option.ne_none_iff_exists'.1 hlive
    obtain ⟨hbuffer, herr⟩ := h.same _ q hone hq
    have hdone := heach.done hq
    constructor
    · obtain ⟨i, hi, -⟩ := hdone.error.1 (herr.1 hcode)
      omega
    · intro i hi hin
      have hout : outEach d s c sector buffer i = outAt d s c (sector + i) 1 0 := if_pos hin
      obtain ⟨o, ho⟩ := Option.isSome_iff_exists.1 (hdone.live i hi)
      have hdata : o.2 = buffer i := by
        rw [← hdone.data i hi o ho, ← hbuffer]
      refine ⟨o, hout.symm.trans ho, hdata, fun he => ?_⟩
      rw [hdata]
      exact h.zeros _ hone i hi hin he
  · rintro ⟨hpos, hunmoved⟩
    have hout : ∀ i < count, ∃ o, outEach d s c sector buffer i = some o ∧ o.2 = buffer i := by
      intro i hi
      by_cases hin : sector + i < d.sectors
      · obtain ⟨o, ho, hdata, -⟩ := hunmoved i hi hin
        exact ⟨o, (if_pos hin).trans ho, hdata⟩
      · exact ⟨_, if_neg hin, rfl⟩
    have hlive : ftlReadEach d s c sector buffer spare count ≠ none := by
      intro hnone
      obtain ⟨i, hi, hi'⟩ := heach.none_iff.1 hnone
      obtain ⟨o, ho, -⟩ := hout i hi
      rw [hi'] at ho
      cases ho
    refine ⟨⟨fun hnone => ?_, fun hnone => absurd hnone hlive⟩, ?_, ?_, ?_⟩
    · rw [hone] at hnone
      cases hnone
    · intro r q hr hq
      rw [hone] at hr
      have hdone := heach.done hq
      rw [← Option.some.inj hr]
      constructor
      · funext i
        by_cases hi : i < count
        · obtain ⟨o, ho, hdata⟩ := hout i hi
          rw [hdone.data i hi o ho, hdata]
        · rw [hdone.rest i (by omega)]
      · refine ⟨fun _ => hdone.error.2 ⟨count - 1, by omega, (true, buffer (count - 1)), ?_, rfl⟩,
          fun _ => hcode⟩
        exact if_neg (by omega)
    · intro r hr _ _ _ _
      rw [hone] at hr
      rw [← Option.some.inj hr]
      exact hcode
    · intro r hr i hi hin he
      rw [hone] at hr
      obtain ⟨o, -, hdata, hzero⟩ := hunmoved i hi hin
      rw [← Option.some.inj hr]
      exact hdata.symm.trans (hzero he)

end Range

/-! ## A group with an erased page and one that cannot be corrected -/

section Pair

/-- Nothing is remapped. -/
def plainCxt : Vfl.RemapCxt where
  spareused := 0
  firstspare := 0
  sparecount := 0
  remaptable := fun _ => 0
  bbt := fun _ => 0xFF
  scheduledstart := 0x334

/-- The pages of bank 0 are as given, those of bank 1 cannot be corrected. -/
def pairChips (first : NandPage Nat) : Chips Nat where
  page := fun bank _ => if bank = 0 then first else .written 7 0xFF 0xFF 1 0
  cxt := fun _ => plainCxt

end Pair

end Banked
end Ftl
end Freemyipod
