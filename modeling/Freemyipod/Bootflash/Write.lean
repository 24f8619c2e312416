import Freemyipod.Lib.Loop

/-!
# Bootflash.Write

Writing to the boot flash (`emcore/target/ipodnano3g/bootflash.c`), a NOR flash: erasing sets a
sector of 4 KiB to 0xff, and programming a word of 16 bits clears bits.

* `eraseSector`, `programWord`: what the chip does for a command.
* `compare`, `writeInternal`, `writePiece`, `writeraw`: the functions. The loop that programs counts
  the size down by two until it is zero.
* `PieceOk`: the part of a sector that is written is right, and nothing else in it changes.
* `writeraw_iff`: what the flash and the buffer have to be for `writeraw` to do its work.
-/

namespace Freemyipod
namespace Bootflash

/-- An address, of which three bytes are sent. -/
def addr24 (a : Nat) : Nat := a % 16777216

/-- Command 0x20 -/
def eraseSector (flash : Nat → UInt8) (a : Nat) : Nat → UInt8 :=
  fun x => if x / 4096 = addr24 a / 4096 then 0xff else flash x

/-- Command 0xad on the word that `a` is in -/
def programWord (flash : Nat → UInt8) (a : Nat) (b0 b1 : UInt8) : Nat → UInt8 := fun x =>
  if x = a / 2 * 2 then flash x &&& b0
  else if x = a / 2 * 2 + 1 then flash x &&& b1
  else flash x

/-- The loop of `bootflash_write_internal`; the chip counts `addr` up by itself. -/
structure Writing where
  flash : Nat → UInt8
  addr : Nat
  size : Nat
  pos : Nat

variable (buf : Nat → UInt8)

def writeTurn (s : Writing) : Writing where
  flash := programWord s.flash s.addr (buf s.pos) (buf (s.pos + 1))
  addr := s.addr + 2
  size := (s.size + 4294967294) % 4294967296
  pos := s.pos + 2

/-- `bootflash_write_internal` of the bytes from `pos` on -/
def writeInternal (fuel : Nat) (flash : Nat → UInt8) (pos addr size : Nat) :
    Option (Nat → UInt8) :=
  (While.run (fun s : Writing => s.size != 0) (writeTurn buf) fuel
    ⟨flash, addr24 addr, size, pos⟩).map Writing.flash

/-- The chunk `k` of 32 bytes that `bootflash_compare` reads. -/
def chunk (size k : Nat) : Nat := min 32 (size - 32 * k)

/-- `bootflash_compare`: bits 0 and 1 of the result. -/
def compare (flash : Nat → UInt8) (pos offset size : Nat) : Bool × Bool :=
  let chunks := List.range ((size + 31) / 32)
  (chunks.any fun k => (List.range (chunk size k)).any fun i =>
      buf (pos + 32 * k + i) != flash (addr24 offset + 32 * k + i),
    chunks.any fun k => (List.range (chunk size k)).any fun i =>
      i % 2 == 0 && flash (addr24 offset + 32 * k + i) != 0xff)

/-- One turn of `bootflash_writeraw`: `remainder` bytes, which are in one sector. -/
def writePiece (fuel : Nat) (flash : Nat → UInt8) (pos offset remainder : Nat) :
    Option (Nat → UInt8) :=
  let contentinfo := compare buf flash pos offset remainder
  if contentinfo.1 then
    let flash := if contentinfo.2 then eraseSector flash (offset / 4096 * 4096) else flash
    let needswrite := (List.range remainder).any fun i => buf (pos + i) != 0xff
    if needswrite then writeInternal buf fuel flash pos offset remainder else some flash
  else some flash

/-- `bootflash_writeraw` of the bytes from `pos` on -/
def writeraw : Nat → (Nat → UInt8) → Nat → Nat → Nat → Option (Nat → UInt8)
  | 0, _, _, _, _ => none
  | fuel + 1, flash, pos, offset, size =>
    if size = 0 then some flash
    else
      let remainder := min (4096 - offset % 4096) size
      (writePiece buf fuel flash pos offset remainder).bind fun flash =>
        writeraw fuel flash (pos + remainder) (offset + remainder) (size - remainder)

/-! ### When it works -/

/-- In `flash'` the `n` bytes from `lo` on are those of the buffer, and the rest is as it was. -/
structure Holds (flash : Nat → UInt8) (pos lo n : Nat) (flash' : Nat → UInt8) : Prop where
  inside : ∀ i < n, flash' (lo + i) = buf (pos + i)
  outside : ∀ a, a < lo ∨ lo + n ≤ a → flash' a = flash a

/-- `writeraw` ends, and does what it is for. -/
def Written (flash : Nat → UInt8) (pos offset size : Nat) : Prop :=
  ∃ fuel flash', writeraw buf fuel flash pos offset size = some flash' ∧
    Holds buf flash pos offset size flash'

/-- The flash has every bit that the bytes to write have. From an odd address on, the chip puts each
byte one place below its own. -/
def Programmable (flash : Nat → UInt8) (pos lo n : Nat) : Prop :=
  if lo % 2 = 0 then ∀ i < n, flash (lo + i) &&& buf (pos + i) = buf (pos + i)
  else flash (lo - 1) &&& buf pos = flash (lo - 1) ∧
    (∀ i, i + 1 < n → flash (lo + i) &&& buf (pos + i + 1) = buf (pos + i)) ∧
    flash (lo + (n - 1)) = buf (pos + (n - 1))

/-- Every second byte from `lo` on is 0xff; the others are not looked at. -/
def LooksErased (flash : Nat → UInt8) (lo n : Nat) : Prop :=
  ∀ i < n, i % 2 = 0 → flash (lo + i) = 0xff

/-- `n` bytes from `lo` on, which are in one sector, can be written: there is nothing to do; or the
sector is erased, had nothing else in it, and nothing or whole words are programmed; or it looks
erased, and an even number of bytes is programmed that clear bits only. -/
def PieceOk (flash : Nat → UInt8) (pos lo n : Nat) : Prop :=
  (∀ i < n, flash (lo + i) = buf (pos + i)) ∨
    (¬ LooksErased flash lo n ∧
      (∀ a, a / 4096 = lo / 4096 → a < lo ∨ lo + n ≤ a → flash a = 0xff) ∧
      ((∀ i < n, buf (pos + i) = 0xff) ∨ lo % 2 = 0 ∧ n % 2 = 0)) ∨
    (LooksErased flash lo n ∧ n % 2 = 0 ∧ Programmable buf flash pos lo n)

/-- Each sector that the range has bytes in can be written. -/
def SectorsOk (flash : Nat → UInt8) (pos offset size : Nat) : Prop :=
  ∀ k lo n, lo = max offset (k * 4096) → n = min (offset + size) (k * 4096 + 4096) - lo → 0 < n →
    PieceOk buf flash (pos + (lo - offset)) lo n

variable {buf} {flash flash' : Nat → UInt8} {pos offset size fuel n lo : Nat}

/-! ### The words -/

theorem blank_and (b : UInt8) : 0xff &&& b = b := by
  apply UInt8.eq_of_toBitVec_eq
  exact BitVec.allOnes_and

/-- `m` words from the word that `a` is in on. -/
def programmed (buf : Nat → UInt8) (flash : Nat → UInt8) (a pos m : Nat) : Nat → UInt8 := fun x =>
  if a / 2 * 2 ≤ x ∧ x < a / 2 * 2 + 2 * m then flash x &&& buf (pos + (x - a / 2 * 2)) else flash x

theorem programmed_succ (a m : Nat) :
    programmed buf (programWord flash a (buf pos) (buf (pos + 1))) (a + 2) (pos + 2) m =
      programmed buf flash a pos (m + 1) := by
  funext x
  unfold programmed programWord
  rw [show (a + 2) / 2 * 2 = a / 2 * 2 + 2 by omega]
  by_cases h0 : x = a / 2 * 2
  · rw [if_neg (by omega), if_pos h0, if_pos (by omega), h0, Nat.sub_self, Nat.add_zero]
  · by_cases h1 : x = a / 2 * 2 + 1
    · rw [if_neg (by omega), if_neg h0, if_pos h1, if_pos (by omega), h1, Nat.add_sub_cancel_left]
    · by_cases hin : a / 2 * 2 + 2 ≤ x ∧ x < a / 2 * 2 + 2 + 2 * m
      · rw [if_pos hin, if_neg h0, if_neg h1, if_pos (by omega)]
        congr 2
        omega
      · rw [if_neg hin, if_neg h0, if_neg h1, if_neg (by omega)]

theorem run_even (m : Nat) (hm : 2 * m < 4294967296) (hf : m < fuel) (a : Nat) :
    (While.run (fun s : Writing => s.size != 0) (writeTurn buf) fuel ⟨flash, a, 2 * m, pos⟩).map
      Writing.flash = some (programmed buf flash a pos m) := by
  induction m generalizing fuel flash a pos with
  | zero =>
    obtain ⟨fuel, rfl⟩ := Nat.exists_eq_succ_of_ne_zero (Nat.ne_zero_of_lt hf)
    have hnone : programmed buf flash a pos 0 = flash := by
      funext x
      exact if_neg (by omega)
    simp [While.run, hnone]
  | succ m ih =>
    obtain ⟨fuel, rfl⟩ := Nat.exists_eq_succ_of_ne_zero (Nat.ne_zero_of_lt hf)
    have hturn : writeTurn buf ⟨flash, a, 2 * (m + 1), pos⟩ =
        ⟨programWord flash a (buf pos) (buf (pos + 1)), a + 2, 2 * m, pos + 2⟩ := by
      simp only [writeTurn, Writing.mk.injEq, true_and, and_true]
      omega
    rw [← programmed_succ, ← @ih (programWord flash a (buf pos) (buf (pos + 1))) (pos + 2) fuel
      (by omega) (by omega) (a + 2)]
    simp [While.run, hturn]

/-- With an odd size the loop has no last turn. -/
theorem run_odd (hodd : size % 2 = 1) (hs : size < 4294967296) (a : Nat) :
    While.run (fun s : Writing => s.size != 0) (writeTurn buf) fuel ⟨flash, a, size, pos⟩ = none := by
  induction fuel generalizing flash a pos size with
  | zero => rfl
  | succ fuel ih =>
    have hne : size ≠ 0 := by omega
    have hnext := @ih (programWord flash a (buf pos) (buf (pos + 1))) (pos + 2)
      ((size + 4294967294) % 4294967296) (by omega) (by omega) (a + 2)
    simpa [While.run, hne, writeTurn] using hnext

/-! ### What is compared -/

theorem exists_chunk_iff {P : Nat → Prop} :
    (∃ k < (size + 31) / 32, ∃ i < chunk size k, P (32 * k + i)) ↔ ∃ j < size, P j := by
  unfold chunk
  constructor
  · rintro ⟨k, hk, i, hi, hP⟩
    exact ⟨32 * k + i, by omega, hP⟩
  · rintro ⟨j, hj, hP⟩
    exact ⟨j / 32, by omega, j % 32, by omega, by rwa [Nat.div_add_mod]⟩

theorem compare_differs (h : offset + size ≤ 16777216) (hs : 0 < size) :
    (compare buf flash pos offset size).1 = true ↔
      ¬ ∀ i < size, flash (offset + i) = buf (pos + i) := by
  have haddr : addr24 offset = offset := Nat.mod_eq_of_lt (by omega)
  have hexists : (compare buf flash pos offset size).1 = true ↔
      ∃ k < (size + 31) / 32, ∃ i < chunk size k,
        buf (pos + (32 * k + i)) ≠ flash (offset + (32 * k + i)) := by
    simp [compare, haddr, Nat.add_assoc]
  rw [hexists, exists_chunk_iff (P := fun j => buf (pos + j) ≠ flash (offset + j))]
  push Not
  simp only [ne_comm]

theorem compare_looks (h : offset + size ≤ 16777216) (hs : 0 < size) :
    (compare buf flash pos offset size).2 = true ↔ ¬ LooksErased flash offset size := by
  have haddr : addr24 offset = offset := Nat.mod_eq_of_lt (by omega)
  have hexists : (compare buf flash pos offset size).2 = true ↔
      ∃ k < (size + 31) / 32, ∃ i < chunk size k,
        (32 * k + i) % 2 = 0 ∧ flash (offset + (32 * k + i)) ≠ 0xff := by
    have hmod : ∀ k i, (32 * k + i) % 2 = i % 2 := by omega
    simp [compare, haddr, Nat.add_assoc, hmod]
  rw [hexists, exists_chunk_iff (P := fun j => j % 2 = 0 ∧ flash (offset + j) ≠ 0xff)]
  unfold LooksErased
  push Not
  rfl

/-! ### One sector -/

/-- A range of bytes in one sector of the flash. -/
structure InSector (lo n : Nat) : Prop where
  pos : 0 < n
  bound : lo + n ≤ 16777216
  sector : lo % 4096 + n ≤ 4096

theorem writeInternal_even (hin : InSector lo n) (heven : n % 2 = 0) (hf : n ≤ fuel) :
    writeInternal buf fuel flash pos lo n = some (programmed buf flash lo pos (n / 2)) := by
  have hb := hin.bound
  have hpos := hin.pos
  have haddr : addr24 lo = lo := Nat.mod_eq_of_lt (by omega)
  rw [writeInternal, haddr, ← run_even (n / 2) (by omega) (show n / 2 < fuel by omega) lo,
    show 2 * (n / 2) = n by omega]

/-- Only an even number of bytes is written. -/
theorem writeInternal_some (hin : InSector lo n)
    (h : writeInternal buf fuel flash pos lo n = some flash') :
    n % 2 = 0 ∧ flash' = programmed buf flash lo pos (n / 2) := by
  have hb := hin.bound
  rcases Nat.mod_two_eq_zero_or_one n with heven | hodd
  · refine ⟨heven, ?_⟩
    have henough : writeInternal buf (n + 1) flash pos lo n = _ :=
      writeInternal_even hin heven (Nat.le_succ n)
    obtain ⟨t, ht, rfl⟩ := Option.map_eq_some_iff.1 h
    obtain ⟨t', ht', he⟩ := Option.map_eq_some_iff.1 henough
    rw [← he, (While.ends_of_run ht).unique (While.ends_of_run ht')]
  · rw [writeInternal, run_odd hodd (by omega), Option.map_none] at h
    cases h

theorem programmed_even (heven : lo % 2 = 0) (hn : n % 2 = 0) (x : Nat) :
    programmed buf flash lo pos (n / 2) x =
      if lo ≤ x ∧ x < lo + n then flash x &&& buf (pos + (x - lo)) else flash x := by
  unfold programmed
  rw [show lo / 2 * 2 = lo by omega, show 2 * (n / 2) = n by omega]

theorem programmed_odd (hodd : lo % 2 = 1) (hn : n % 2 = 0) (x : Nat) :
    programmed buf flash lo pos (n / 2) x =
      if lo ≤ x + 1 ∧ x + 1 < lo + n then flash x &&& buf (pos + (x + 1 - lo)) else flash x := by
  unfold programmed
  rw [show 2 * (n / 2) = n by omega]
  by_cases hx : lo ≤ x + 1 ∧ x + 1 < lo + n
  · rw [if_pos (by omega), if_pos hx, show x - lo / 2 * 2 = x + 1 - lo by omega]
  · rw [if_neg (by omega), if_neg hx]

/-- The sector before it is programmed, when it has to change. -/
def prepared (buf flash : Nat → UInt8) (pos lo n : Nat) : Nat → UInt8 :=
  if (compare buf flash pos lo n).2 then eraseSector flash (lo / 4096 * 4096) else flash

theorem prepared_looks (hin : InSector lo n) (hlook : LooksErased flash lo n) :
    prepared buf flash pos lo n = flash :=
  if_neg fun h => (compare_looks hin.bound hin.pos).1 h hlook

theorem prepared_erased (hin : InSector lo n) (hlook : ¬ LooksErased flash lo n) (x : Nat) :
    prepared buf flash pos lo n x = if x / 4096 = lo / 4096 then 0xff else flash x := by
  have hb := hin.bound
  have hpos := hin.pos
  have haddr : addr24 (lo / 4096 * 4096) / 4096 = lo / 4096 := by
    unfold addr24
    omega
  rw [prepared, if_pos ((compare_looks hin.bound hin.pos).2 hlook), eraseSector, haddr]

theorem needswrite_iff :
    ((List.range n).any fun i => buf (pos + i) != 0xff) = true ↔
      ¬ ∀ i < n, buf (pos + i) = 0xff := by
  simp

theorem writePiece_same (hin : InSector lo n) (h : ∀ i < n, flash (lo + i) = buf (pos + i)) :
    writePiece buf fuel flash pos lo n = some flash :=
  if_neg fun hd => (compare_differs hin.bound hin.pos).1 hd h

theorem writePiece_blank (hin : InSector lo n) (h : ¬ ∀ i < n, flash (lo + i) = buf (pos + i))
    (hff : ∀ i < n, buf (pos + i) = 0xff) :
    writePiece buf fuel flash pos lo n = some (prepared buf flash pos lo n) := by
  rw [writePiece, if_pos ((compare_differs hin.bound hin.pos).2 h),
    if_neg fun hw => needswrite_iff.1 hw hff, prepared]

theorem writePiece_words (hin : InSector lo n) (h : ¬ ∀ i < n, flash (lo + i) = buf (pos + i))
    (hff : ¬ ∀ i < n, buf (pos + i) = 0xff) :
    writePiece buf fuel flash pos lo n =
      writeInternal buf fuel (prepared buf flash pos lo n) pos lo n := by
  rw [writePiece, if_pos ((compare_differs hin.bound hin.pos).2 h),
    if_pos (needswrite_iff.2 hff), prepared]

/-- The three ways in which a turn ends. -/
theorem writePiece_cases (hin : InSector lo n)
    (h : writePiece buf fuel flash pos lo n = some flash') :
    ((∀ i < n, flash (lo + i) = buf (pos + i)) ∧ flash' = flash) ∨
      (¬ ∀ i < n, flash (lo + i) = buf (pos + i)) ∧
        (((∀ i < n, buf (pos + i) = 0xff) ∧ flash' = prepared buf flash pos lo n) ∨
          (¬ ∀ i < n, buf (pos + i) = 0xff) ∧ n % 2 = 0 ∧
            flash' = programmed buf (prepared buf flash pos lo n) lo pos (n / 2)) := by
  by_cases hsame : ∀ i < n, flash (lo + i) = buf (pos + i)
  · rw [writePiece_same hin hsame] at h
    exact .inl ⟨hsame, (Option.some.inj h).symm⟩
  · refine .inr ⟨hsame, ?_⟩
    by_cases hff : ∀ i < n, buf (pos + i) = 0xff
    · rw [writePiece_blank hin hsame hff] at h
      exact .inl ⟨hff, (Option.some.inj h).symm⟩
    · rw [writePiece_words hin hsame hff] at h
      exact .inr ⟨hff, writeInternal_some hin h⟩

/-- A turn writes nothing outside its sector. -/
theorem writePiece_confined (hin : InSector lo n)
    (h : writePiece buf fuel flash pos lo n = some flash') {a : Nat} (ha : a / 4096 ≠ lo / 4096) :
    flash' a = flash a := by
  have hpos := hin.pos
  have hsec := hin.sector
  have hprep : prepared buf flash pos lo n a = flash a := by
    by_cases hlook : LooksErased flash lo n
    · rw [prepared_looks hin hlook]
    · rw [prepared_erased hin hlook, if_neg ha]
  rcases writePiece_cases hin h with ⟨-, rfl⟩ | ⟨-, ⟨-, rfl⟩ | ⟨-, heven, rfl⟩⟩
  · rfl
  · exact hprep
  · rw [programmed, if_neg (by omega), hprep]

/-- Shifted by one byte, only blank bytes come out right in a sector that has been erased. -/
theorem blank_of_shifted
    (hnext : ∀ i, i + 1 < n → buf (pos + (i + 1)) = buf (pos + i))
    (hlast : buf (pos + (n - 1)) = 0xff) : ∀ i < n, buf (pos + i) = 0xff := by
  have hdown : ∀ k < n, buf (pos + (n - 1 - k)) = 0xff := by
    intro k
    induction k with
    | zero => intro _; exact hlast
    | succ k ih =>
      intro hk
      have := hnext (n - 1 - (k + 1)) (by omega)
      rw [← this, show n - 1 - (k + 1) + 1 = n - 1 - k by omega]
      exact ih (by omega)
  intro i hi
  have := hdown (n - 1 - i) (by omega)
  rwa [show n - 1 - (n - 1 - i) = i by omega] at this

theorem pieceOk_of_blank (hin : InSector lo n) (hsame : ¬ ∀ i < n, flash (lo + i) = buf (pos + i))
    (hff : ∀ i < n, buf (pos + i) = 0xff)
    (hh : Holds buf flash pos lo n (prepared buf flash pos lo n)) : PieceOk buf flash pos lo n := by
  by_cases hlook : LooksErased flash lo n
  · rw [prepared_looks hin hlook] at hh
    exact absurd hh.inside hsame
  · refine .inr (.inl ⟨hlook, fun a ha hout => ?_, .inl hff⟩)
    have hkept := hh.outside a hout
    rw [prepared_erased hin hlook, if_pos ha] at hkept
    exact hkept.symm

theorem programmable_of_holds (hin : InSector lo n) (heven : n % 2 = 0)
    (hh : Holds buf flash pos lo n (programmed buf flash lo pos (n / 2))) :
    Programmable buf flash pos lo n := by
  have hpos := hin.pos
  unfold Programmable
  split
  · rename_i hlo
    intro i hi
    have hbyte := hh.inside i hi
    rwa [programmed_even hlo heven, if_pos (by omega), Nat.add_sub_cancel_left] at hbyte
  · rename_i hlo
    have hodd : lo % 2 = 1 := by omega
    refine ⟨?_, ?_, ?_⟩
    · have hbyte := hh.outside (lo - 1) (.inl (by omega))
      rwa [programmed_odd hodd heven, if_pos (by omega), show lo - 1 + 1 - lo = 0 by omega,
        Nat.add_zero] at hbyte
    · intro i hi
      have hbyte := hh.inside i (by omega)
      rwa [programmed_odd hodd heven, if_pos (by omega), show lo + i + 1 - lo = i + 1 by omega,
        ← Nat.add_assoc] at hbyte
    · have hbyte := hh.inside (n - 1) (by omega)
      rwa [programmed_odd hodd heven, if_neg (by omega)] at hbyte

theorem pieceOk_of_words (hin : InSector lo n) (hff : ¬ ∀ i < n, buf (pos + i) = 0xff)
    (heven : n % 2 = 0)
    (hh : Holds buf flash pos lo n (programmed buf (prepared buf flash pos lo n) lo pos (n / 2))) :
    PieceOk buf flash pos lo n := by
  have hpos := hin.pos
  have hsec := hin.sector
  by_cases hlook : LooksErased flash lo n
  · rw [prepared_looks hin hlook] at hh
    exact .inr (.inr ⟨hlook, heven, programmable_of_holds hin heven hh⟩)
  · rcases Nat.mod_two_eq_zero_or_one lo with hlo | hlo
    · refine .inr (.inl ⟨hlook, fun a ha hout => ?_, .inr ⟨hlo, heven⟩⟩)
      have hkept := hh.outside a hout
      rw [programmed_even hlo heven, if_neg (by omega), prepared_erased hin hlook, if_pos ha]
        at hkept
      exact hkept.symm
    · exfalso
      refine hff (blank_of_shifted (fun i hi => ?_) ?_)
      · have hbyte := hh.inside i (by omega)
        rwa [programmed_odd hlo heven, if_pos (by omega), prepared_erased hin hlook,
          if_pos (by omega), blank_and, show lo + i + 1 - lo = i + 1 by omega] at hbyte
      · have hbyte := hh.inside (n - 1) (by omega)
        rw [programmed_odd hlo heven, if_neg (by omega), prepared_erased hin hlook,
          if_pos (by omega)] at hbyte
        exact hbyte.symm

theorem pieceOk_of_holds (hin : InSector lo n)
    (h : writePiece buf fuel flash pos lo n = some flash') (hh : Holds buf flash pos lo n flash') :
    PieceOk buf flash pos lo n := by
  rcases writePiece_cases hin h with ⟨hsame, -⟩ | ⟨hsame, ⟨hff, rfl⟩ | ⟨hff, heven, rfl⟩⟩
  · exact .inl hsame
  · exact pieceOk_of_blank hin hsame hff hh
  · exact pieceOk_of_words hin hff heven hh

theorem holds_erased (hin : InSector lo n) (hlook : ¬ LooksErased flash lo n)
    (hrest : ∀ a, a / 4096 = lo / 4096 → a < lo ∨ lo + n ≤ a → flash a = 0xff) {a : Nat}
    (hout : a < lo ∨ lo + n ≤ a) : prepared buf flash pos lo n a = flash a := by
  rw [prepared_erased hin hlook]
  split
  · rename_i ha
    exact (hrest a ha hout).symm
  · rfl

/-- Where all bits to write are in the flash, programming them is all there is to do. -/
theorem holds_programmed (hin : InSector lo n) (heven : n % 2 = 0)
    (hprog : Programmable buf flash pos lo n) :
    Holds buf flash pos lo n (programmed buf flash lo pos (n / 2)) := by
  have hpos := hin.pos
  unfold Programmable at hprog
  split at hprog
  · rename_i hlo
    constructor
    · intro i hi
      rw [programmed_even hlo heven, if_pos (by omega), Nat.add_sub_cancel_left]
      exact hprog i hi
    · intro a ha
      rw [programmed_even hlo heven, if_neg (by omega)]
  · rename_i hlo
    have hodd : lo % 2 = 1 := by omega
    obtain ⟨hfirst, hmid, hlast⟩ := hprog
    constructor
    · intro i hi
      rw [programmed_odd hodd heven]
      by_cases hi' : i + 1 < n
      · rw [if_pos (by omega), show lo + i + 1 - lo = i + 1 by omega, ← Nat.add_assoc]
        exact hmid i hi'
      · rw [if_neg (by omega), show i = n - 1 by omega]
        exact hlast
    · intro a ha
      rw [programmed_odd hodd heven]
      by_cases ha' : a + 1 = lo
      · rw [if_pos (by omega), ha', Nat.sub_self, Nat.add_zero, show a = lo - 1 by omega]
        exact hfirst
      · exact if_neg (by omega)

theorem Programmable.not_blank (hin : InSector lo n) (hprog : Programmable buf flash pos lo n)
    (hff : ∀ i < n, buf (pos + i) = 0xff) : ∀ i < n, flash (lo + i) = buf (pos + i) := by
  have hpos := hin.pos
  have hand : ∀ b : UInt8, b &&& 0xff = b := fun b => by rw [UInt8.and_comm, blank_and]
  intro i hi
  unfold Programmable at hprog
  split at hprog
  · have := hprog i hi
    rwa [hff i hi, hand, ← hff i hi] at this
  · obtain ⟨-, hmid, hlast⟩ := hprog
    by_cases hi' : i + 1 < n
    · have := hmid i hi'
      rwa [Nat.add_assoc, hff (i + 1) hi', hand] at this
    · rw [show i = n - 1 by omega]
      exact hlast

theorem holds_of_pieceOk (hin : InSector lo n) (hok : PieceOk buf flash pos lo n) (hf : n ≤ fuel) :
    ∃ flash', writePiece buf fuel flash pos lo n = some flash' ∧ Holds buf flash pos lo n flash' := by
  have hsec := hin.sector
  by_cases hsame : ∀ i < n, flash (lo + i) = buf (pos + i)
  · exact ⟨flash, writePiece_same hin hsame, hsame, fun _ _ => rfl⟩
  · rcases hok with hok | ⟨hlook, hrest, hbytes⟩ | ⟨hlook, heven, hprog⟩
    · exact absurd hok hsame
    · by_cases hff : ∀ i < n, buf (pos + i) = 0xff
      · refine ⟨_, writePiece_blank hin hsame hff, ?_, fun a => holds_erased hin hlook hrest⟩
        intro i hi
        rw [prepared_erased hin hlook, hff i hi]
        exact if_pos (by omega)
      · obtain ⟨hlo, heven⟩ := hbytes.resolve_left hff
        refine ⟨_, by rw [writePiece_words hin hsame hff, writeInternal_even hin heven hf], ?_⟩
        constructor
        · intro i hi
          rw [programmed_even hlo heven, if_pos (by omega), prepared_erased hin hlook,
            if_pos (by omega), blank_and, Nat.add_sub_cancel_left]
        · intro a hout
          rw [programmed_even hlo heven, if_neg (by omega), holds_erased hin hlook hrest hout]
    · have hff : ¬ ∀ i < n, buf (pos + i) = 0xff := fun hff => hsame (hprog.not_blank hin hff)
      refine ⟨_, by rw [writePiece_words hin hsame hff, writeInternal_even hin heven hf], ?_⟩
      rw [prepared_looks hin hlook]
      exact holds_programmed hin heven hprog

/-- Whether a part can be written depends on its own sector only. -/
theorem PieceOk.congr (hin : InSector lo n) (hok : PieceOk buf flash pos lo n)
    (heq : ∀ a, a / 4096 = lo / 4096 → flash' a = flash a) : PieceOk buf flash' pos lo n := by
  have hpos := hin.pos
  have hsec := hin.sector
  have hbytes : ∀ i < n, flash' (lo + i) = flash (lo + i) := fun i hi => heq _ (by omega)
  have hlook : LooksErased flash' lo n ↔ LooksErased flash lo n :=
    forall_congr' fun i => forall_congr' fun hi => by rw [hbytes i hi]
  rcases hok with hsame | ⟨hnot, hrest, hwords⟩ | ⟨hblank, heven, hprog⟩
  · exact .inl fun i hi => (hbytes i hi).trans (hsame i hi)
  · exact .inr (.inl ⟨mt hlook.1 hnot, fun a ha hout => (heq a ha).trans (hrest a ha hout), hwords⟩)
  · refine .inr (.inr ⟨hlook.2 hblank, heven, ?_⟩)
    unfold Programmable at hprog ⊢
    split at hprog
    · rename_i hlo
      rw [if_pos hlo]
      intro i hi
      rw [hbytes i hi]
      exact hprog i hi
    · rename_i hlo
      obtain ⟨hfirst, hmid, hlast⟩ := hprog
      rw [if_neg hlo, heq (lo - 1) (by omega)]
      refine ⟨hfirst, fun i hi => ?_, ?_⟩
      · rw [hbytes i (by omega)]
        exact hmid i hi
      · rw [hbytes (n - 1) (by omega)]
        exact hlast

/-! ### All sectors -/

/-- What a turn takes from the range. -/
def first (offset size : Nat) : Nat := min (4096 - offset % 4096) size

theorem first_inSector (h : offset + size ≤ 16777216) (hs : 0 < size) :
    InSector offset (first offset size) := by
  unfold first
  exact ⟨by omega, by omega, by omega⟩

theorem writeraw_zero : writeraw buf (fuel + 1) flash pos offset 0 = some flash :=
  if_pos rfl

theorem writeraw_succ (hs : 0 < size) :
    writeraw buf (fuel + 1) flash pos offset size =
      (writePiece buf fuel flash pos offset (first offset size)).bind fun flash =>
        writeraw buf fuel flash (pos + first offset size) (offset + first offset size)
          (size - first offset size) :=
  if_neg (by omega)

theorem sectorsOk_zero : SectorsOk buf flash pos offset 0 := by
  intro k lo n hlo hn hpos
  omega

/-- The first part, and the parts of the rest. -/
theorem sectorsOk_succ (hs : 0 < size) :
    SectorsOk buf flash pos offset size ↔ PieceOk buf flash pos offset (first offset size) ∧
      SectorsOk buf flash (pos + first offset size) (offset + first offset size)
        (size - first offset size) := by
  unfold first
  constructor
  · intro hok
    refine ⟨?_, fun k lo n hlo hn hpos => ?_⟩
    · have hfirst := hok (offset / 4096) offset (min (4096 - offset % 4096) size) (by omega)
        (by omega) (by omega)
      rwa [Nat.sub_self, Nat.add_zero] at hfirst
    · have hlater := hok k lo n (by omega) (by omega) hpos
      rwa [show pos + (lo - offset) = pos + min (4096 - offset % 4096) size +
        (lo - (offset + min (4096 - offset % 4096) size)) by omega] at hlater
  · rintro ⟨hfirst, hrest⟩ k lo n hlo hn hpos
    by_cases hk : k = offset / 4096
    · have hlo' : lo = offset := by omega
      have hn' : n = min (4096 - offset % 4096) size := by omega
      rw [hlo', Nat.sub_self, Nat.add_zero, hn']
      exact hfirst
    · have hlater := hrest k lo n (by omega) (by omega) hpos
      rwa [show pos + min (4096 - offset % 4096) size +
        (lo - (offset + min (4096 - offset % 4096) size)) = pos + (lo - offset) by omega] at hlater

/-- Nothing changes below the sector that the range starts in. -/
theorem writeraw_confined (h : offset + size ≤ 16777216)
    (hw : writeraw buf fuel flash pos offset size = some flash') {a : Nat}
    (ha : a / 4096 < offset / 4096) : flash' a = flash a := by
  induction fuel generalizing flash pos offset size with
  | zero => cases hw
  | succ fuel ih =>
    rcases Nat.eq_zero_or_pos size with rfl | hs
    · rw [writeraw_zero] at hw
      rw [Option.some.inj hw]
    · rw [writeraw_succ hs] at hw
      obtain ⟨flash₁, hpiece, hrest⟩ := Option.bind_eq_some_iff.1 hw
      have hin := first_inSector h hs
      have hle : first offset size ≤ size := Nat.min_le_right _ _
      have hlater : flash' a = flash₁ a := ih (by omega) hrest (by omega)
      exact hlater.trans (writePiece_confined hin hpiece (by omega))

/-- The sectors after the first see nothing of it. -/
theorem SectorsOk.congr (h : offset + size ≤ 16777216) (hok : SectorsOk buf flash pos offset size)
    (heq : ∀ a, offset / 4096 ≤ a / 4096 → flash' a = flash a) :
    SectorsOk buf flash' pos offset size := by
  intro k lo n hlo hn hpos
  have hin : InSector lo n := ⟨hpos, by omega, by omega⟩
  exact (hok k lo n hlo hn hpos).congr hin fun a ha => heq a (by omega)

theorem sectorsOk_of_holds (h : offset + size ≤ 16777216)
    (hw : writeraw buf fuel flash pos offset size = some flash')
    (hh : Holds buf flash pos offset size flash') : SectorsOk buf flash pos offset size := by
  induction fuel generalizing flash pos offset size with
  | zero => cases hw
  | succ fuel ih =>
    rcases Nat.eq_zero_or_pos size with rfl | hs
    · exact sectorsOk_zero
    · rw [writeraw_succ hs] at hw
      obtain ⟨flash₁, hpiece, hrest⟩ := Option.bind_eq_some_iff.1 hw
      have hin := first_inSector h hs
      have hdef : first offset size = min (4096 - offset % 4096) size := rfl
      -- what comes later leaves the first sector alone
      have hlater : ∀ a, a / 4096 ≤ offset / 4096 → flash' a = flash₁ a := by
        intro a ha
        rcases Nat.eq_zero_or_pos (size - first offset size) with hend | hmore
        · cases fuel with
          | zero => cases hrest
          | succ fuel =>
            rw [hend, writeraw_zero] at hrest
            rw [Option.some.inj hrest]
        · exact writeraw_confined (by omega) hrest (by omega)
      have hfirst : Holds buf flash pos offset (first offset size) flash₁ := by
        constructor
        · intro i hi
          rw [← hlater (offset + i) (by omega)]
          exact hh.inside i (by omega)
        · intro a ha
          by_cases hsame : a / 4096 = offset / 4096
          · rw [← hlater a (by omega)]
            exact hh.outside a (by omega)
          · exact writePiece_confined hin hpiece hsame
      have hothers : Holds buf flash₁ (pos + first offset size) (offset + first offset size)
          (size - first offset size) flash' := by
        constructor
        · intro i hi
          rw [Nat.add_assoc, Nat.add_assoc]
          exact hh.inside (first offset size + i) (by omega)
        · intro a ha
          by_cases hbelow : a / 4096 ≤ offset / 4096
          · exact hlater a hbelow
          · rw [hh.outside a (by omega), hfirst.outside a (by omega)]
      have hok := ih (by omega) hrest hothers
      refine (sectorsOk_succ hs).2 ⟨pieceOk_of_holds hin hpiece hfirst, ?_⟩
      rcases Nat.eq_zero_or_pos (size - first offset size) with hend | hmore
      · rw [hend]
        exact sectorsOk_zero
      · exact hok.congr (by omega) fun a ha => (hfirst.outside a (by omega)).symm

theorem holds_of_sectorsOk (h : offset + size ≤ 16777216)
    (hok : SectorsOk buf flash pos offset size) (hf : size < fuel) :
    ∃ flash', writeraw buf fuel flash pos offset size = some flash' ∧
      Holds buf flash pos offset size flash' := by
  induction fuel generalizing flash pos offset size with
  | zero => omega
  | succ fuel ih =>
    rcases Nat.eq_zero_or_pos size with rfl | hs
    · exact ⟨flash, writeraw_zero, fun i hi => absurd hi (Nat.not_lt_zero i), fun _ _ => rfl⟩
    · have hin := first_inSector h hs
      have hdef : first offset size = min (4096 - offset % 4096) size := rfl
      obtain ⟨hpiece, hrest⟩ := (sectorsOk_succ hs).1 hok
      obtain ⟨flash₁, hfirst, hholds⟩ := @holds_of_pieceOk _ _ _ fuel _ _ hin hpiece (by omega)
      have hrest' : SectorsOk buf flash₁ (pos + first offset size) (offset + first offset size)
          (size - first offset size) := by
        rcases Nat.eq_zero_or_pos (size - first offset size) with hend | hmore
        · rw [hend]
          exact sectorsOk_zero
        · exact hrest.congr (by omega) fun a ha => hholds.outside a (by omega)
      obtain ⟨flash₂, hlater, hothers⟩ := ih (by omega) hrest' (by omega)
      refine ⟨flash₂, by rw [writeraw_succ hs, hfirst, Option.bind_some, hlater], ?_, ?_⟩
      · intro i hi
        by_cases hlow : i < first offset size
        · rw [hothers.outside _ (by omega)]
          exact hholds.inside i hlow
        · have hbyte := hothers.inside (i - first offset size) (by omega)
          rwa [Nat.add_assoc, Nat.add_assoc, Nat.add_sub_of_le (by omega)] at hbyte
      · intro a ha
        rw [hothers.outside a (by omega), hholds.outside a (by omega)]

/-- `bootflash_writeraw` ends with the buffer in its range and everything else as it was, for a
range of the addresses that the chip has, exactly when each of the sectors can be written: it holds
the bytes already; or the code sees that it is not erased, it has nothing outside the range, and the
bytes for it are all blank or start at an even address and are even in number; or it looks erased,
the bytes are even in number, and writing them only clears bits. -/
theorem writeraw_iff (buf flash : Nat → UInt8) (pos offset size : Nat)
    (h : offset + size ≤ 16777216) :
    Written buf flash pos offset size ↔ SectorsOk buf flash pos offset size := by
  constructor
  · rintro ⟨fuel, flash', hw, hh⟩
    exact sectorsOk_of_holds h hw hh
  · intro hok
    exact ⟨size + 1, holds_of_sectorsOk h hok (Nat.lt_succ_self size)⟩

/-- Two bytes at the start of an erased flash. -/
theorem writeraw_two : Written (fun _ => 0x5a) (fun _ => 0xff) 0 0 2 := by
  refine (writeraw_iff _ _ 0 0 2 (by decide)).2 ?_
  intro k lo n hlo hn hpos
  refine .inr (.inr ⟨fun _ _ _ => rfl, by omega, ?_⟩)
  rw [Programmable, if_pos (by omega)]
  intro _ _
  decide

/-- The byte behind the two that are written is lost when the sector is erased for them. -/
theorem erases_the_rest :
    ¬ ∀ (buf flash : Nat → UInt8) (pos offset size : Nat), offset + size ≤ 16777216 →
      Written buf flash pos offset size := by
  intro hall
  obtain ⟨fuel, flash', hw, hh⟩ := hall (fun _ => 0x5a) (fun _ => 0) 0 0 2 (by decide)
  have hok := sectorsOk_of_holds (by decide) hw hh 0 0 2 (by decide) (by decide) (by decide)
  rcases hok with hsame | ⟨-, hrest, -⟩ | ⟨hlook, -⟩
  · have hbyte := hsame 0 (by decide)
    revert hbyte
    decide
  · have hbyte := hrest 2 (by decide) (.inr (by decide))
    revert hbyte
    decide
  · have hbyte := hlook 0 (by decide) (by decide)
    revert hbyte
    decide

end Bootflash
end Freemyipod
