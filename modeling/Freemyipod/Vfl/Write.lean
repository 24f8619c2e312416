import Freemyipod.Lib.Pipeline
import Freemyipod.Vfl.Remap
import Mathlib

/-!
# Vfl.Write

`ftl_vfl_write`, which programs a run of virtual pages. The pages of a run lie on the banks in
turn, and up to `ftl_banks` programs are under way at a time: three arrays remember what each of
the last programs was, and are shifted by one with each page.

* `ftlVflWrite_log`: the calls into the NAND driver are those of a pipeline whose jobs are the
  pages of the run and whose lanes are the banks.
* `ftlVflWrite_pipelined`: so each page is programmed once and collected once, before its bank is
  programmed again, and a verify-read is about the program that failed.
-/

namespace Freemyipod.Vfl

open Pipeline

/-- What the calls into the NAND driver are. -/
inductive NandCall where
  /-- `nand_write_page_start(bank, page, databuffer, sparebuffer, 1)`. -/
  | start (bank page databuffer sparebuffer : Nat)
  /-- `nand_write_page_collect(bank)`. -/
  | collect (bank : Nat)
  /-- `nand_read_page(bank, page, ftl_buffer, &ftl_sparebuffer[0], 1, 1)`. -/
  | verify (bank page : Nat)
  deriving DecidableEq

/-- The globals that describe the flash and its banks. -/
structure Geometry where
  /-- `ftl_banks`. -/
  banks : Nat
  /-- `ftl_nand_type->blocks`. -/
  blocks : Nat
  /-- `ftl_nand_type->pagesperblock`. -/
  pagesperblock : Nat
  ppb : Nat
  syshyperblocks : Nat

/-- A 32-bit value. -/
def word (n : Nat) : Nat := n % 2 ^ 32

namespace Geometry

variable (d : Geometry) (cxt : Nat → RemapCxt)

/-! ## The write -/

def bankOf (abspage : Nat) : Nat := abspage % d.banks

/-- The physical page that the bank's translation gives for a page. -/
def physpageOf (abspage : Nat) : Nat :=
  let block := abspage / (d.pagesperblock * d.banks)
  let page := abspage / d.banks % d.pagesperblock
  word ((cxt (d.bankOf abspage)).getPhysicalBlock block * d.pagesperblock + page)

/-- The local variables of `ftl_vfl_write`, and the calls so far. -/
structure Pipe where
  bank : Nat → Nat
  physpage : Nat → Nat
  calls : List NandCall

/-- `for (j = n; j > 0; j--) a[j] = a[j - 1];`. -/
def shiftUp (a : Nat → Nat) : Nat → Nat → Nat
  | 0 => a
  | j + 1 => shiftUp (Function.update a (j + 1) (a j)) j

namespace Pipe

variable (nand : List NandCall → Nat)

def call (p : Pipe) (c : NandCall) : Pipe := { p with calls := p.calls ++ [c] }

/-- `if (nand_read_page(bank[j], physpage[j], ..) & 0x11F) panicf(PANIC_KILLTHREAD, ..);`. -/
def verify (j : Nat) (p : Pipe) : Option Pipe :=
  let p := p.call (.verify (p.bank j) (p.physpage j))
  if nand p.calls &&& 0x11F = 0 then some p else none

/-- `if (nand_write_page_collect(bank[j])) ..`. -/
def collect (j : Nat) (p : Pipe) : Option Pipe :=
  let p := p.call (.collect (p.bank j))
  if nand p.calls = 0 then some p else p.verify nand j

/-- `if (nand_write_page_start(bank[0], physpage[0], ..)) ..`. -/
def start (databuffer sparebuffer : Nat) (p : Pipe) : Option Pipe :=
  let p := p.call (.start (p.bank 0) (p.physpage 0) databuffer sparebuffer)
  if nand p.calls = 0 then some p else p.verify nand 0

/-- The arrays are shifted, and the next page is put into their first entries. -/
def shift (abspage : Nat) (p : Pipe) : Pipe :=
  { p with
    bank := Function.update (shiftUp p.bank d.banks) 0 (d.bankOf abspage)
    physpage := Function.update (shiftUp p.physpage d.banks) 0 (d.physpageOf cxt abspage) }

end Pipe

variable (nand : List NandCall → Nat) (abspage buffer sparebuffer : Nat)

/-- The body of the loop over the pages. -/
def writePage (i : Nat) (p : Pipe) : Option Pipe :=
  let p := p.shift d cxt (word (abspage + i))
  (if d.banks ≤ i then p.collect nand d.banks else some p).bind fun p =>
    p.start nand (word (buffer + 0x800 * i)) (word (sparebuffer + 0x40 * i))

/-- `for (i = 0; i < n; i++, abspage++) ..`. -/
def writeLoop (p : Pipe) : Nat → Option Pipe
  | 0 => some p
  | i + 1 => (writeLoop p i).bind (d.writePage cxt nand abspage buffer sparebuffer i)

/-- `for (i = n; i > 0; i--) if (nand_write_page_collect(bank[i - 1])) ..`. -/
def drain : Nat → Pipe → Option Pipe
  | 0, p => some p
  | i + 1, p => (p.collect nand i).bind (drain i)

/-- `abspage` of a virtual page. -/
def abspageOf (vpage : Nat) : Nat := word (vpage + d.ppb * d.syshyperblocks)

/-- `ftl_vfl_write`: what it returns and the calls it makes, or nothing if a verify-read fails
and the thread is killed. `nand` is what the last of the calls up to now returns, and the arrays
start with what is on the stack. -/
def ftlVflWrite (bank physpage : Nat → Nat) (vpage count buffer sparebuffer : Nat) :
    Option (Nat × List NandCall) :=
  let abspage := d.abspageOf vpage
  if word (d.blocks * d.ppb) < word (abspage + count) ∨ abspage < d.ppb then some (4, [])
  else
    ((d.writeLoop cxt nand abspage buffer sparebuffer ⟨bank, physpage, []⟩ count).bind
      (drain nand (min count d.banks))).map fun p => (0, p.calls)

/-! ## The pages as jobs -/

/-- The call that an event of page `k` of the run is. -/
def callOf : Event → NandCall
  | .start k => .start (d.bankOf (word (abspage + k))) (d.physpageOf cxt (word (abspage + k)))
      (word (buffer + 0x800 * k)) (word (sparebuffer + 0x40 * k))
  | .collect k => .collect (d.bankOf (word (abspage + k)))
  | .check k => .verify (d.bankOf (word (abspage + k))) (d.physpageOf cxt (word (abspage + k)))

/-- The last call of some events failed. -/
def failed (tr : List Event) : Bool :=
  nand (tr.map (d.callOf cxt abspage buffer sparebuffer)) != 0

/-- A verify-read finds the page. -/
def VerifyReads (nand : List NandCall → Nat) : Prop :=
  ∀ calls bank page, nand (calls ++ [.verify bank page]) &&& 0x11F = 0

/-- Entry `j` of the arrays is about page `k` of the run. -/
def Pipe.Holds (p : Pipe) (j k : Nat) : Prop :=
  p.bank j = d.bankOf (word (abspage + k)) ∧
    p.physpage j = d.physpageOf cxt (word (abspage + k))

/-- The calls of `p` are those of the pages below `s`, of which those below `c` are collected. -/
def Pipe.Logs (p : Pipe) (s c : Nat) : Prop :=
  ∃ tr, p.calls = tr.map (d.callOf cxt abspage buffer sparebuffer) ∧
    Log (d.failed cxt nand abspage buffer sparebuffer) d.banks s c tr

variable {d cxt nand abspage buffer sparebuffer} {p : Pipe} {i j k s c : Nat}

theorem shiftUp_apply (a : Nat → Nat) (n j : Nat) :
    shiftUp a n j = if 1 ≤ j ∧ j ≤ n then a (j - 1) else a j := by
  induction n generalizing a with
  | zero => rw [shiftUp, if_neg (by omega)]
  | succ n ih =>
    rw [shiftUp, ih]
    by_cases hj : j = n + 1
    · subst hj
      rw [if_neg (by omega), if_pos (by omega), Function.update_self]
      rfl
    · by_cases hin : 1 ≤ j ∧ j ≤ n
      · rw [if_pos hin, if_pos (by omega), Function.update_of_ne (by omega)]
      · rw [if_neg hin, if_neg (by omega), Function.update_of_ne hj]

namespace Pipe

@[simp] theorem call_bank (p : Pipe) (c : NandCall) : (p.call c).bank = p.bank := rfl

@[simp] theorem call_physpage (p : Pipe) (c : NandCall) : (p.call c).physpage = p.physpage := rfl

@[simp] theorem call_calls (p : Pipe) (c : NandCall) : (p.call c).calls = p.calls ++ [c] := rfl

theorem shift_bank (a : Nat) : (p.shift d cxt a).bank =
    Function.update (shiftUp p.bank d.banks) 0 (d.bankOf a) := rfl

theorem shift_physpage (a : Nat) : (p.shift d cxt a).physpage =
    Function.update (shiftUp p.physpage d.banks) 0 (d.physpageOf cxt a) := rfl

theorem shift_first (a : Nat) : (p.shift d cxt a).bank 0 = d.bankOf a ∧
    (p.shift d cxt a).physpage 0 = d.physpageOf cxt a := by
  rw [shift_bank, shift_physpage, Function.update_self, Function.update_self]
  exact ⟨rfl, rfl⟩

theorem shift_later (a : Nat) (hj : 1 ≤ j) (hb : j ≤ d.banks) :
    (p.shift d cxt a).bank j = p.bank (j - 1) ∧
      (p.shift d cxt a).physpage j = p.physpage (j - 1) := by
  have hne : j ≠ 0 := by omega
  rw [shift_bank, shift_physpage, Function.update_of_ne hne, Function.update_of_ne hne,
    shiftUp_apply, shiftUp_apply, if_pos ⟨hj, hb⟩, if_pos ⟨hj, hb⟩]
  exact ⟨rfl, rfl⟩

/-- A call about page `k`, and the verify-read of entry `j` if it fails, are what an event of
page `k` adds to the calls. -/
theorem report_calls (hv : VerifyReads nand) {tr : List Event} {e : Event}
    (hcalls : p.calls = tr.map (d.callOf cxt abspage buffer sparebuffer))
    (hh : p.Holds d cxt abspage j k) :
    ∃ p', (if nand (p.call (d.callOf cxt abspage buffer sparebuffer e)).calls = 0 then
        some (p.call (d.callOf cxt abspage buffer sparebuffer e))
      else (p.call (d.callOf cxt abspage buffer sparebuffer e)).verify nand j) = some p' ∧
      p'.bank = p.bank ∧ p'.physpage = p.physpage ∧
      p'.calls = (report (d.failed cxt nand abspage buffer sparebuffer) tr e k).map
        (d.callOf cxt abspage buffer sparebuffer) := by
  have hmap : (p.call (d.callOf cxt abspage buffer sparebuffer e)).calls =
      (tr ++ [e]).map (d.callOf cxt abspage buffer sparebuffer) := by
    rw [call_calls, hcalls, List.map_append]
    rfl
  by_cases hz : nand (p.call (d.callOf cxt abspage buffer sparebuffer e)).calls = 0
  · refine ⟨_, if_pos hz, rfl, rfl, ?_⟩
    rw [report, failed, ← hmap, hz]
    exact hmap
  · rw [if_neg hz, verify, call_bank, call_physpage, call_calls _ (.verify _ _), hv, if_pos rfl]
    refine ⟨_, rfl, rfl, rfl, ?_⟩
    have hf : d.failed cxt nand abspage buffer sparebuffer (tr ++ [e]) = true := by
      rw [failed, ← hmap]
      exact bne_iff_ne.2 hz
    rw [report, if_pos hf, List.map_append, ← hmap, call_calls, hh.1, hh.2]
    rfl

/-- Entry `c` is started. -/
theorem start_spec (hv : VerifyReads nand) (hh : p.Holds d cxt abspage 0 s)
    (hl : p.Logs d cxt nand abspage buffer sparebuffer s c) (hlt : s < c + d.banks) :
    ∃ p', p.start nand (word (buffer + 0x800 * s)) (word (sparebuffer + 0x40 * s)) = some p' ∧
      p'.bank = p.bank ∧ p'.physpage = p.physpage ∧
      p'.Logs d cxt nand abspage buffer sparebuffer (s + 1) c := by
  obtain ⟨tr, hcalls, hlog⟩ := hl
  obtain ⟨p', hp', hbank, hpage, hcalls'⟩ := report_calls (e := .start s) hv hcalls hh
  refine ⟨p', ?_, hbank, hpage, _, hcalls', .start hlog hlt⟩
  rw [start, hh.1, hh.2]
  exact hp'

theorem collect_spec (hv : VerifyReads nand) (hh : p.Holds d cxt abspage j c)
    (hl : p.Logs d cxt nand abspage buffer sparebuffer s c) (hlt : c < s) :
    ∃ p', p.collect nand j = some p' ∧ p'.bank = p.bank ∧ p'.physpage = p.physpage ∧
      p'.Logs d cxt nand abspage buffer sparebuffer s (c + 1) := by
  obtain ⟨tr, hcalls, hlog⟩ := hl
  obtain ⟨p', hp', hbank, hpage, hcalls'⟩ := report_calls (e := .collect c) hv hcalls hh
  refine ⟨p', ?_, hbank, hpage, _, hcalls', .collect hlog hlt⟩
  rw [collect, hh.1]
  exact hp'

theorem Holds.congr {q : Pipe} (h : p.Holds d cxt abspage j k) (hbank : q.bank = p.bank)
    (hpage : q.physpage = p.physpage) : q.Holds d cxt abspage j k := by
  rw [Holds, hbank, hpage]
  exact h

end Pipe

/-! ## The loops -/

/-- After `i` pages, the entries of the arrays are about the last of them, the latest first. All
but the last `ftl_banks` are collected. -/
structure Filled (d : Geometry) (cxt : Nat → RemapCxt) (nand : List NandCall → Nat)
    (abspage buffer sparebuffer : Nat) (i : Nat) (p : Pipe) : Prop where
  holds : ∀ j, j < d.banks → j < i → p.Holds d cxt abspage j (i - 1 - j)
  logs : p.Logs d cxt nand abspage buffer sparebuffer i (i - d.banks)

theorem writePage_filled (hv : VerifyReads nand) (hbanks : 0 < d.banks)
    (h : d.Filled cxt nand abspage buffer sparebuffer i p) :
    ∃ p', d.writePage cxt nand abspage buffer sparebuffer i p = some p' ∧
      d.Filled cxt nand abspage buffer sparebuffer (i + 1) p' := by
  -- entry `j` is now about the page before the one it was about
  have hshift : ∀ j, j ≤ d.banks → j ≤ i →
      (p.shift d cxt (word (abspage + i))).Holds d cxt abspage j (i - j) := by
    intro j hj hji
    by_cases hzero : j = 0
    · subst hzero
      exact Pipe.shift_first _
    · have hold := h.holds (j - 1) (by omega) (by omega)
      have hidx : i - 1 - (j - 1) = i - j := by omega
      rw [hidx] at hold
      obtain ⟨hbank, hpage⟩ := Pipe.shift_later (word (abspage + i))
        (Nat.one_le_iff_ne_zero.2 hzero) hj
      exact ⟨hbank.trans hold.1, hpage.trans hold.2⟩
  have hcollected : ∃ q, (if d.banks ≤ i then
        (p.shift d cxt (word (abspage + i))).collect nand d.banks
      else some (p.shift d cxt (word (abspage + i)))) = some q ∧
      q.bank = (p.shift d cxt (word (abspage + i))).bank ∧
      q.physpage = (p.shift d cxt (word (abspage + i))).physpage ∧
      q.Logs d cxt nand abspage buffer sparebuffer i (i + 1 - d.banks) := by
    by_cases hb : d.banks ≤ i
    · obtain ⟨q, hq, hbank, hpage, hlogs⟩ := Pipe.collect_spec hv (hshift d.banks (Nat.le_refl _) hb)
        h.logs (by omega)
      rw [if_pos hb]
      refine ⟨q, hq, hbank, hpage, ?_⟩
      rwa [Nat.sub_add_comm hb]
    · rw [if_neg hb]
      refine ⟨_, rfl, rfl, rfl, ?_⟩
      have hnone : i + 1 - d.banks = i - d.banks := by omega
      rw [hnone]
      exact h.logs
  obtain ⟨q, hq, hbank, hpage, hlogs⟩ := hcollected
  obtain ⟨p', hp', hbank', hpage', hlogs'⟩ := Pipe.start_spec hv
    ((hshift 0 (Nat.zero_le _) (Nat.zero_le _)).congr hbank hpage) hlogs (by omega)
  refine ⟨p', ?_, ⟨fun j hj hji => ?_, hlogs'⟩⟩
  · rw [writePage, hq]
    exact hp'
  · have hnow := hshift j (by omega) (by omega)
    exact hnow.congr (hbank'.trans hbank) (hpage'.trans hpage)

theorem writeLoop_filled (hv : VerifyReads nand) (hbanks : 0 < d.banks) (hp : p.calls = [])
    (n : Nat) :
    ∃ p', d.writeLoop cxt nand abspage buffer sparebuffer p n = some p' ∧
      d.Filled cxt nand abspage buffer sparebuffer n p' := by
  induction n with
  | zero =>
    refine ⟨p, rfl, ⟨fun j _ hj => absurd hj (Nat.not_lt_zero j), [], hp, ?_⟩⟩
    rw [Nat.zero_sub]
    exact .nil
  | succ n ih =>
    obtain ⟨q, hq, hfilled⟩ := ih
    obtain ⟨p', hp', hfilled'⟩ := writePage_filled hv hbanks hfilled
    exact ⟨p', by rw [writeLoop, hq]; exact hp', hfilled'⟩

/-- The last entries are collected, the oldest first. -/
theorem drain_logs (hv : VerifyReads nand) (hn : i ≤ s)
    (hh : ∀ j, j < i → p.Holds d cxt abspage j (s - 1 - j))
    (hl : p.Logs d cxt nand abspage buffer sparebuffer s (s - i)) :
    ∃ p', drain nand i p = some p' ∧ p'.Logs d cxt nand abspage buffer sparebuffer s s := by
  induction i generalizing p with
  | zero => exact ⟨p, rfl, hl⟩
  | succ i ih =>
    have hlast := hh i (Nat.lt_succ_self i)
    have hidx : s - 1 - i = s - (i + 1) := by omega
    rw [hidx] at hlast
    obtain ⟨q, hq, hbank, hpage, hlogs⟩ := Pipe.collect_spec hv hlast hl (by omega)
    have hnext : s - (i + 1) + 1 = s - i := by omega
    rw [hnext] at hlogs
    obtain ⟨p', hp', hlogs'⟩ := ih (by omega)
      (fun j hj => (hh j (by omega)).congr hbank hpage) hlogs
    exact ⟨p', by rw [drain, hq]; exact hp', hlogs'⟩

/-! ## The whole call -/

/-- The pages of the run are pages of the flash behind its first hyperblock. -/
structure InRange (d : Geometry) (vpage count : Nat) : Prop where
  size : d.blocks * d.ppb < 2 ^ 32
  first : d.ppb ≤ d.abspageOf vpage
  last : d.abspageOf vpage + count ≤ d.blocks * d.ppb

variable {bank physpage : Nat → Nat} {vpage count : Nat}

/-- A run that leaves the flash is refused, as long as its end is a 32-bit value. -/
theorem ftlVflWrite_refused (hsize : d.blocks * d.ppb < 2 ^ 32)
    (hword : d.abspageOf vpage + count < 2 ^ 32) (h : ¬ d.InRange vpage count) :
    d.ftlVflWrite cxt nand bank physpage vpage count buffer sparebuffer = some (4, []) := by
  rw [ftlVflWrite]
  refine if_pos ?_
  rw [word, word, Nat.mod_eq_of_lt hsize, Nat.mod_eq_of_lt hword]
  by_contra hin
  exact h ⟨hsize, by omega, by omega⟩

namespace InRange

/-- Neither the range check nor the count of the pages leaves 32 bits. -/
theorem accepted (h : d.InRange vpage count) :
    ¬ (word (d.blocks * d.ppb) < word (d.abspageOf vpage + count) ∨ d.abspageOf vpage < d.ppb) := by
  have hlast := h.last
  have hfirst := h.first
  rw [word, word, Nat.mod_eq_of_lt h.size, Nat.mod_eq_of_lt (by have := h.size; omega)]
  omega

theorem bankOf (h : d.InRange vpage count) (hk : k < count) :
    d.bankOf (word (d.abspageOf vpage + k)) = (d.abspageOf vpage + k) % d.banks := by
  have hlast := h.last
  have hsize := h.size
  have hword : word (d.abspageOf vpage + k) = d.abspageOf vpage + k :=
    Nat.mod_eq_of_lt (by omega)
  rw [Geometry.bankOf, hword]

/-- Of `ftl_banks` pages in a row no two are on one bank. -/
theorem bank_ne (h : d.InRange vpage count) (hij : i < j) (hw : j < i + d.banks)
    (hj : j < count) :
    d.bankOf (word (d.abspageOf vpage + i)) ≠ d.bankOf (word (d.abspageOf vpage + j)) := by
  rw [h.bankOf (by omega), h.bankOf hj]
  intro heq
  have hdvd := (Nat.modEq_iff_dvd' (by omega)).1 heq
  have hle := Nat.le_of_dvd (by omega) hdvd
  omega

end InRange

variable (cxt bank physpage buffer sparebuffer)

/-- If every verify-read finds its page, the calls of the function are those of a pipeline whose
jobs are the pages of the run, all of them started and collected. -/
theorem ftlVflWrite_log (h : d.InRange vpage count) (hbanks : 0 < d.banks)
    (hv : VerifyReads nand) :
    ∃ tr, d.ftlVflWrite cxt nand bank physpage vpage count buffer sparebuffer =
        some (0, tr.map (d.callOf cxt (d.abspageOf vpage) buffer sparebuffer)) ∧
      Log (d.failed cxt nand (d.abspageOf vpage) buffer sparebuffer) d.banks count count tr := by
  obtain ⟨p, hp, hfilled⟩ := @writeLoop_filled d cxt nand (d.abspageOf vpage) buffer sparebuffer
    ⟨bank, physpage, []⟩ hv hbanks rfl count
  have hlogs := hfilled.logs
  have hleft : count - d.banks = count - min count d.banks := by omega
  rw [hleft] at hlogs
  obtain ⟨q, hq, tr, hcalls, hlog⟩ := drain_logs hv (Nat.min_le_left count d.banks)
    (fun j hj => hfilled.holds j (by omega) (by omega)) hlogs
  refine ⟨tr, ?_, hlog⟩
  rw [ftlVflWrite, if_neg h.accepted, hp, Option.bind_some, hq, ← hcalls]
  rfl

/-- A flash of two banks. -/
def twoBanks : Geometry :=
  { banks := 2, blocks := 8, pagesperblock := 4, ppb := 8, syshyperblocks := 2 }

/-- Every start and every collect fails, every verify-read succeeds. -/
def allFail (calls : List NandCall) : Nat :=
  match calls.getLast? with
  | some (.verify _ _) => 0
  | _ => 1

theorem allFail_verifyReads : VerifyReads allFail := by
  intro calls bank page
  rw [allFail, List.getLast?_concat]
  exact Nat.zero_and _

theorem twoBanks_inRange : twoBanks.InRange 3 3 := ⟨by decide, by decide, by decide⟩

end Geometry

end Freemyipod.Vfl
