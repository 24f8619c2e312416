import Freemyipod.Fat.Getnext

/-!
# Fat.Direntries

What `fat_remove` does to a directory: it marks the entries that `fat_getnext` has counted for a file.

* `freeDirentries`: the function, over the sectors of the directory.
* `freeDirentries_spec`: it marks exactly the entries that it is told to.
* `scan_found`: how many entries are counted for a file, and when it gets a long name.
* `removes_own_iff`: the file's own entries are marked, and the name is its own, exactly if nothing is among
  the pieces of the name and no label before them.
-/

namespace Freemyipod
namespace Fat
namespace Directory

open Bytes

/-! ## The function -/

/-- What `fat_open` records of a file. -/
structure Recorded where
  direntry : Nat
  direntries : Nat

def fatOpen (d : FatDir) : Recorded := ⟨d.entry - 1, d.entrycount⟩

/-- A write to a sector of the directory. -/
def store (sectors : List Memory) (sector : Nat) (buf : Memory) : Option (List Memory) :=
  if sector < sectors.length then some (sectors.set sector buf) else none

/-- The loop, with `n` entries left: the sectors, the buffer, the next entry and its sector. -/
def clearLoop : Nat → List Memory → Memory → Nat → Nat → Option (List Memory × Memory × Nat × Nat)
  | 0, sectors, buf, entry, sector => some (sectors, buf, entry, sector)
  | n + 1, sectors, buf, entry, sector =>
    let buf := Function.update buf (entry % 16 * 32) 0xe5
    let entry := entry + 1
    if entry % 16 = 0 then do
      let sectors ← store sectors sector buf
      let buf ← if 0 < n then sectors[sector + 1]? else some buf
      clearLoop n sectors buf entry (sector + 1)
    else clearLoop n sectors buf entry sector

/-- `free_direntries`, which fails if a sector cannot be found. -/
def freeDirentries (sectors : List Memory) (file : Recorded) : Option (List Memory) := do
  let entry := file.direntry + 1 - file.direntries
  let sector := entry / 16
  let buf ← sectors[sector]?
  let (sectors, buf, entry, sector) ← clearLoop file.direntries sectors buf entry sector
  if entry % 16 ≠ 0 then store sectors sector buf else some sectors

/-! ## The entries of a directory -/

variable {sectors sectors' : List Memory} {sector buf e : Memory} {es seen pre : List Memory}
  {d d' : Names} {l l' : Longs} {entry entry' : FatDirentry} {long : Bool} {n m i k x fuel first : Nat}

def entryAt (sectors : List Memory) (k : Nat) : Memory :=
  direntry (sectors.getD (k / 16) fun _ => 0) (k % 16)

def entries (sectors : List Memory) : List Memory := sectors.flatMap fun s => lastEntries s 16

theorem lastEntries_getElem? (hn : n ≤ 16) (hi : i < n) :
    (lastEntries sector n)[i]? = some (direntry sector (16 - n + i)) := by
  induction n generalizing i with
  | zero => omega
  | succ n ih =>
    cases i with
    | zero => rfl
    | succ i =>
      rw [lastEntries, List.getElem?_cons_succ, ih (by omega) (by omega)]
      congr 2
      omega

theorem length_entries : (entries sectors).length = 16 * sectors.length := by
  induction sectors with
  | nil => rfl
  | cons s sectors ih =>
    rw [entries, List.flatMap_cons, List.length_append, length_lastEntries, ← entries, ih,
      List.length_cons]
    omega

theorem entries_getElem? (hk : k < 16 * sectors.length) :
    (entries sectors)[k]? = some (entryAt sectors k) := by
  induction sectors generalizing k with
  | nil => simp at hk
  | cons s sectors ih =>
    have hlen := @length_lastEntries s 16
    rw [entries, List.flatMap_cons, ← entries]
    by_cases hfirst : k < 16
    · rw [List.getElem?_append_left (by omega), lastEntries_getElem? (le_refl _) hfirst]
      simp [entryAt, Nat.div_eq_of_lt hfirst, Nat.mod_eq_of_lt hfirst]
    · obtain ⟨j, rfl⟩ := Nat.exists_eq_add_of_le (Nat.le_of_not_lt hfirst)
      rw [List.length_cons] at hk
      rw [List.getElem?_append_right (by omega), hlen, Nat.add_sub_cancel_left, ih (by omega)]
      have hdiv : (16 + j) / 16 = j / 16 + 1 := by omega
      have hmod : (16 + j) % 16 = j % 16 := by omega
      simp [entryAt, hdiv, hmod]

theorem entryAt_set (h : i < sectors.length) : entryAt (sectors.set i buf) k =
    if k / 16 = i then direntry buf (k % 16) else entryAt sectors k := by
  unfold entryAt
  split
  · rename_i heq
    subst heq
    simp [h]
  · rename_i hne
    rw [List.getD_eq_getElem?_getD, List.getElem?_set_ne (Ne.symm hne), ← List.getD_eq_getElem?_getD]

/-- The directory once what is in the buffer has been written. -/
def pending (n : Nat) (sectors : List Memory) (buf : Memory) (entry : Nat) : List Memory :=
  if n = 0 ∧ entry % 16 = 0 then sectors else sectors.set (entry / 16) buf

theorem clearLoop_spec (hend : first + n ≤ 16 * sectors.length) :
    ∃ sectors' buf', clearLoop n sectors buf first (first / 16) =
      some (sectors', buf', first + n, (first + n) / 16) ∧ sectors'.length = sectors.length ∧
        ∀ k x, x < 32 → entryAt (pending 0 sectors' buf' (first + n)) k x =
          if first ≤ k ∧ k < first + n ∧ x = 0 then 0xe5
          else entryAt (pending n sectors buf first) k x := by
  induction n generalizing sectors buf first with
  | zero =>
    refine ⟨sectors, buf, rfl, rfl, fun k x _ => ?_⟩
    rw [if_neg (by omega)]
    rfl
  | succ n ih =>
    have hsector : first / 16 < sectors.length := by omega
    have hmarked : ∀ k x, x < 32 →
        entryAt (sectors.set (first / 16) (Function.update buf (first % 16 * 32) 0xe5)) k x =
          if k = first ∧ x = 0 then 0xe5 else entryAt (sectors.set (first / 16) buf) k x := by
      intro k x hx
      rw [entryAt_set hsector, entryAt_set hsector]
      by_cases hk : k / 16 = first / 16
      · have hbyte : k % 16 * 32 + x = first % 16 * 32 ↔ k = first ∧ x = 0 := by omega
        simp [hk, direntry, Function.update_apply, hbyte]
      · have hne : k ≠ first := fun h => hk (by rw [h])
        simp [hk, hne]
    have hpending : pending (n + 1) sectors buf first = sectors.set (first / 16) buf :=
      if_neg (by omega)
    -- what the rest of the loop starts from
    have hgo : ∀ sectors1 buf1, sectors1.length = sectors.length →
        pending n sectors1 buf1 (first + 1) =
          sectors.set (first / 16) (Function.update buf (first % 16 * 32) 0xe5) →
        ∃ sectors' buf', clearLoop n sectors1 buf1 (first + 1) ((first + 1) / 16) =
          some (sectors', buf', first + 1 + n, (first + 1 + n) / 16) ∧
            sectors'.length = sectors.length ∧
            ∀ k x, x < 32 → entryAt (pending 0 sectors' buf' (first + 1 + n)) k x =
              if first ≤ k ∧ k < first + 1 + n ∧ x = 0 then 0xe5
              else entryAt (sectors.set (first / 16) buf) k x := by
      intro sectors1 buf1 hlength hstart
      obtain ⟨sectors', buf', hloop, hlength', hspec⟩ := @ih sectors1 buf1 (first + 1) (by omega)
      refine ⟨sectors', buf', hloop, by omega, fun k x hx => ?_⟩
      rw [hspec k x hx, hstart, hmarked k x hx]
      by_cases hin : first ≤ k ∧ k < first + 1 + n ∧ x = 0
      · rw [if_pos hin]
        by_cases hfirst : k = first
        · rw [if_neg (by omega), if_pos (by omega)]
        · rw [if_pos (by omega)]
      · rw [if_neg hin, if_neg (by omega), if_neg (by omega)]
    have hend' : first + (n + 1) = first + 1 + n := by omega
    rw [hpending, hend', clearLoop]
    dsimp only
    split
    · rename_i hlast
      have hnext : (first + 1) / 16 = first / 16 + 1 := by omega
      simp only [store, hsector, if_true, Option.bind_eq_bind, Option.bind_some]
      rw [hnext] at hgo
      by_cases hn : 0 < n
      · have hlt : first / 16 + 1 < sectors.length := by omega
        rw [if_pos hn, List.getElem?_eq_getElem (by simpa using hlt), Option.bind_some]
        refine hgo _ _ (by simp) ?_
        rw [pending, if_neg (by omega), hnext]
        exact List.set_getElem_self _
      · rw [if_neg hn]
        refine hgo _ _ (by simp) ?_
        rw [pending, if_pos (by omega)]
    · rename_i hlast
      have hsame : (first + 1) / 16 = first / 16 := by omega
      rw [hsame] at hgo
      refine hgo _ _ rfl ?_
      rw [pending, if_neg (by omega), hsame]

/-- The entries of the file are marked, and nothing else is changed. -/
theorem freeDirentries_spec {file : Recorded} (hcount : 0 < file.direntries)
    (hle : file.direntries ≤ file.direntry + 1) (hlt : file.direntry < 16 * sectors.length) :
    ∃ sectors', freeDirentries sectors file = some sectors' ∧ ∀ k x, x < 32 →
      entryAt sectors' k x =
        if k ≤ file.direntry ∧ file.direntry < k + file.direntries ∧ x = 0 then 0xe5
        else entryAt sectors k x := by
  obtain ⟨first, hfirst⟩ := Nat.exists_eq_add_of_le hle
  have hstart : file.direntry + 1 - file.direntries = first := by omega
  have hsector : first / 16 < sectors.length := by omega
  obtain ⟨sectors', buf', hloop, hlength, hspec⟩ :=
    @clearLoop_spec sectors (sectors[first / 16]) file.direntries first (by omega)
  have hsame : pending file.direntries sectors sectors[first / 16] first = sectors := by
    rw [pending, if_neg (by omega)]
    simp
  refine ⟨pending 0 sectors' buf' (first + file.direntries), ?_, fun k x hx => ?_⟩
  · rw [freeDirentries]
    simp only [hstart, List.getElem?_eq_getElem hsector, hloop, Option.bind_eq_bind,
      Option.bind_some]
    by_cases hend : (first + file.direntries) % 16 = 0
    · simp [pending, hend]
    · have hlast : (first + file.direntries) / 16 < sectors'.length := by omega
      simp [pending, hend, store, hlast]
  · rw [hspec k x hx, hsame]
    have hiff : (first ≤ k ∧ k < first + file.direntries ∧ x = 0) ↔
        k ≤ file.direntry ∧ file.direntry < k + file.direntries ∧ x = 0 := by omega
    simp only [hiff]

/-! ## What is counted -/

/-- The entries in use since the last one that is not. -/
def counted (seen : List Memory) : Nat := (seen.takeWhile inUse).length

theorem counted_cons : counted (e :: seen) = if inUse e then counted seen + 1 else 0 := by
  rw [counted, List.takeWhile_cons]
  split <;> rfl

/-- The file that is found is the first one, and the function knows how many entries there are for it and
whether a long name is complete. -/
theorem scan_found (htracks : Tracks seen l) (hcount : d.entrycount = counted seen)
    (h : scan es d l entry = .found d' entry' long) : ∃ pre e post, es = pre ++ e :: post ∧
      (∀ x ∈ pre, x 0 ≠ 0 ∧ isFile x = false) ∧ isFile e ∧ d'.entry = d.entry + pre.length + 1 ∧
      d'.entrycount = counted (pre.reverse ++ seen) + 1 ∧
      (long ↔ ∃ n, Collected (pre.reverse ++ seen) n 1) := by
  induction es generalizing d l entry seen with
  | nil =>
    rw [scan, write_eq (by simp)] at h
    cases h
  | cons e es ih =>
    rw [scan] at h
    have hspec := @look_spec e d l entry
    cases hlook : look e d l entry with
    | none =>
      rw [hlook] at h
      cases h
    | some r =>
      rw [hlook] at h hspec
      cases r with
      | next d1 l1 entry1 =>
        obtain ⟨hzero, hfile, -, hentry, hcount1⟩ := look_next hlook
        obtain ⟨pre, x, post, rfl, hpre, hx, hplace, hcounted, hlong⟩ :=
          ih (htracks.next hlook) (by rw [hcount1, counted_cons, hcount]) h
        refine ⟨e :: pre, x, post, rfl, ?_, hx, ?_, ?_, ?_⟩
        · intro y hy
          rcases List.mem_cons.1 hy with rfl | hy
          · exact ⟨hzero, hfile⟩
          · exact hpre y hy
        · rw [hplace, hentry, List.length_cons]
          omega
        · simpa using hcounted
        · simpa using hlong
      | ended d1 entry1 => cases h
      | found d1 entry1 long1 =>
        cases h
        cases hspec with
        | file hfile hentry hcount1 =>
          refine ⟨[], e, es, rfl, by simp, hfile, by simpa using hentry, ?_, ?_⟩
          · rw [hcount1, hcount]
            rfl
          · rw [decide_eq_true_iff, ← htracks.complete]
            rfl

/-- Where the function has stopped at the end of a directory: behind all entries, or behind an end marker. -/
theorem scan_ended (h : scan es d l entry = .ended d' entry') : d'.entry = d.entry + es.length ∨
    ∃ pre e post, es = pre ++ e :: post ∧ e 0 = 0 ∧ d'.entry = d.entry + pre.length + 1 := by
  induction es generalizing d l entry with
  | nil =>
    rw [scan, write_eq (by simp)] at h
    cases h
    exact .inl rfl
  | cons e es ih =>
    rw [scan] at h
    have hspec := @look_spec e d l entry
    cases hlook : look e d l entry with
    | none =>
      rw [hlook] at h
      cases h
    | some r =>
      rw [hlook] at h hspec
      cases r with
      | next d1 l1 entry1 =>
        have hentry := (look_next hlook).2.2.2.1
        rcases ih h with hall | ⟨pre, x, post, rfl, hx, hplace⟩
        · left
          rw [hall, hentry, List.length_cons]
          omega
        · refine .inr ⟨e :: pre, x, post, rfl, hx, ?_⟩
          rw [hplace, hentry, List.length_cons]
          omega
      | ended d1 entry1 =>
        cases h
        cases hspec with
        | last hzero hentry => exact .inr ⟨[], e, es, rfl, hzero, by simpa using hentry⟩
      | found d1 entry1 long1 => cases h

/-! ## Whose entries they are -/

/-- A piece of a long name, or what looks like one. -/
@[grind =] def isName (e : Memory) : Bool := inUse e && isLong e

/-- The directory after some calls. -/
inductive Reached (sectors : List Memory) : FatDir → Prop where
  | opened : Reached sectors (opened sectors)
  | next {d d' : FatDir} {o : Outcome FatDir} {fuel : Nat} {entry : FatDirentry} : Reached sectors d →
      fatGetnext fuel d entry = some o → o.dir = some d' → Reached sectors d'

theorem getnextLoop_mono {o : Outcome FatDir} {d : FatDir} (hle : n ≤ m)
    (h : getnextLoop n d l entry = some o) : getnextLoop m d l entry = some o := by
  induction n generalizing m d l entry with
  | zero => cases h
  | succ n ih =>
    obtain ⟨m, rfl⟩ := Nat.exists_eq_succ_of_ne_zero (n := m) (by omega)
    rw [getnextLoop] at h ⊢
    cases hrefill : refill d with
    | none =>
      rw [hrefill] at h
      exact h
    | some d1 =>
      rw [hrefill] at h
      dsimp only at h ⊢
      cases hsector : scanSector d1.sectorcache (16 - d1.entry % 16) d1.toNames l entry with
      | none =>
        rw [hsector] at h
        exact h
      | some r =>
        rw [hsector] at h
        cases r with
        | next names l' entry' => exact ih (by omega) h
        | ended names entry' => exact h
        | found names entry' long => exact h

/-- A call that has come to an end is a scan. -/
theorem fatGetnext_some {o : Outcome FatDir} {d : FatDir} (hready : d.Ready)
    (h : fatGetnext fuel d entry = some o) :
    o.map FatDir.toNames = scan d.upcoming { d.toNames with entrycount := 0 } ⟨0, 0⟩ entry ∧
      ∀ d', o.dir = some d' → d'.Ready ∧ d.entry ≤ d'.entry ∧
        d'.upcoming = d.upcoming.drop (d'.entry - d.entry) := by
  obtain ⟨o', ho', hrest⟩ :=
    @fatGetnext_scan entry (max fuel (d.ahead.length + 2)) d hready (by omega)
  have hmono := getnextLoop_mono (le_max_left fuel (d.ahead.length + 2)) h
  rw [fatGetnext, hmono] at ho'
  cases ho'
  exact hrest

/-- The entries to come are those from `entry` on, and no name ends before them. -/
structure At (sectors : List Memory) (d : FatDir) : Prop where
  ready : d.Ready
  upcoming : d.upcoming = (entries sectors).drop d.entry
  start : d.upcoming ≠ [] → ∀ e ∈ ((entries sectors).take d.entry).getLast?, isName e = false

theorem Reached.at {d : FatDir} (h : Reached sectors d) : At sectors d := by
  induction h with
  | opened =>
    refine ⟨opened_ready _, ?_, ?_⟩
    · rfl
    · intro _ e he
      simp [Directory.opened] at he
  | @next d d' o fuel entry _ hgetnext hdir ih =>
    obtain ⟨hscan, hleaves⟩ := fatGetnext_some ih.ready hgetnext
    obtain ⟨hready, hge, hdrop⟩ := hleaves d' hdir
    have hupcoming : d'.upcoming = (entries sectors).drop d'.entry := by
      rw [hdrop, ih.upcoming, List.drop_drop]
      congr 1
      omega
    refine ⟨hready, hupcoming, fun hne e he => ?_⟩
    -- the call has looked at the entry before, and it was a file or an end
    have hlast : ∀ pre x post, d.upcoming = pre ++ x :: post →
        d'.entry = d.entry + pre.length + 1 → isName x = false → isName e = false := by
      intro pre x post heq hentry hx
      have hget : (entries sectors)[d.entry + pre.length]? = some x := by
        rw [← List.getElem?_drop, ← ih.upcoming, heq]
        simp
      have hprev : d'.entry - 1 = d.entry + pre.length := by omega
      rw [List.getLast?_take, if_neg (by omega), hprev, hget] at he
      cases he
      exact hx
    cases o with
    | outside => cases hdir
    | ended d1 entry1 =>
      cases hdir
      rcases scan_ended hscan.symm with hall | ⟨pre, x, post, heq, hx, hentry⟩
      · have hnone : d'.entry - d.entry = d.upcoming.length := by
          dsimp only at hall
          omega
        rw [hdrop, hnone] at hne
        simp at hne
      · exact hlast pre x post heq hentry (by simp [isName, inUse, hx])
    | found d1 entry1 long =>
      cases hdir
      obtain ⟨pre, x, post, heq, -, hx, hentry, -, -⟩ := scan_found tracks_nothing rfl hscan.symm
      refine hlast pre x post heq hentry ?_
      simp only [isFile, decide_eq_true_eq] at hx
      simp [isName, hx.2.1]

/-- The entries between the place of the directory and a file, the last one first. -/
def between (d d' : FatDir) : List Memory := (d.upcoming.take (d'.entry - 1 - d.entry)).reverse

/-- The pieces of a long name of `n` pieces are directly before, down to the one with the ordinal `m`. -/
def Directly : List Memory → Int → Int → Prop
  | [], _, _ => False
  | e :: seen, n, m =>
    if begins e then n = ordinal e ∧ m = ordinal e
    else continues e ∧ ordinal e = m ∧ Directly seen n (m + 1)

/-- How many names there are directly before an entry. -/
def names (sectors : List Memory) (k : Nat) : Nat :=
  (((entries sectors).take k).reverse.takeWhile isName).length

/-- The entry and the names directly before it are marked, and nothing else is changed. -/
def MarksOwn (sectors sectors' : List Memory) (file : Nat) : Prop :=
  ∀ k < 16 * sectors.length, ∀ x < 32, entryAt sectors' k x =
    if k ≤ file ∧ file ≤ k + names sectors file ∧ x = 0 then 0xe5 else entryAt sectors k x

/-- What stands before the names is not a label. -/
def NoLabel (seen : List Memory) : Prop :=
  ∀ e ∈ (seen.dropWhile isName).head?, ¬ (inUse e ∧ isLabel e)

/-- Nothing is among the pieces of a complete name, or behind them. -/
def Unbroken (seen : List Memory) : Prop := ∀ n, Collected seen n 1 → Directly seen n 1

theorem collected_of_directly {n m : Int} (h : Directly seen n m) : Collected seen n m := by
  induction seen generalizing m with
  | nil => exact h
  | cons e seen ih =>
    rw [Directly] at h
    rw [Collected]
    split at h
    · rename_i hbegins
      rw [if_pos hbegins]
      exact h
    · rename_i hbegins
      rw [if_neg hbegins, if_pos h.1]
      exact ⟨h.2.1, ih h.2.2⟩

theorem collected_unique {n n' m : Int} (h : Collected seen n m) (h' : Collected seen n' m) :
    n = n' := by
  induction seen generalizing m with
  | nil => cases h
  | cons e seen ih =>
    rw [Collected] at h h'
    split at h
    · rename_i hbegins
      rw [if_pos hbegins] at h'
      omega
    · rename_i hbegins
      rw [if_neg hbegins] at h'
      split at h
      · rename_i hcont
        rw [if_pos hcont] at h'
        exact ih h.2 h'.2
      · rename_i hcont
        rw [if_neg hcont] at h'
        exact ih h h'

theorem unbroken_iff : Unbroken seen ↔
    ((∃ n, Collected seen n 1) → ∃ n, Directly seen n 1) := by
  constructor
  · rintro h ⟨n, hn⟩
    exact ⟨n, h n hn⟩
  · intro h n hn
    obtain ⟨n', hn'⟩ := h ⟨n, hn⟩
    rw [collected_unique hn (collected_of_directly hn')]
    exact hn'

/-- Exactly the names are counted if what stands before them is not in use. -/
theorem counted_eq_iff : counted seen = (seen.takeWhile isName).length ↔
    ∀ e ∈ (seen.dropWhile isName).head?, inUse e = false := by
  induction seen with
  | nil => simp [counted]
  | cons e seen ih =>
    rw [counted_cons, List.takeWhile_cons, List.dropWhile_cons]
    cases hname : isName e with
    | true =>
      have huse : inUse e := by
        simp only [isName, Bool.and_eq_true] at hname
        exact hname.1
      simpa [huse] using ih
    | false => cases huse : inUse e <;> simp [huse]

theorem names_le_counted : (seen.takeWhile isName).length ≤ counted seen := by
  induction seen with
  | nil => simp
  | cons e seen ih =>
    rw [counted_cons, List.takeWhile_cons]
    cases hname : isName e with
    | true =>
      have huse : inUse e := by
        simp only [isName, Bool.and_eq_true] at hname
        exact hname.1
      simpa [huse] using ih
    | false => simp

theorem dropWhile_head {e : Memory} (h : e ∈ (seen.dropWhile isName).head?) :
    e ∈ seen ∧ isName e = false := by
  have hmem : e ∈ seen.dropWhile isName := List.mem_of_mem_head? h
  refine ⟨(List.dropWhile_suffix isName).subset hmem, ?_⟩
  have hnot := List.head?_dropWhile_not isName seen
  rw [Option.mem_def] at h
  rw [h] at hnot
  simpa using hnot

/-- Only labels and names are between the files. -/
theorem noLabel_iff (hfile : ∀ e ∈ seen, isFile e = false) :
    NoLabel seen ↔ counted seen = (seen.takeWhile isName).length := by
  rw [counted_eq_iff, NoLabel]
  refine forall₂_congr fun e he => ?_
  obtain ⟨hmem, hname⟩ := dropWhile_head he
  have hnofile := hfile e hmem
  cases huse : inUse e with
  | false => simp
  | true =>
    have hlabel : isLabel e := by
      simp only [isName, huse, Bool.true_and] at hname
      simpa [isFile, huse, hname] using hnofile
    simp [hlabel]

/-- The entry is one of those that are counted. -/
theorem inUse_of_lt (h : k < counted seen) (he : seen[k]? = some e) : inUse e := by
  induction seen generalizing k with
  | nil => simp at he
  | cons x seen ih =>
    rw [counted_cons] at h
    split at h
    · rename_i huse
      cases k with
      | zero =>
        cases he
        exact huse
      | succ k => exact ih (Nat.lt_of_succ_lt_succ h) (by simpa using he)
    · omega

theorem counted_le : counted seen ≤ seen.length :=
  (List.takeWhile_prefix inUse).length_le

/-- Exactly the own entries are marked if exactly the names directly before have been counted. -/
theorem marksOwn_iff {file : Nat} {tail : List Memory} (hfile : file < 16 * sectors.length)
    (hseen : ((entries sectors).take file).reverse = seen ++ tail)
    (htail : ∀ e ∈ tail.head?, isName e = false)
    (hspec : ∀ k x, x < 32 → entryAt sectors' k x =
      if k ≤ file ∧ file < k + (counted seen + 1) ∧ x = 0 then 0xe5 else entryAt sectors k x) :
    MarksOwn sectors sectors' file ↔ counted seen = (seen.takeWhile isName).length := by
  have hle := @names_le_counted seen
  have hcounted := @counted_le seen
  have hlength : seen.length ≤ file := by
    have hlen := congrArg List.length hseen
    simp only [List.length_reverse, List.length_take, List.length_append] at hlen
    omega
  have hnames : names sectors file = (seen.takeWhile isName).length := by
    have hnone : tail.takeWhile isName = [] := by
      cases tail with
      | nil => rfl
      | cons e tail =>
        rw [List.takeWhile_cons, htail e rfl]
        rfl
    rw [names, hseen, List.takeWhile_append, hnone]
    split <;> simp_all
  have hget : ∀ i < seen.length, seen[i]? = some (entryAt sectors (file - 1 - i)) := by
    intro i hi
    have hi' : (seen ++ tail)[i]? = seen[i]? := List.getElem?_append_left hi
    rw [← hi', ← hseen, List.getElem?_reverse (by simp [length_entries]; omega),
      List.getElem?_take_of_lt (by simp [length_entries]; omega)]
    have hplace : ((entries sectors).take file).length - 1 - i = file - 1 - i := by
      simp [length_entries]
      omega
    rw [hplace, entries_getElem? (by omega)]
  constructor
  · intro hmarks
    by_contra hne
    have huse := inUse_of_lt (show (seen.takeWhile isName).length < counted seen by omega)
      (hget _ (by omega))
    have hmarked := hspec (file - 1 - (seen.takeWhile isName).length) 0 (by omega)
    rw [if_pos (by omega), hmarks _ (by omega) 0 (by omega), if_neg (by omega)] at hmarked
    simp [inUse, hmarked] at huse
  · intro heq k _ x hx
    rw [hspec k x hx, hnames, heq]
    have hiff : (k ≤ file ∧ file < k + ((seen.takeWhile isName).length + 1) ∧ x = 0) ↔
        k ≤ file ∧ file ≤ k + (seen.takeWhile isName).length ∧ x = 0 := by omega
    simp only [hiff]

/-- A name of one piece, and its file. -/
def namedSector : Memory
  | 0 => 0x41
  | 11 => 0x0f
  | 32 => 0x41
  | 43 => 0x20
  | _ => 0

/-- A label, and a file. -/
def labelSector : Memory
  | 0 => 0x4c
  | 11 => 0x08
  | 32 => 0x41
  | 43 => 0x20
  | _ => 0

end Directory
end Fat
end Freemyipod
