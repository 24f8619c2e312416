import Freemyipod.Lib.Bytes

/-!
# Host.Transfer

Reading and writing device memory from the host: `Emcore.read` and `Emcore.write` of
`emcore/tools/libemcore.py`. Large transfers go over the bulk interface, on cache lines of 64 bytes;
if it fails, `write` goes on with control transfers.

* `slowWrites`, `bulkWrites`, `write`: the two loops and the function, with the variables that they
  share. `Progress` is what holds of these throughout.
* `read`, `reads`: the other direction.
* `transfer_iff`: when all of the data are written.
-/

namespace Freemyipod
namespace Host

open Bytes

/-- `data[i : i + n]` -/
def slice (data : List UInt8) (i n : Nat) : List UInt8 := (data.drop i).take n

/-- The variables of `write`, and the memory of the device. -/
structure Vars where
  mem : Memory
  addr : Nat
  size : Nat
  offset : Nat

/-- A call that writes the next `n` bytes, and the assignments behind it. -/
@[grind =] def Vars.transfer (data : List UInt8) (n : Nat) (v : Vars) : Vars where
  mem := put v.mem v.addr (slice data v.offset n)
  addr := v.addr + n
  size := v.size - n
  offset := v.offset + n

/-- The last loop, with `_writemem` -/
def slowWrites (data : List UInt8) (v : Vars) : Vars :=
  if v.size = 0 then v else slowWrites data (v.transfer data (min v.size 0xf00))
termination_by v.size
decreasing_by simp only [Vars.transfer]; omega

/-- The loop with `_writemem_bulk`. The call `i` raises if `fails i` is some number, of bytes that
have been written by then. -/
def bulkWrites (data : List UInt8) (fails : Nat → Option Nat) (i : Nat) (v : Vars) :
    Except Vars Vars :=
  if v.size = 0 then .ok v
  else
    let chunk := min v.size 0xffc00
    match fails i with
    | some k => .error { v with mem := put v.mem v.addr ((slice data v.offset chunk).take k) }
    | none => bulkWrites data fails (i + 1) (v.transfer data chunk)
termination_by v.size
decreasing_by simp only [Vars.transfer]; omega

/-- The body of the `try`. The variables are what they are when it ends, or when it raises. -/
def tryBulk (bulkin : Bool) (data : List UInt8) (fails : Nat → Option Nat) (v : Vars) :
    Except Vars Vars :=
  if bulkin && decide (0x800 < v.size) then
    let v := if v.addr % 64 ≠ 0 then v.transfer data (64 - v.addr % 64) else v
    let align := v.size % 64
    (bulkWrites data fails 0 { v with size := v.size - align }).map fun v =>
      { v with size := align }
  else .ok v

def write (bulkin : Bool) (data : List UInt8) (fails : Nat → Option Nat) (mem : Memory)
    (addr : Nat) : Memory :=
  match tryBulk bulkin data fails ⟨mem, addr, data.length, 0⟩ with
  | .ok v => (slowWrites data v).mem
  | .error v => (slowWrites data v).mem

/-- The variables of `read` -/
structure Reading where
  data : List UInt8
  addr : Nat
  size : Nat

@[grind =] def Reading.receive (mem : Memory) (n : Nat) (v : Reading) : Reading where
  data := v.data ++ bytes mem v.addr n
  addr := v.addr + n
  size := v.size - n

def slowReads (mem : Memory) (v : Reading) : Reading :=
  if v.size = 0 then v else slowReads mem (v.receive mem (min v.size 0xf00))
termination_by v.size
decreasing_by simp only [Reading.receive]; omega

/-- The loop with `_readmem_bulk`, of which the call `i` raises if `fails i`. -/
def bulkReads (mem : Memory) (fails : Nat → Bool) (i : Nat) (v : Reading) : Option Reading :=
  if v.size = 0 then some v
  else if fails i then none
  else bulkReads mem fails (i + 1) (v.receive mem (min v.size 0xffc00))
termination_by v.size
decreasing_by simp only [Reading.receive]; omega

/-- Here the `except` raises again. -/
def read (bulkin : Bool) (fails : Nat → Bool) (mem : Memory) (addr size : Nat) :
    Option (List UInt8) :=
  let v : Reading := ⟨[], addr, size⟩
  let tried :=
    if bulkin && decide (0x800 < v.size) then
      let v := if v.addr % 64 ≠ 0 then v.receive mem (64 - v.addr % 64) else v
      let align := v.size % 64
      (bulkReads mem fails 0 { v with size := v.size - align }).map fun v =>
        { v with size := align }
    else some v
  tried.map fun v => (slowReads mem v).data

/-! ### What they are for -/

/-- The data are at `addr`, and nothing else has changed. -/
structure Written (mem : Memory) (addr : Nat) (data : List UInt8) (mem' : Memory) : Prop where
  inside : bytes mem' addr data.length = data
  outside : ∀ x, x < addr ∨ addr + data.length ≤ x → mem' x = mem x

/-- What `read` returns is what is there; and it returns if nothing fails. -/
def Reads (bulkin : Bool) : Prop :=
  ∀ fails mem addr size,
    (∀ bs, read bulkin fails mem addr size = some bs → bs = bytes mem addr size) ∧
      ((∀ i, fails i = false) → ∃ bs, read bulkin fails mem addr size = some bs)

/-- The bytes up to a cache line -/
def lead (addr : Nat) : Nat := if addr % 64 ≠ 0 then 64 - addr % 64 else 0

/-- The bytes behind the last full cache line -/
def tail (addr size : Nat) : Nat := (size - lead addr) % 64

/-- How many times the bulk interface is called -/
def calls (addr size : Nat) : Nat := (size - lead addr - tail addr size + 0xffbff) / 0xffc00

variable {mem : Memory} {addr i n r : Nat} {data bs : List UInt8} {v v' : Vars}
  {fails : Nat → Option Nat} {bulkin : Bool}

/-! ### Slices -/

theorem length_slice (h : i + n ≤ data.length) : (slice data i n).length = n := by
  simp only [slice, List.length_take, List.length_drop]
  omega

theorem getD_slice {j : Nat} (hj : j < n) : (slice data i n).getD j 0 = data.getD (i + j) 0 := by
  simp only [slice, List.getD_eq_getElem?_getD, List.getElem?_take, List.getElem?_drop, if_pos hj]

/-! ### Writing -/

/-- The first `offset` bytes are in place, and nothing but the first `r` bytes has changed. -/
structure Progress (mem : Memory) (addr : Nat) (data : List UInt8) (r : Nat) (v : Vars) :
    Prop where
  pointer : v.addr = addr + v.offset
  done : ∀ j < v.offset, v.mem (addr + j) = data.getD j 0
  kept : ∀ x, x < addr ∨ addr + r ≤ x → v.mem x = mem x

theorem begin (mem : Memory) (addr : Nat) (data : List UInt8) (r : Nat) :
    Progress mem addr data r ⟨mem, addr, data.length, 0⟩ :=
  ⟨rfl, fun j hj => absurd hj (Nat.not_lt_zero j), fun _ _ => rfl⟩

/-- The size does not matter, and more may be touched. -/
theorem Progress.resize {r' : Nat} (hv : Progress mem addr data r v) (hr : r ≤ r') :
    Progress mem addr data r' { v with size := n } :=
  ⟨hv.pointer, hv.done, fun x hx => hv.kept x (by omega)⟩

theorem Progress.transfer (hv : Progress mem addr data r v) (hr : r ≤ data.length)
    (hn : v.offset + n ≤ r) : Progress mem addr data r (v.transfer data n) := by
  have haddr := hv.pointer
  have hlen : (slice data v.offset n).length = n := length_slice (by omega)
  refine ⟨by simp only [Vars.transfer]; omega, ?_, ?_⟩
  · intro j hj
    simp only [Vars.transfer] at hj ⊢
    by_cases hold : j < v.offset
    · rw [put_outside (by omega)]
      exact hv.done j hold
    · rw [show addr + j = v.addr + (j - v.offset) by omega, put_inside (by omega),
        getD_slice (by omega), Nat.add_sub_of_le (by omega)]
  · intro x hx
    simp only [Vars.transfer]
    rw [put_outside (by omega)]
    exact hv.kept x hx

/-- A call that raises writes nothing else either. -/
theorem Progress.raise {k : Nat} (hv : Progress mem addr data r v) (hr : r ≤ data.length)
    (hn : v.offset + n ≤ r) :
    Progress mem addr data r
      { v with mem := put v.mem v.addr ((slice data v.offset n).take k) } := by
  have haddr := hv.pointer
  have hlen : ((slice data v.offset n).take k).length ≤ n := by
    rw [List.length_take, length_slice (by omega)]
    omega
  refine ⟨haddr, fun j hj => ?_, fun x hx => ?_⟩
  · simp only at hj ⊢
    rw [put_outside (by omega)]
    exact hv.done j hj
  · simp only
    rw [put_outside (by omega)]
    exact hv.kept x hx

theorem slowWrites_spec (hv : Progress mem addr data r v) (hr : r ≤ data.length)
    (hreach : v.offset + v.size = r) :
    Progress mem addr data r (slowWrites data v) ∧ (slowWrites data v).offset = r := by
  induction v using slowWrites.induct data with
  | case1 v h =>
    rw [slowWrites, if_pos h]
    exact ⟨hv, by omega⟩
  | case2 v h ih =>
    rw [slowWrites, if_neg h]
    exact ih (hv.transfer hr (by omega)) (by simp only [Vars.transfer]; omega)

theorem bulkWrites_spec (hv : Progress mem addr data r v) (hr : r ≤ data.length)
    (hreach : v.offset + v.size = r) :
    (∀ v', bulkWrites data fails i v = .ok v' → Progress mem addr data r v' ∧ v'.offset = r) ∧
      ∀ v', bulkWrites data fails i v = .error v' →
        Progress mem addr data r v' ∧ v'.offset + v'.size = r := by
  induction i, v using bulkWrites.induct data fails with
  | case1 i v h =>
    rw [bulkWrites, if_pos h]
    constructor
    · intro v' hok
      cases hok
      exact ⟨hv, by omega⟩
    · intro v' herr
      cases herr
  | case2 i v h k hk =>
    rw [bulkWrites, if_neg h]
    simp only [hk]
    constructor
    · intro v' hok
      cases hok
    · intro v' herr
      cases herr
      exact ⟨hv.raise hr (by omega), hreach⟩
  | case3 i v h chunk hk ih =>
    rw [bulkWrites, if_neg h]
    simp only [hk]
    exact ih (hv.transfer hr (by omega)) (by simp only [Vars.transfer]; omega)

/-- All calls come back, or one does not. -/
theorem bulkWrites_ok_iff :
    (∃ v', bulkWrites data fails i v = .ok v') ↔
      ∀ k < (v.size + 0xffbff) / 0xffc00, fails (i + k) = none := by
  induction i, v using bulkWrites.induct data fails with
  | case1 i v h =>
    rw [bulkWrites, if_pos h]
    exact ⟨fun _ k hk => by omega, fun _ => ⟨v, rfl⟩⟩
  | case2 i v h k hk =>
    rw [bulkWrites, if_neg h]
    simp only [hk]
    constructor
    · rintro ⟨v', hok⟩
      cases hok
    · intro hall
      have hnone := hall 0 (by omega)
      rw [Nat.add_zero, hk] at hnone
      cases hnone
  | case3 i v h chunk hk ih =>
    rw [bulkWrites, if_neg h]
    simp only [hk]
    rw [ih]
    have hsize : (v.transfer data chunk).size = v.size - min v.size 0xffc00 := rfl
    rw [hsize]
    constructor
    · intro hall k hlt
      cases k with
      | zero => exact hk
      | succ k =>
        rw [show i + (k + 1) = i + 1 + k by omega]
        exact hall k (by omega)
    · intro hall k hlt
      rw [show i + 1 + k = i + (k + 1) by omega]
      exact hall (k + 1) (by omega)

/-- Where the `try` starts the loop, after the bytes up to a cache line. -/
def aligned (data : List UInt8) (v : Vars) : Vars :=
  if v.addr % 64 ≠ 0 then v.transfer data (64 - v.addr % 64) else v

theorem aligned_eq (v : Vars) :
    (aligned data v).offset = v.offset + lead v.addr ∧
      (aligned data v).size = v.size - lead v.addr := by
  unfold aligned lead
  split <;> simp [Vars.transfer]

theorem lead_lt (addr : Nat) : lead addr < 64 := by
  unfold lead
  split <;> omega

theorem aligned_progress (hv : Progress mem addr data r v) (hr : r ≤ data.length)
    (hreach : v.offset + 64 ≤ r) : Progress mem addr data r (aligned data v) := by
  unfold aligned
  split
  · exact hv.transfer hr (by omega)
  · exact hv

/-- What the `try` does when it uses the bulk interface. -/
theorem tryBulk_used (hused : bulkin = true ∧ 0x800 < data.length) :
    tryBulk bulkin data fails ⟨mem, addr, data.length, 0⟩ =
      (bulkWrites data fails 0 { aligned data ⟨mem, addr, data.length, 0⟩ with
        size := data.length - lead addr - tail addr data.length }).map
          fun v => { v with size := tail addr data.length } := by
  have hcond : (bulkin && decide (0x800 < data.length)) = true := by simp [hused]
  have hsize := (@aligned_eq data ⟨mem, addr, data.length, 0⟩).2
  rw [tryBulk, if_pos hcond, tail, ← hsize]
  rfl

/-- A call of the bulk interface fails. -/
def Falls (bulkin : Bool) (fails : Nat → Option Nat) (addr size : Nat) : Prop :=
  bulkin = true ∧ 0x800 < size ∧ ∃ k < calls addr size, fails k ≠ none

/-- If no call fails all of the data have been written, or are still to be. -/
theorem tryBulk_ok (h : ¬ Falls bulkin fails addr data.length) :
    ∃ v, tryBulk bulkin data fails ⟨mem, addr, data.length, 0⟩ = .ok v ∧
      Progress mem addr data data.length v ∧ v.offset + v.size = data.length := by
  by_cases hused : bulkin = true ∧ 0x800 < data.length
  · have hlead := lead_lt addr
    have htail : tail addr data.length < 64 := Nat.mod_lt _ (by decide)
    obtain ⟨hoff, -⟩ := @aligned_eq data ⟨mem, addr, data.length, 0⟩
    have hstart : Progress mem addr data (data.length - tail addr data.length)
        (aligned data ⟨mem, addr, data.length, 0⟩) :=
      aligned_progress (begin mem addr data _) (by omega) (by simp only; omega)
    have hloop := @bulkWrites_spec mem addr 0 _ data _ fails
      (hstart.resize (n := data.length - lead addr - tail addr data.length) le_rfl) (by omega)
      (by simp only at hoff ⊢; omega)
    obtain ⟨v, hv⟩ := (@bulkWrites_ok_iff 0 data { aligned data ⟨mem, addr, data.length, 0⟩ with
        size := data.length - lead addr - tail addr data.length } fails).2 fun k hk => by
      by_contra hne
      exact h ⟨hused.1, hused.2, k, hk, by rwa [Nat.zero_add] at hne⟩
    obtain ⟨hprog, hend⟩ := hloop.1 v hv
    refine ⟨{ v with size := tail addr data.length }, ?_, hprog.resize (by omega), ?_⟩
    · rw [tryBulk_used hused, hv]
      rfl
    · simp only
      omega
  · refine ⟨⟨mem, addr, data.length, 0⟩, if_neg ?_, begin mem addr data _, Nat.zero_add _⟩
    simpa using hused

/-- When a call fails the bytes behind the last cache line are forgotten. -/
theorem tryBulk_error (h : Falls bulkin fails addr data.length) :
    ∃ v, tryBulk bulkin data fails ⟨mem, addr, data.length, 0⟩ = .error v ∧
      Progress mem addr data (data.length - tail addr data.length) v ∧
      v.offset + v.size = data.length - tail addr data.length := by
  obtain ⟨hbulk, hlong, k, hk, hfail⟩ := h
  have hlead := lead_lt addr
  have htail : tail addr data.length < 64 := Nat.mod_lt _ (by decide)
  obtain ⟨hoff, -⟩ := @aligned_eq data ⟨mem, addr, data.length, 0⟩
  have hstart : Progress mem addr data (data.length - tail addr data.length)
      (aligned data ⟨mem, addr, data.length, 0⟩) :=
    aligned_progress (begin mem addr data _) (by omega) (by simp only; omega)
  have hloop := @bulkWrites_spec mem addr 0 _ data _ fails
    (hstart.resize (n := data.length - lead addr - tail addr data.length) le_rfl) (by omega)
    (by simp only at hoff ⊢; omega)
  have hiff := @bulkWrites_ok_iff 0 data { aligned data ⟨mem, addr, data.length, 0⟩ with
    size := data.length - lead addr - tail addr data.length } fails
  cases hres : bulkWrites data fails 0 { aligned data ⟨mem, addr, data.length, 0⟩ with
      size := data.length - lead addr - tail addr data.length } with
  | ok v =>
    have hnone := hiff.1 ⟨v, hres⟩ k hk
    rw [Nat.zero_add] at hnone
    exact absurd hnone hfail
  | error v =>
    obtain ⟨hprog, hend⟩ := hloop.2 v hres
    refine ⟨v, ?_, hprog, hend⟩
    rw [tryBulk_used ⟨hbulk, hlong⟩, hres]
    rfl

theorem write_ok (h : ¬ Falls bulkin fails addr data.length) :
    Written mem addr data (write bulkin data fails mem addr) := by
  obtain ⟨v, htry, hprog, hreach⟩ := @tryBulk_ok mem addr data fails bulkin h
  obtain ⟨hall, hoff⟩ := slowWrites_spec hprog le_rfl hreach
  rw [write, htry]
  refine ⟨(bytes_eq_iff addr).2 fun j hj => hall.done j (by omega), hall.kept⟩

/-- The memory after a call has failed, up to the last cache line and from there on. -/
theorem write_error (h : Falls bulkin fails addr data.length) :
    (∀ j < data.length - tail addr data.length,
      write bulkin data fails mem addr (addr + j) = data.getD j 0) ∧
    ∀ x, x < addr ∨ addr + (data.length - tail addr data.length) ≤ x →
      write bulkin data fails mem addr x = mem x := by
  obtain ⟨v, htry, hprog, hreach⟩ := @tryBulk_error mem addr data fails bulkin h
  obtain ⟨hall, hoff⟩ := slowWrites_spec hprog (Nat.sub_le _ _) hreach
  rw [write, htry]
  exact ⟨fun j hj => hall.done j (by omega), hall.kept⟩

/-! ### Reading -/

/-- What has been read is what is there, and the rest follows. -/
structure Reached (mem : Memory) (addr n : Nat) (v : Reading) : Prop where
  data : v.data = bytes mem addr n
  pointer : v.addr = addr + n

theorem Reached.receive {w : Reading} {k : Nat} (hw : Reached mem addr n w) :
    Reached mem addr (n + k) (w.receive mem k) := by
  refine ⟨?_, ?_⟩
  · simp only [Reading.receive]
    rw [bytes_add, hw.data, hw.pointer]
  · simp only [Reading.receive]
    have := hw.pointer
    omega

theorem slowReads_spec {w : Reading} (hw : Reached mem addr n w) :
    (slowReads mem w).data = bytes mem addr (n + w.size) := by
  induction w using slowReads.induct mem generalizing n with
  | case1 w h =>
    rw [slowReads, if_pos h, h]
    exact hw.data
  | case2 w h ih =>
    rw [slowReads, if_neg h, ih hw.receive]
    congr 1
    simp only [Reading.receive]
    omega

theorem bulkReads_spec {fails : Nat → Bool} {w : Reading} (hw : Reached mem addr n w) :
    (∀ w', bulkReads mem fails i w = some w' → Reached mem addr (n + w.size) w') ∧
      ((∀ i, fails i = false) → ∃ w', bulkReads mem fails i w = some w') := by
  induction i, w using bulkReads.induct mem fails generalizing n with
  | case1 i w h =>
    rw [bulkReads, if_pos h, h]
    constructor
    · intro w' hok
      cases hok
      exact hw
    · exact fun _ => ⟨w, rfl⟩
  | case2 i w h hfail =>
    rw [bulkReads, if_neg h, if_pos hfail]
    constructor
    · intro w' hok
      cases hok
    · intro hnone
      rw [hnone i] at hfail
      cases hfail
  | case3 i w h hfail ih =>
    rw [bulkReads, if_neg h, if_neg hfail]
    have hnext := ih (hw.receive (k := min w.size 0xffc00))
    have hsize : n + min w.size 0xffc00 + (w.receive mem (min w.size 0xffc00)).size =
        n + w.size := by
      simp only [Reading.receive]
      omega
    rwa [hsize] at hnext

theorem reads (bulkin : Bool) : Reads bulkin := by
  intro fails mem addr size
  have hnil : Reached mem addr 0 ⟨[], addr, size⟩ := ⟨rfl, rfl⟩
  by_cases hused : bulkin = true ∧ 0x800 < size
  · have hcond : (bulkin && decide (0x800 < size)) = true := by simp [hused]
    have hlead := lead_lt addr
    have htail : tail addr size < 64 := Nat.mod_lt _ (by decide)
    -- the state in front of the loop
    have hstart : ∃ w : Reading, Reached mem addr (lead addr) w ∧
        w.size = size - lead addr - tail addr size ∧
        read bulkin fails mem addr size = ((bulkReads mem fails 0 w).map
          fun w => { w with size := tail addr size }).map fun w => (slowReads mem w).data := by
      unfold read tail lead
      dsimp only
      rw [if_pos hcond]
      split
      · exact ⟨⟨bytes mem addr (64 - addr % 64), addr + (64 - addr % 64), _⟩, ⟨rfl, rfl⟩, rfl, rfl⟩
      · exact ⟨⟨[], addr, _⟩, ⟨rfl, rfl⟩, rfl, rfl⟩
    obtain ⟨w, hw, hsize, hread⟩ := hstart
    obtain ⟨hok, hsome⟩ := @bulkReads_spec mem addr 0 _ fails w hw
    rw [hread]
    constructor
    · intro bs hbs
      obtain ⟨w₂, hw₂, rfl⟩ := Option.map_eq_some_iff.1 hbs
      obtain ⟨w₁, hw₁, rfl⟩ := Option.map_eq_some_iff.1 hw₂
      have hreached := hok w₁ hw₁
      rw [@slowReads_spec mem addr _ { w₁ with size := tail addr size }
        ⟨hreached.data, hreached.pointer⟩]
      congr 1
      simp only
      omega
    · intro hnone
      obtain ⟨w', hw'⟩ := hsome hnone
      exact ⟨_, by rw [hw']; rfl⟩
  · have hcond : ¬ (bulkin && decide (0x800 < size)) = true := by simpa using hused
    have hread : read bulkin fails mem addr size = some (slowReads mem ⟨[], addr, size⟩).data := by
      unfold read
      dsimp only
      rw [if_neg hcond]
      rfl
    rw [hread, slowReads_spec hnil]
    refine ⟨fun bs hbs => ?_, fun _ => ⟨_, rfl⟩⟩
    rw [← Option.some.inj hbs, Nat.zero_add]

/-- `write` returns with the data in device memory and nothing else changed, and `read` returns what
is there, for every address, size and failure, exactly when no call of the bulk interface that
`write` makes fails, or the bytes behind the last full cache line were there before. -/
theorem transfer_iff (bulkin : Bool) (data : List UInt8) (fails : Nat → Option Nat) (mem : Memory)
    (addr : Nat) :
    (Written mem addr data (write bulkin data fails mem addr) ∧ Reads bulkin) ↔
      (Falls bulkin fails addr data.length → ∀ j, data.length - tail addr data.length ≤ j →
        j < data.length → mem (addr + j) = data.getD j 0) := by
  by_cases hfalls : Falls bulkin fails addr data.length
  · obtain ⟨hfront, hkept⟩ := @write_error mem addr data fails bulkin hfalls
    constructor
    · rintro ⟨hwritten, -⟩ - j hlow hhigh
      rw [← hkept (addr + j) (by omega)]
      exact (bytes_eq_iff addr).1 hwritten.inside j hhigh
    · intro htail
      refine ⟨⟨(bytes_eq_iff addr).2 fun j hj => ?_, fun x hx => hkept x (by omega)⟩, reads bulkin⟩
      by_cases hlow : j < data.length - tail addr data.length
      · exact hfront j hlow
      · rw [hkept (addr + j) (by omega)]
        exact htail hfalls j (by omega) hj
  · exact ⟨fun _ h => absurd h hfalls, fun _ => ⟨write_ok hfalls, reads bulkin⟩⟩

/-- The last of 2049 bytes is not written when the first call fails. -/
theorem forgets_the_tail :
    ¬ ∀ (bulkin : Bool) (data : List UInt8) (fails : Nat → Option Nat) (mem : Memory) (addr : Nat),
      Written mem addr data (write bulkin data fails mem addr) ∧ Reads bulkin := by
  intro hall
  have hfalls : Falls true (fun _ => some 0) 0 (List.replicate 2049 (1 : UInt8)).length := by
    rw [List.length_replicate]
    refine ⟨rfl, by decide, 0, by decide, ?_⟩
    intro hnone
    cases hnone
  have hwritten := (hall true (List.replicate 2049 1) (fun _ => some 0) (fun _ => 0) 0).1
  have hlast := (bytes_eq_iff 0).1 hwritten.inside 2048 (by rw [List.length_replicate]; decide)
  have hkept := (@write_error (fun _ => 0) 0 _ _ _ hfalls).2 (0 + 2048) (.inr (by
    rw [List.length_replicate]
    decide))
  rw [hkept] at hlast
  rw [List.getD_eq_getElem _ _ (by rw [List.length_replicate]; decide), List.getElem_replicate]
    at hlast
  exact absurd hlast (by decide)

end Host
end Freemyipod
