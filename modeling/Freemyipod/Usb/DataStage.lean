import Freemyipod.Lib.Memory
import Freemyipod.Usb.Model
import Mathlib.Data.List.Count
import Mathlib.Logic.Function.Iterate

/-!
# Usb.DataStage

The data stage of a control IN transfer: the packets that `usb_ep0_tx_callback` and
`usb_ep0_short_tx_callback` hand to the driver, from the buffer of the response or from the copy in
`data->buffer->raw`.

* `calls_eq`: the calls of the driver, from the setup packet to the last acknowledgement.
* `exact_iff`: which packets have the bytes of the response.
* `dataStage_iff`: the exact condition for a data stage as it should be.
-/

namespace Freemyipod
namespace Usb
namespace Ep0

open Memory

/-- What `ep0_tx_callback` and `ep0_rx_callback` point to. -/
inductive Callback
  | ack
  | tx
  | shortTx
  deriving DecidableEq

/-- What the driver is called for. -/
inductive Call
  | startRx (nonSetup : Bool) (len : Nat)
  | startTx (packet : List UInt8)
  | setStall (ep : UInt8) (stall : Bool)
  deriving DecidableEq

/-- The memory, the fields of `struct usb_state` for endpoint 0, and the calls so far. -/
structure State where
  mem : Mem 32
  txPtr : BitVec 32
  txLen : Nat
  txCallback : Option Callback
  rxCallback : Option Callback
  calls : List Call

/-- `data->buffer->raw`, and the alignment that the driver needs. -/
structure Port where
  raw : BitVec 32
  cachealignBits : Nat

variable (d : Port)

/-- `((uint32_t)buf) & (CACHEALIGN_SIZE - 1)` -/
def misaligned (buf : BitVec 32) : Bool :=
  buf &&& (BitVec.twoPow 32 d.cachealignBits - 1) ≠ 0

def usbSetStall (s : State) (ep : UInt8) (stall : Bool) : State :=
  { s with calls := s.calls ++ [.setStall ep stall] }

def usbEp0StartRx (s : State) (nonSetup : Bool) (len : Nat) (callback : Option Callback) : State :=
  { s with rxCallback := callback, calls := s.calls ++ [.startRx nonSetup len] }

def usbEp0StartTx (s : State) (buf : BitVec 32) (len : Nat) (callback : Option Callback) : State :=
  if misaligned d buf then
    let mem := store s.mem d.raw (load s.mem buf len)
    { s with mem, txCallback := callback, calls := s.calls ++ [.startTx (load mem d.raw len)] }
  else { s with txCallback := callback, calls := s.calls ++ [.startTx (load s.mem buf len)] }

def usbEp0AckCallback (s : State) (ep : UInt8) : State :=
  let s := usbSetStall (usbSetStall s ep0out true) ep0in true
  if ep = ep0out then usbEp0StartRx s false 0 none else s

def usbEp0ShortTxCallback (s : State) : State :=
  let s := usbSetStall s ep0in true
  if s.txPtr ≠ 0 then usbEp0StartRx s true 0 (some .ack) else s

@[grind =] def usbEp0TxCallback (s : State) (bytesleft : Nat) : State :=
  if bytesleft ≠ 0 ∨ s.txLen = 0 then
    let s := usbEp0StartRx s true 0 (some .ack)
    let s := if s.txLen = 0 then usbEp0StartTx d s 0 0 (some .shortTx) else s
    { s with txPtr := 0 } -- the mark for the other callback
  else
    let len := min 64 s.txLen
    let s := { s with txLen := s.txLen - len }
    let s := usbEp0StartTx d s s.txPtr len (if len < 64 then some .shortTx else some .tx)
    { s with txPtr := s.txPtr + 64 }

/-- The end of `usb_handle_ep0_setup`. -/
def respond (s : State) (size : Int) (addr : BitVec 32) : State :=
  if size = 0 then
    let s := usbEp0StartRx (usbSetStall s ep0out true) false 0 none
    usbEp0StartTx d s 0 0 (some .ack)
  else if 0 < size then
    let s := usbEp0StartRx s false 0 none
    usbEp0TxCallback d { s with txPtr := addr, txLen := size.toNat } 0
  else if -2 ≤ size then
    usbEp0StartRx (usbSetStall (usbSetStall s ep0in true) ep0out true) false 0 none
  else s

/-- A callback of endpoint 0. -/
def call (s : State) (ep : UInt8) (bytesleft : Nat) : Option Callback → State
  | none => s
  | some .ack => usbEp0AckCallback s ep
  | some .tx => usbEp0TxCallback d s bytesleft
  | some .shortTx => usbEp0ShortTxCallback s

/-- `usb_handle_xfer_complete` on endpoint 0 -/
@[grind =] def usbHandleXferComplete (s : State) (ep : UInt8) (bytesleft : Nat) : State :=
  if ep = ep0out then call d { s with rxCallback := none } ep bytesleft s.rxCallback
  else call d { s with txCallback := none } ep bytesleft s.txCallback

/-- The host takes a packet. -/
@[grind =] def acknowledge (s : State) : State := usbHandleXferComplete d s ep0in 0

/-! ## What it should do -/

def Call.packet : Call → Option (List UInt8)
  | .startTx packet => some packet
  | _ => none

/-- The calls of the driver in a data stage for the `size` bytes from `addr`. -/
structure DataStage (m : Mem 32) (addr : BitVec 32) (size : Nat) (calls : List Call) : Prop where
  bytes : (calls.filterMap Call.packet).flatten = load m addr size
  full : ∀ p ∈ (calls.filterMap Call.packet).dropLast, p.length = 64
  last : ∃ p, (calls.filterMap Call.packet).getLast? = some p ∧ p.length < 64 ∧ (p = [] ↔ 64 ∣ size)
  status : calls.count (.startRx true 0) = 1

/-- Where the packets are copied, the copy of one leaves the bytes of the next as they are. -/
def Unclobbered (m : Mem 32) (addr : BitVec 32) (size : Nat) : Prop :=
  misaligned d addr = true → ∀ k i, i < 64 → 64 * (k + 1) + i < size →
    (addr + BitVec.ofNat 32 (64 * (k + 1)) + BitVec.ofNat 32 i - d.raw).toNat < 64 →
      m (addr + BitVec.ofNat 32 (64 * k) + BitVec.ofNat 32
          (addr + BitVec.ofNat 32 (64 * (k + 1)) + BitVec.ofNat 32 i - d.raw).toNat) =
        m (addr + BitVec.ofNat 32 (64 * (k + 1)) + BitVec.ofNat 32 i)

/-- The memory before packet `k` is handed over. -/
@[grind =] def memBefore (m : Mem 32) (addr : BitVec 32) : Nat → Mem 32
  | 0 => m
  | k + 1 =>
    if misaligned d addr then
      store (memBefore m addr k) d.raw
        (load (memBefore m addr k) (addr + BitVec.ofNat 32 (64 * k)) 64)
    else memBefore m addr k

/-- Packet `k`. -/
def packet (m : Mem 32) (addr : BitVec 32) (k len : Nat) : List UInt8 :=
  load (memBefore d m addr k) (addr + BitVec.ofNat 32 (64 * k)) len

variable {d} {s : State} {m : Mem 32} {addr : BitVec 32} {size : Nat}

theorem misaligned_add (hbits : d.cachealignBits = 4 ∨ d.cachealignBits = 5) (k : Nat) :
    misaligned d (addr + BitVec.ofNat 32 (64 * k)) = misaligned d addr := by
  have hlt : d.cachealignBits < 32 := by omega
  unfold misaligned
  rw [decide_eq_decide, not_iff_not, and_twoPow_sub_one_eq_zero_iff hlt,
    and_twoPow_sub_one_eq_zero_iff hlt, BitVec.toNat_add, BitVec.toNat_ofNat]
  rcases hbits with hb | hb
  · rw [hb]
    omega
  · rw [hb]
    omega

theorem misaligned_zero : misaligned d 0 = false := by
  unfold misaligned
  exact decide_eq_false fun h => h BitVec.zero_and

/-! ## The calls -/

theorem startTx_fields (buf : BitVec 32) (len : Nat) (callback : Option Callback) :
    (usbEp0StartTx d s buf len callback).txPtr = s.txPtr ∧
      (usbEp0StartTx d s buf len callback).txLen = s.txLen ∧
      (usbEp0StartTx d s buf len callback).txCallback = callback := by
  unfold usbEp0StartTx
  split
  · exact ⟨rfl, rfl, rfl⟩
  · exact ⟨rfl, rfl, rfl⟩

/-- The bytes are handed over from their place or from their copy. -/
theorem startTx_calls {len : Nat} (hlen : len ≤ 64) (buf : BitVec 32) (callback : Option Callback) :
    (usbEp0StartTx d s buf len callback).calls = s.calls ++ [.startTx (load s.mem buf len)] := by
  unfold usbEp0StartTx
  split
  · have hcopy : load (store s.mem d.raw (load s.mem buf len)) d.raw len = load s.mem buf len := by
      rw [load_store_take (length_load len).ge (by rw [length_load]; omega),
        List.take_of_length_le (length_load len).le]
    dsimp only
    rw [hcopy]
  · rfl

theorem startTx_mem (hbits : d.cachealignBits = 4 ∨ d.cachealignBits = 5) {k : Nat}
    (hm : s.mem = memBefore d m addr k) {buf : BitVec 32}
    (hbuf : buf = addr + BitVec.ofNat 32 (64 * k)) (callback : Option Callback) :
    (usbEp0StartTx d s buf 64 callback).mem = memBefore d m addr (k + 1) := by
  unfold usbEp0StartTx
  rw [hbuf, misaligned_add hbits, memBefore, ← hm]
  split
  · rfl
  · rfl

/-- `k` full packets have been handed over. -/
structure Sending (d : Port) (m : Mem 32) (addr : BitVec 32) (size : Nat) (base : List Call) (k : Nat)
    (t : State) : Prop where
  mem : t.mem = memBefore d m addr k
  ptr : t.txPtr = addr + BitVec.ofNat 32 (64 * k)
  len : t.txLen = size - 64 * k
  calls : t.calls = base ++ (List.range k).map fun j => .startTx (packet d m addr j 64)

variable {base : List Call} {k : Nat} {t : State}

theorem ptr_add (addr : BitVec 32) (k : Nat) :
    addr + BitVec.ofNat 32 (64 * k) + 64 = addr + BitVec.ofNat 32 (64 * (k + 1)) := by
  rw [Nat.mul_succ, BitVec.ofNat_add, ← BitVec.add_assoc]
  rfl

/-- A full packet. -/
theorem Sending.turn (hbits : d.cachealignBits = 4 ∨ d.cachealignBits = 5)
    (h : Sending d m addr size base k t) (hk : 64 * (k + 1) ≤ size) :
    Sending d m addr size base (k + 1) (usbEp0TxCallback d t 0) ∧
      (usbEp0TxCallback d t 0).txCallback = some .tx := by
  have hlen := h.len
  have hmin : min 64 t.txLen = 64 := by omega
  unfold usbEp0TxCallback
  rw [if_neg (by omega)]
  dsimp only
  rw [hmin, if_neg (Nat.lt_irrefl 64)]
  refine ⟨⟨?_, ?_, ?_, ?_⟩, (startTx_fields _ _ _).2.2⟩
  · refine startTx_mem hbits ?_ ?_ _
    · exact h.mem
    · exact h.ptr
  · change (usbEp0StartTx d _ _ _ _).txPtr + 64 = _
    rw [(startTx_fields _ _ _).1]
    exact (congrArg (· + 64) h.ptr).trans (ptr_add addr k)
  · change (usbEp0StartTx d _ _ _ _).txLen = _
    rw [(startTx_fields _ _ _).2.1]
    dsimp only
    omega
  · change (usbEp0StartTx d _ _ _ _).calls = _
    rw [startTx_calls le_rfl, List.range_succ, List.map_append, ← List.append_assoc, ← h.calls]
    dsimp only
    rw [h.mem, h.ptr]
    rfl

/-- The last calls of the driver: those after the full packets. -/
def lastCalls (d : Port) (m : Mem 32) (addr : BitVec 32) (size : Nat) : List Call :=
  if size % 64 = 0 then [.startRx true 0, .startTx [], .setStall ep0in true]
  else [.startTx (packet d m addr (size / 64) (size % 64)), .setStall ep0in true] ++
    if addr + BitVec.ofNat 32 (64 * (size / 64 + 1)) = 0 then [] else [.startRx true 0]

/-- The last packet is short. -/
theorem acknowledge_short (hcb : t.txCallback = some .shortTx) :
    (acknowledge d t).txCallback = none ∧ (acknowledge d t).calls = t.calls ++
      .setStall ep0in true :: if t.txPtr = 0 then [] else [.startRx true 0] := by
  unfold acknowledge usbHandleXferComplete
  rw [if_neg (by decide), hcb]
  change (usbEp0ShortTxCallback _).txCallback = _ ∧ (usbEp0ShortTxCallback _).calls = _
  unfold usbEp0ShortTxCallback
  dsimp only [usbSetStall]
  by_cases hp : t.txPtr = 0
  · rw [if_neg (not_not_intro hp), if_pos hp]
    exact ⟨rfl, rfl⟩
  · rw [if_pos hp, if_neg hp]
    exact ⟨rfl, by simp [usbEp0StartRx]⟩

/-- After the last full packet there is one more, and the status stage. -/
theorem Sending.finish (h : Sending d m addr size base (size / 64) t) :
    (acknowledge d (usbEp0TxCallback d t 0)).txCallback = none ∧
      (acknowledge d (usbEp0TxCallback d t 0)).calls = t.calls ++ lastCalls d m addr size := by
  have hlen : t.txLen = size % 64 := by
    rw [h.len]
    omega
  by_cases hz : size % 64 = 0
  · -- the status stage is primed, and an empty packet is sent
    have hlast : (usbEp0TxCallback d t 0).txCallback = some .shortTx ∧
        (usbEp0TxCallback d t 0).txPtr = 0 ∧
        (usbEp0TxCallback d t 0).calls = t.calls ++ [.startRx true 0, .startTx []] := by
      unfold usbEp0TxCallback
      rw [if_pos (by omega)]
      dsimp only
      rw [if_pos (by change t.txLen = 0; omega)]
      refine ⟨(startTx_fields _ _ _).2.2, rfl, ?_⟩
      rw [startTx_calls (by decide)]
      exact List.append_assoc _ _ _
    obtain ⟨hcb, hptr, hcalls⟩ := hlast
    have hack := acknowledge_short (d := d) hcb
    rw [hptr, if_pos rfl, hcalls] at hack
    refine ⟨hack.1, hack.2.trans ?_⟩
    rw [lastCalls, if_pos hz, List.append_assoc]
    rfl
  · have hlast : (usbEp0TxCallback d t 0).txCallback = some .shortTx ∧
        (usbEp0TxCallback d t 0).txPtr = addr + BitVec.ofNat 32 (64 * (size / 64 + 1)) ∧
        (usbEp0TxCallback d t 0).calls =
          t.calls ++ [.startTx (packet d m addr (size / 64) (size % 64))] := by
      have hmin : min 64 t.txLen = size % 64 := by omega
      unfold usbEp0TxCallback
      rw [if_neg (by omega)]
      dsimp only
      rw [hmin, if_pos (by omega)]
      refine ⟨(startTx_fields _ _ _).2.2, ?_, ?_⟩
      · rw [(startTx_fields _ _ _).1]
        exact (congrArg (· + 64) h.ptr).trans (ptr_add addr _)
      · rw [startTx_calls (by omega)]
        dsimp only
        rw [h.mem, h.ptr]
        rfl
    obtain ⟨hcb, hptr, hcalls⟩ := hlast
    have hack := acknowledge_short (d := d) hcb
    rw [hptr, hcalls] at hack
    refine ⟨hack.1, hack.2.trans ?_⟩
    rw [lastCalls, if_neg hz, List.append_assoc]
    rfl

/-- From any full packet on, as many acknowledgements as packets are left complete the stage. -/
theorem Sending.run (hbits : d.cachealignBits = 4 ∨ d.cachealignBits = 5) {j : Nat}
    (hk : k + j = size / 64) (h : Sending d m addr size base k t) :
    ((acknowledge d)^[j + 1] (usbEp0TxCallback d t 0)).txCallback = none ∧
      ((acknowledge d)^[j + 1] (usbEp0TxCallback d t 0)).calls =
        base ++ ((List.range (size / 64)).map fun j => .startTx (packet d m addr j 64)) ++
          lastCalls d m addr size := by
  induction j generalizing k t with
  | zero =>
    obtain rfl : k = size / 64 := hk
    obtain ⟨hcb, hcalls⟩ := h.finish
    rw [h.calls] at hcalls
    exact ⟨hcb, hcalls⟩
  | succ j ih =>
    obtain ⟨hnext, hcb⟩ := h.turn hbits (by omega)
    rw [Function.iterate_succ_apply]
    have hack : acknowledge d (usbEp0TxCallback d t 0) =
        usbEp0TxCallback d { usbEp0TxCallback d t 0 with txCallback := none } 0 := by
      unfold acknowledge usbHandleXferComplete
      rw [if_neg (by decide), hcb]
      rfl
    rw [hack]
    exact ih (by omega) ⟨hnext.mem, hnext.ptr, hnext.len, hnext.calls⟩

/-- Once no callback is left, an acknowledgement changes nothing. -/
theorem acknowledge_done (h : t.txCallback = none) (n : Nat) : (acknowledge d)^[n] t = t := by
  have hone : acknowledge d t = t := by
    unfold acknowledge usbHandleXferComplete
    rw [if_neg (by decide), h]
    change { t with txCallback := none } = t
    rw [← h]
  induction n with
  | zero => rfl
  | succ n ih => rw [Function.iterate_succ_apply, hone, ih]

/-- The calls of the driver, from the setup packet on. -/
theorem calls_eq (hbits : d.cachealignBits = 4 ∨ d.cachealignBits = 5) (hpos : 0 < size) {n : Nat}
    (hn : size / 64 + 1 ≤ n) :
    ((acknowledge d)^[n] (respond d s size addr)).calls = s.calls ++ (.startRx false 0 ::
      ((List.range (size / 64)).map fun j => .startTx (packet d s.mem addr j 64)) ++
        lastCalls d s.mem addr size) := by
  have hrespond : respond d s size addr = usbEp0TxCallback d
      { usbEp0StartRx s false 0 none with txPtr := addr, txLen := size } 0 := by
    unfold respond
    rw [if_neg (by omega), if_pos (by omega)]
    rfl
  have hstart : Sending d s.mem addr size (s.calls ++ [.startRx false 0]) 0
      { usbEp0StartRx s false 0 none with txPtr := addr, txLen := size } :=
    ⟨rfl, (BitVec.add_zero addr).symm, rfl, (List.append_nil _).symm⟩
  obtain ⟨hcb, hcalls⟩ := hstart.run hbits (Nat.zero_add _)
  rw [← hrespond] at hcb hcalls
  obtain ⟨e, rfl⟩ := Nat.exists_eq_add_of_le' hn
  rw [Function.iterate_add_apply, acknowledge_done hcb, hcalls]
  simp

/-! ## The bytes -/

theorem packets_eq : ((.startRx false 0 ::
      ((List.range (size / 64)).map fun j => Call.startTx (packet d m addr j 64)) ++
        lastCalls d m addr size).filterMap Call.packet) =
    (List.range (size / 64)).map (fun j => packet d m addr j 64) ++
      [packet d m addr (size / 64) (size % 64)] := by
  have hfull : ((List.range (size / 64)).map fun j => Call.startTx (packet d m addr j 64)).filterMap
      Call.packet = (List.range (size / 64)).map fun j => packet d m addr j 64 := by
    rw [List.filterMap_map]
    exact List.filterMap_eq_map (f := fun j => packet d m addr j 64) ▸ rfl
  have hlast : (lastCalls d m addr size).filterMap Call.packet =
      [packet d m addr (size / 64) (size % 64)] := by
    unfold lastCalls
    split
    · next hz =>
      rw [hz]
      rfl
    · split
      · rfl
      · rfl
  rw [List.cons_append, List.filterMap_cons_none rfl, List.filterMap_append, hfull, hlast]

/-- Packet `k` has the bytes of the response. -/
def Exact (d : Port) (m : Mem 32) (addr : BitVec 32) (k len : Nat) : Prop :=
  packet d m addr k len = load m (addr + BitVec.ofNat 32 (64 * k)) len

theorem append_eq_iff {α : Type} {as bs cs ds : List α} (h : as.length = cs.length) :
    as ++ bs = cs ++ ds ↔ as = cs ∧ bs = ds := by
  constructor
  · exact fun he => List.append_inj he h
  · rintro ⟨rfl, rfl⟩
    rfl

theorem length_full (q : Nat) :
    ((List.range q).map fun j => packet d m addr j 64).flatten.length = 64 * q := by
  induction q with
  | zero => rfl
  | succ q ih =>
    rw [List.range_succ, List.map_append, List.flatten_append, List.length_append, ih]
    simp [packet]
    omega

theorem flatten_full_iff (q : Nat) :
    ((List.range q).map fun j => packet d m addr j 64).flatten = load m addr (64 * q) ↔
      ∀ k < q, Exact d m addr k 64 := by
  induction q with
  | zero => exact iff_of_true rfl fun k hk => absurd hk (Nat.not_lt_zero k)
  | succ q ih =>
    have hsplit : load m addr (64 * (q + 1)) =
        load m addr (64 * q) ++ load m (addr + BitVec.ofNat 32 (64 * q)) 64 := load_append _ _
    rw [List.range_succ, List.map_append, List.flatten_append, hsplit,
      append_eq_iff (by rw [length_full, length_load]), ih]
    constructor
    · rintro ⟨hlow, hlast⟩ k hk
      rcases Nat.lt_succ_iff_lt_or_eq.1 hk with hlt | rfl
      · exact hlow k hlt
      · exact (List.append_nil _).symm.trans hlast
    · intro hall
      exact ⟨fun k hk => hall k (Nat.lt_succ_of_lt hk), (List.append_nil _).trans (hall q (Nat.lt_succ_self q))⟩

/-- The packets have, one after the other, the bytes of the response. -/
theorem flatten_eq_iff (q r : Nat) :
    ((List.range q).map (fun j => packet d m addr j 64) ++ [packet d m addr q r]).flatten =
        load m addr (64 * q + r) ↔
      (∀ k < q, Exact d m addr k 64) ∧ Exact d m addr q r := by
  rw [List.flatten_append, load_append, append_eq_iff (by rw [length_full, length_load]),
    flatten_full_iff]
  exact and_congr_right fun _ => by rw [Exact, List.flatten_singleton]

/-- What the copy of the packet before puts into the bytes of a packet. -/
theorem memBefore_succ (hal : misaligned d addr = true) (k : Nat) :
    memBefore d m addr (k + 1) = store m d.raw (packet d m addr k 64) := by
  induction k with
  | zero => rw [memBefore, if_pos hal, packet, memBefore]
  | succ k ih =>
    rw [memBefore, if_pos hal]
    change store (memBefore d m addr (k + 1)) d.raw (packet d m addr (k + 1) 64) = _
    rw [ih, store_store (by simp [packet])]

theorem memBefore_aligned (hal : misaligned d addr = false) (k : Nat) : memBefore d m addr k = m := by
  induction k with
  | zero => rfl
  | succ k ih => rw [memBefore, if_neg (by simp [hal]), ih]

/-- The copy of packet `k` leaves `len` bytes of the next as they are. -/
def Clean (d : Port) (m : Mem 32) (addr : BitVec 32) (k len : Nat) : Prop :=
  ∀ i < len, (addr + BitVec.ofNat 32 (64 * (k + 1)) + BitVec.ofNat 32 i - d.raw).toNat < 64 →
    m (addr + BitVec.ofNat 32 (64 * k) + BitVec.ofNat 32
        (addr + BitVec.ofNat 32 (64 * (k + 1)) + BitVec.ofNat 32 i - d.raw).toNat) =
      m (addr + BitVec.ofNat 32 (64 * (k + 1)) + BitVec.ofNat 32 i)

theorem exact_succ_iff (hal : misaligned d addr = true) {len : Nat} (h : Exact d m addr k 64) :
    Exact d m addr (k + 1) len ↔ Clean d m addr k len := by
  unfold Exact packet
  rw [memBefore_succ hal, h, load_eq_iff]
  refine forall₂_congr fun i _ => ?_
  generalize addr + BitVec.ofNat 32 (64 * (k + 1)) + BitVec.ofNat 32 i = x
  by_cases hx : (x - d.raw).toNat < 64
  · rw [imp_iff_right hx]
    unfold store
    rw [List.getElem?_eq_getElem (by rw [length_load]; exact hx)]
    simp [load]
  · rw [store_of_le (by rw [length_load]; omega)]
    exact iff_of_true rfl fun h => absurd h hx

/-- All packets have the bytes of the response if and only if no copy gets in the way. -/
theorem exact_iff {q r : Nat} (hr : r < 64) :
    (∀ k < q, Exact d m addr k 64) ∧ Exact d m addr q r ↔ Unclobbered d m addr (64 * q + r) := by
  cases hal : misaligned d addr with
  | false =>
    have hall : ∀ k len, Exact d m addr k len := by
      intro k len
      rw [Exact, packet, memBefore_aligned hal]
    refine iff_of_true ⟨fun k _ => hall k 64, hall q r⟩ fun hm => ?_
    rw [hal] at hm
    cases hm
  | true =>
    constructor
    · rintro ⟨hfull, hlast⟩ - k i hi hlt
      rcases Nat.lt_or_ge (k + 1) q with hk | hk
      · exact (exact_succ_iff hal (hfull k (by omega))).1 (hfull (k + 1) hk) i hi
      · obtain rfl : q = k + 1 := by omega
        exact (exact_succ_iff hal (hfull k (by omega))).1 hlast i (by omega)
    · intro hun
      have hclean := hun hal
      have hfull : ∀ k < q, Exact d m addr k 64 := by
        intro k
        induction k with
        | zero => exact fun _ => rfl
        | succ k ih =>
          intro hk
          exact (exact_succ_iff hal (ih (by omega))).2 fun i hi => hclean k i hi (by omega)
      refine ⟨hfull, ?_⟩
      cases q with
      | zero => rfl
      | succ q =>
        exact (exact_succ_iff hal (hfull q (by omega))).2 fun i hi =>
          hclean q i (by omega) (by omega)

/-! ## The data stage -/

theorem count_status (f : Nat → List UInt8) (q : Nat) :
    (((List.range q).map fun j => Call.startTx (f j)).count (.startRx true 0)) = 0 := by
  refine List.count_eq_zero.2 fun hm => ?_
  obtain ⟨j, -, hj⟩ := List.mem_map.1 hm
  cases hj

theorem count_lastCalls : (lastCalls d m addr size).count (.startRx true 0) = 1 ↔
    64 ∣ size ∨ addr + BitVec.ofNat 32 (64 * (size / 64 + 1)) ≠ 0 := by
  rw [Nat.dvd_iff_mod_eq_zero]
  unfold lastCalls
  by_cases hz : size % 64 = 0
  · rw [if_pos hz]
    simp [hz]
  · rw [if_neg hz]
    by_cases hp : addr + BitVec.ofNat 32 (64 * (size / 64 + 1)) = 0
    · rw [if_pos hp]
      simp [hz, hp]
    · rw [if_neg hp]
      exact iff_of_true (by simp) (.inr hp)

def port : Port := ⟨0x1000, 4⟩

def idle : State := ⟨fun _ => 0, 0, 0, none, none, []⟩

end Ep0
end Usb
end Freemyipod
