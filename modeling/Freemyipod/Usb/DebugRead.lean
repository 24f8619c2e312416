import Freemyipod.Usb.DebugMemory

/-!
# Usb.DebugRead

The answer to READ MEMORY: the request with direction IN that the host sends after the command, and
the packets until the host has everything.

Other code runs between two packets: what it does to memory is a function of the memory. A byte of
the answer is the one that is at its address when its packet is handed to the driver.
`read_memory_iff`: such an answer, of the right length, is given if and only if the host asks for 16
bytes or more.
-/

namespace Freemyipod
namespace Usb
namespace DebugMemory

open Memory Ep0

/-! ## The code -/

variable (d : Layout)

/-- `if (len) memcpy(&dbgbuf[4], dbgmemaddr, len);` -/
def fetch (s : State) (len : Nat) : State :=
  let mem :=
    if len ≠ 0 then
      store s.ep0.mem (d.dbgbuf + BitVec.ofNat 32 16) (load s.ep0.mem s.dbgmemaddr len)
    else s.ep0.mem
  { s with ep0 := { s.ep0 with mem } }

/-- There is more than fits into the first packet: it is sent, and `usb_ep0_tx_callback` goes on. -/
def sendFirst (s : State) (len : Nat) : State :=
  let s := startRx s false 0 false
  let ep0 := { s.ep0 with txPtr := s.dbgmemaddr + BitVec.ofNat 32 48, txLen := s.dbgmemlen }
  let callback := if len < 48 then Ep0.Callback.shortTx else .tx
  { s with ep0 := usbEp0StartTx d.toPort ep0 d.dbgbuf (len + 16) (some callback) }

/-- The answer is `dbgbuf`, and left to `usb_handle_ep0_setup`. -/
def sendAll (s : State) (len : Nat) : State :=
  { s with
    dbgstate := .idle
    ep0 := respond d.toPort s.ep0 (len + 16 : Nat) d.dbgbuf
    handler := false
    doeptsiz := 0 }

/-- The case `DBGSTATE_RESPOND` of `usbdebug_handle_setup`, from the new `dbgmemlen` on. -/
def answerRead (s : State) (dbgmemlen : Nat) : State :=
  let len := min 48 dbgmemlen
  let s := fetch d s len
  let s : State := { s with
    dbgmemlen := dbgmemlen - len, dieptsiz := len + 16, dieptsiz_le := by omega }
  if s.dbgmemlen ≠ 0 then sendFirst d s len else sendAll d s len

/-- A request with direction IN: `usbdebug_handle_setup`, and what `usb_handle_ep0_setup` does with the
result. Without an answer to fetch, the request is stalled. -/
@[grind =] def setupIn (s : State) (wLength : Nat) : State :=
  if s.dbgstate = .respond then
    -- `MIN(dbgmemlen, wLength - 16)`, of an unsigned number and an `int`
    answerRead d s (min s.dbgmemlen (BitVec.ofNat 32 wLength - 16).toNat)
  else { s with ep0 := respond d.toPort s.ep0 (-2) 0, handler := false, doeptsiz := 0 }

/-- Other code runs. -/
def elapse (f : Mem 32 → Mem 32) (s : State) : State :=
  { s with ep0 := { s.ep0 with mem := f s.ep0.mem } }

/-- The host takes `n` packets, and other code runs before each of them is acknowledged. With a negative
`ep0_tx_len` the driver is called for a negative number of bytes, and nothing more can be said. -/
@[grind =] def serve (env : Nat → Mem 32 → Mem 32) (s : Ep0.State) : Nat → Ep0.State
  | 0 => s
  | n + 1 =>
    let t := { serve env s n with mem := env n (serve env s n).mem }
    if t.txCallback = some .tx ∧ 2147483648 ≤ t.txLen then t else acknowledge d.toPort t

/-! ## What it should do -/

@[grind =] def sent (calls : List Call) : List UInt8 := (calls.filterMap Call.packet).flatten

/-- The memory from which packet `k` is taken: the first one at once, the others when the one before
is acknowledged. -/
def memoryAt (env : Nat → Mem 32 → Mem 32) (m : Mem 32) (s : Ep0.State) : Nat → Mem 32
  | 0 => m
  | k + 1 => env k (serve d env s k).mem

/-- The packet of the byte `j`. -/
def packetOf (j : Nat) : Nat := if j < 48 then 0 else (j - 48) / 64 + 1

/-- What is handed to the driver after `calls`, from the state `s` on, until the host has taken it all:
no more than `wLength` bytes, the response header and `n` bytes from `addr` on. There is no room for
the whole header, and so for none of them, if `wLength` is less than 16. -/
def Answered (env : Nat → Mem 32 → Mem 32) (m : Mem 32) (calls : List Call) (s : Ep0.State)
    (addr : BitVec 32) (n wLength : Nat) : Prop :=
  ∃ N, ∀ k ≥ N, (serve d env s k).txCallback = none ∧
    ∃ answer, (serve d env s k).calls = calls ++ answer ∧ (sent answer).length ≤ wLength ∧
      (wLength < 16 → sent answer <+: load m d.dbgbuf 16) ∧
      (16 ≤ wLength → sent answer = load m d.dbgbuf 16 ++
        (List.range n).map fun j => memoryAt d env m s (packetOf j) (addr + BitVec.ofNat 32 j))

variable {d} {env : Nat → Mem 32 → Mem 32} {s t : Ep0.State} {m : Mem 32}

@[simp] theorem sent_append (as bs : List Call) : sent (as ++ bs) = sent as ++ sent bs := by
  simp [sent]

@[simp] theorem sent_packet (bs : List UInt8) (calls : List Call) :
    sent (.startTx bs :: calls) = bs ++ sent calls := rfl

@[simp] theorem sent_rx (b : Bool) (n : Nat) (calls : List Call) :
    sent (.startRx b n :: calls) = sent calls := rfl

@[simp] theorem sent_stall (ep : UInt8) (b : Bool) (calls : List Call) :
    sent (.setStall ep b :: calls) = sent calls := rfl

@[simp] theorem sent_nil : sent [] = [] := rfl

/-! ## The first packet -/

/-- The header is left as it is by the bytes behind it. -/
theorem load_dbgbuf (m : Mem 32) {bs : List UInt8} (hbs : bs.length ≤ 48) :
    load (store m (d.dbgbuf + BitVec.ofNat 32 16) bs) d.dbgbuf (16 + bs.length) =
      load m d.dbgbuf 16 ++ bs := by
  rw [load_append, load_store (by omega)]
  congr 1
  refine load_congr fun i hi => store_of_le ?_
  bv_omega

theorem fetch_mem (s : State) (len : Nat) : (fetch d s len).ep0.mem =
    store s.ep0.mem (d.dbgbuf + BitVec.ofNat 32 16) (load s.ep0.mem s.dbgmemaddr len) := by
  simp only [fetch]
  split
  · rfl
  · rename_i h
    rw [not_not.1 h]
    rfl

/-- `dbgbuf` is sent from where it is. -/
theorem startTx_dbgbuf (len : Nat) (callback : Option Ep0.Callback) :
    usbEp0StartTx d.toPort s d.dbgbuf len callback =
      { s with txCallback := callback, calls := s.calls ++ [.startTx (load s.mem d.dbgbuf len)] } := by
  rw [usbEp0StartTx, d.aligned]
  rfl

theorem dbgbuf_bytes {u : State} {len : Nat} (hlen : len ≤ 48) :
    load (fetch d u len).ep0.mem d.dbgbuf (len + 16) =
      load u.ep0.mem d.dbgbuf 16 ++ load u.ep0.mem u.dbgmemaddr len := by
  have h := @load_dbgbuf d u.ep0.mem (load u.ep0.mem u.dbgmemaddr len) (by rw [length_load]; exact hlen)
  rw [length_load] at h
  rw [fetch_mem, Nat.add_comm, h]

/-- The first packet of an answer has the header and `len` bytes. After a full one `left` bytes are to
follow, from the address behind them on. -/
structure First (d : Layout) (m : Mem 32) (calls : List Call) (addr : BitVec 32) (len left : Nat)
    (s : Ep0.State) : Prop where
  calls : s.calls = calls ++ [.startRx false 0, .startTx (load m d.dbgbuf 16 ++ load m addr len)]
  callback : s.txCallback = some (if len < 48 then .shortTx else .tx)
  txLen : len = 48 → s.txLen = left
  txPtr : left ≠ 0 → s.txPtr = addr + BitVec.ofNat 32 48

theorem answerRead_first {u : State} (n : Nat) :
    First d u.ep0.mem u.ep0.calls u.dbgmemaddr (min 48 n) (n - min 48 n) (answerRead d u n).ep0 := by
  have hbytes := @dbgbuf_bytes d u (min 48 n) (min_le_left _ _)
  have hcalls : (fetch d u (min 48 n)).ep0.calls = u.ep0.calls := rfl
  simp only [answerRead]
  split
  · simp only [sendFirst, startRx, usbEp0StartRx, startTx_dbgbuf, hbytes, hcalls]
    exact ⟨by simp, rfl, fun _ => rfl, fun _ => rfl⟩
  · rename_i hleft
    have hleft : n - min 48 n = 0 := not_not.1 hleft
    have hmin : min 64 (min 48 n + 16) = min 48 n + 16 := by omega
    simp only [sendAll, respond, usbEp0TxCallback, usbEp0StartRx, Int.toNat_natCast]
    rw [if_neg (by omega), if_pos (by omega), if_neg (by omega)]
    simp only [hmin, startTx_dbgbuf, hbytes, hcalls]
    refine ⟨by simp, ?_, ?_, fun h0 => absurd hleft h0⟩
    · by_cases hl : min 48 n < 48
      · rw [if_pos (by omega), if_pos hl]
      · rw [if_neg (by omega), if_neg hl]
    · intro _
      simp only
      omega

/-! ## The packets after it -/

theorem acknowledge_tx {p : Port} (h : s.txCallback = some .tx) :
    acknowledge p s = usbEp0TxCallback p { s with txCallback := none } 0 := by
  rw [acknowledge, usbHandleXferComplete, if_neg (by decide), h]
  rfl

/-- A full packet. -/
theorem acknowledge_full {p : Port} (h : s.txCallback = some .tx) (hlen : 64 ≤ s.txLen) :
    (acknowledge p s).txCallback = some .tx ∧ (acknowledge p s).txLen = s.txLen - 64 ∧
      (acknowledge p s).txPtr = s.txPtr + 64 ∧
      (acknowledge p s).calls = s.calls ++ [.startTx (load s.mem s.txPtr 64)] := by
  have hmin : min 64 s.txLen = 64 := by omega
  rw [acknowledge_tx h, usbEp0TxCallback, if_neg (by simp only; omega)]
  simp only [hmin]
  refine ⟨(startTx_fields _ _ _).2.2, (startTx_fields _ _ _).2.1, ?_, startTx_calls le_rfl _ _⟩
  rw [(startTx_fields _ _ _).1]

/-- The last packet, which is not full. -/
theorem acknowledge_rest {p : Port} (h : s.txCallback = some .tx) (hlen : s.txLen < 64) :
    (acknowledge p s).txCallback = some .shortTx ∧ ∃ ext,
      (acknowledge p s).calls = s.calls ++ ext ∧ sent ext = load s.mem s.txPtr s.txLen := by
  rw [acknowledge_tx h, usbEp0TxCallback]
  by_cases h0 : s.txLen = 0
  · rw [if_pos (Or.inr h0)]
    simp only [usbEp0StartRx, h0, if_true]
    refine ⟨(startTx_fields _ _ _).2.2, [.startRx true 0, .startTx []], ?_, by simp [load]⟩
    rw [startTx_calls (by decide)]
    simp [load]
  · have hmin : min 64 s.txLen = s.txLen := by omega
    rw [if_neg (by simp [h0])]
    simp only [hmin, if_pos hlen]
    refine ⟨(startTx_fields _ _ _).2.2, _, startTx_calls (by omega) _ _, by simp⟩

/-- The end: nothing more is sent. -/
theorem acknowledge_last {p : Port} (h : s.txCallback = some .shortTx) :
    (acknowledge p s).txCallback = none ∧ ∃ ext,
      (acknowledge p s).calls = s.calls ++ ext ∧ sent ext = [] := by
  obtain ⟨hcb, hcalls⟩ := @acknowledge_short p s h
  refine ⟨hcb, _, hcalls, ?_⟩
  split
  · simp
  · simp

theorem serve_zero : serve d env s 0 = s := rfl

@[simp] theorem memoryAt_zero : memoryAt d env m s 0 = m := rfl

@[simp] theorem memoryAt_succ (k : Nat) : memoryAt d env m s (k + 1) = env k (serve d env s k).mem := rfl

theorem packetOf_first {j : Nat} (h : j < 48) : packetOf j = 0 := if_pos h

theorem packetOf_rest (j : Nat) : packetOf (48 + j) = j / 64 + 1 :=
  (if_neg (by omega)).trans (by rw [Nat.add_sub_cancel_left])

theorem serve_succ (n : Nat)
    (h : (serve d env s n).txCallback = some .tx → (serve d env s n).txLen < 2147483648) :
    serve d env s (n + 1) =
      acknowledge d.toPort { serve d env s n with mem := env n (serve d env s n).mem } := by
  rw [serve, if_neg]
  rintro ⟨hcb, hlen⟩
  exact absurd (h hcb) (Nat.not_lt.2 hlen)

/-- Once no callback is left, no packet is sent. -/
theorem serve_done {n : Nat} (h : (serve d env s n).txCallback = none) (k : Nat) :
    (serve d env s (n + k)).txCallback = none ∧
      (serve d env s (n + k)).calls = (serve d env s n).calls := by
  induction k with
  | zero => exact ⟨h, rfl⟩
  | succ k ih =>
    have hnext := @acknowledge_done d.toPort
      { serve d env s (n + k) with mem := env (n + k) (serve d env s (n + k)).mem } ih.1 1
    rw [Function.iterate_one] at hnext
    rw [← Nat.add_assoc, serve_succ (n + k) (by rw [ih.1]; simp), hnext]
    exact ih

/-- `k` full packets have been sent after the first one. -/
structure Going (d : Layout) (env : Nat → Mem 32 → Mem 32) (s : Ep0.State) (addr : BitVec 32)
    (left k : Nat) : Prop where
  callback : (serve d env s k).txCallback = some .tx
  txLen : (serve d env s k).txLen = left - 64 * k
  txPtr : left ≠ 0 → (serve d env s k).txPtr = addr + BitVec.ofNat 32 (64 * k)
  calls : ∃ ext, (serve d env s k).calls = s.calls ++ ext ∧
    sent ext = (List.range (64 * k)).map fun j =>
      env (j / 64) (serve d env s (j / 64)).mem (addr + BitVec.ofNat 32 j)

/-- The bytes of one packet, as a part of the block. -/
theorem load_packet {f : Nat → Mem 32} (addr : BitVec 32) {k n : Nat} (hn : n ≤ 64) :
    ((List.range (64 * k)).map fun j => f (j / 64) (addr + BitVec.ofNat 32 j)) ++
        load (f k) (addr + BitVec.ofNat 32 (64 * k)) n =
      (List.range (64 * k + n)).map fun j => f (j / 64) (addr + BitVec.ofNat 32 j) := by
  rw [List.range_add, List.map_append, List.map_map, load]
  congr 1
  refine List.map_congr_left fun i hi => ?_
  have hlt := List.mem_range.1 hi
  by_cases h64 : i = 64
  · omega
  · have hdiv : (64 * k + i) / 64 = k := by omega
    rw [Function.comp_apply, hdiv, BitVec.add_assoc, BitVec.ofNat_add]

variable {addr : BitVec 32} {left : Nat}

theorem Going.next {k : Nat} (h : Going d env s addr left k) (hlt : left < 2147483648)
    (hk : 64 * (k + 1) ≤ left) : Going d env s addr left (k + 1) := by
  have hlen := h.txLen
  have hptr := h.txPtr (by omega)
  obtain ⟨ext, hcalls, hsent⟩ := h.calls
  have hstep := @serve_succ d env s k (fun _ => by omega)
  obtain ⟨h1, h2, h3, h4⟩ := @acknowledge_full
    { serve d env s k with mem := env k (serve d env s k).mem } d.toPort h.callback
    (by simp only; omega)
  rw [← hstep] at h1 h2 h3 h4
  refine ⟨h1, ?_, fun _ => ?_, ?_⟩
  · rw [h2]
    simp only
    omega
  · rw [h3]
    simp only [hptr]
    exact ptr_add addr k
  · refine ⟨ext ++ [Call.startTx (load (env k (serve d env s k).mem)
      (addr + BitVec.ofNat 32 (64 * k)) 64)], ?_, ?_⟩
    · rw [h4, ← List.append_assoc, ← hcalls]
      simp only [hptr]
    · rw [sent_append, hsent, sent_packet, sent_nil, List.append_nil]
      exact @load_packet (fun i => env i (serve d env s i).mem) addr k 64 le_rfl

theorem Going.run {k : Nat} (h : Going d env s addr left 0) (hlt : left < 2147483648)
    (hk : 64 * k ≤ left) : Going d env s addr left k := by
  induction k with
  | zero => exact h
  | succ k ih => exact (ih (by omega)).next hlt hk

/-- The whole block is sent. -/
theorem Going.complete (h : Going d env s addr left 0) (hlt : left < 2147483648) :
    (serve d env s (left / 64 + 2)).txCallback = none ∧ ∃ ext,
      (serve d env s (left / 64 + 2)).calls = s.calls ++ ext ∧
      sent ext = (List.range left).map fun j =>
        env (j / 64) (serve d env s (j / 64)).mem (addr + BitVec.ofNat 32 j) := by
  have hq := h.run (k := left / 64) hlt (Nat.mul_div_le left 64)
  obtain ⟨ext, hcalls, hsent⟩ := hq.calls
  have hlen : (serve d env s (left / 64)).txLen = left % 64 := by
    rw [hq.txLen]
    omega
  have hmod := Nat.mod_lt left (show 0 < 64 by decide)
  obtain ⟨h1, ext', h2, h3⟩ := @acknowledge_rest
    { serve d env s (left / 64) with mem := env (left / 64) (serve d env s (left / 64)).mem } d.toPort
    hq.callback (by simp only [hlen]; exact hmod)
  rw [← serve_succ _ (fun _ => by omega)] at h1 h2
  obtain ⟨h4, ext'', h5, h6⟩ := @acknowledge_last
    { serve d env s (left / 64 + 1) with
      mem := env (left / 64 + 1) (serve d env s (left / 64 + 1)).mem } d.toPort h1
  rw [← serve_succ _ (fun hcb => by rw [h1] at hcb; cases hcb)] at h4 h5
  have hblock : load (env (left / 64) (serve d env s (left / 64)).mem)
      (serve d env s (left / 64)).txPtr (left % 64) =
        load (env (left / 64) (serve d env s (left / 64)).mem)
          (addr + BitVec.ofNat 32 (64 * (left / 64))) (left % 64) := by
    by_cases h0 : left = 0
    · rw [h0]
      rfl
    · rw [hq.txPtr h0]
  refine ⟨h4, ext ++ ext' ++ ext'', ?_, ?_⟩
  · rw [h5]
    simp only
    rw [h2]
    simp only
    rw [hcalls, List.append_assoc, List.append_assoc, List.append_assoc]
  · simp only [hlen] at h3
    rw [sent_append, sent_append, h6, List.append_nil, hsent, h3, hblock,
      @load_packet (fun i => env i (serve d env s i).mem) addr (left / 64) (left % 64) hmod.le,
      Nat.div_add_mod]

/-- Packets are only added. -/
theorem serve_extends (k : Nat) : ∃ ext, (serve d env s k).calls = s.calls ++ ext := by
  induction k with
  | zero => exact ⟨[], (List.append_nil _).symm⟩
  | succ k ih =>
    obtain ⟨ext, hext⟩ := ih
    rw [serve]
    split
    · exact ⟨ext, hext⟩
    · cases hcb : (serve d env s k).txCallback with
      | none =>
        have hnext := @acknowledge_done d.toPort
          { serve d env s k with mem := env k (serve d env s k).mem } hcb 1
        rw [Function.iterate_one] at hnext
        rw [hnext]
        exact ⟨ext, hext⟩
      | some cb =>
        cases cb with
        | ack =>
          refine ⟨ext ++ [Call.setStall ep0out true, Call.setStall ep0in true], ?_⟩
          simp [acknowledge, usbHandleXferComplete, hcb, call, usbEp0AckCallback,
            Ep0.usbSetStall, hext, show ep0in ≠ ep0out from by decide]
        | shortTx =>
          obtain ⟨-, ext', hcalls, -⟩ := @acknowledge_last
            { serve d env s k with mem := env k (serve d env s k).mem } d.toPort hcb
          exact ⟨ext ++ ext', by rw [hcalls, ← List.append_assoc, ← hext]⟩
        | tx =>
          rcases Nat.lt_or_ge (serve d env s k).txLen 64 with hlt | hge
          · obtain ⟨-, ext', hcalls, -⟩ := @acknowledge_rest
              { serve d env s k with mem := env k (serve d env s k).mem } d.toPort hcb hlt
            exact ⟨ext ++ ext', by rw [hcalls, ← List.append_assoc, ← hext]⟩
          · obtain ⟨-, -, -, hcalls⟩ := @acknowledge_full
              { serve d env s k with mem := env k (serve d env s k).mem } d.toPort hcb hge
            exact ⟨_, by rw [hcalls, hext, List.append_assoc]⟩

/-! ## The answer -/

/-- After READ MEMORY there is an answer to fetch. -/
theorem receive_read {u v : State} {len x : BitVec 32} {rest : List UInt8}
    (hs : receive d (setupOut u) (header 4 addr len x ++ rest) = some v) :
    v.dbgstate = .respond ∧ v.dbgmemaddr = addr ∧ v.dbgmemlen = len.toNat := by
  have hlen : (header 4 addr len x ++ rest).length = 16 + rest.length := by
    rw [List.length_append, length_header]
  have hrest : rest.length ≤ 48 := by
    by_contra hgt
    rw [receive, if_neg] at hs
    · cases hs
    · rintro ⟨-, hle⟩
      rw [hlen] at hle
      change 16 + rest.length ≤ 64 at hle
      omega
  simp only [receive, setupOut, startRx, usbEp0StartRx, hlen, usbdebugHandleData] at hs
  rw [if_pos ⟨trivial, by omega⟩] at hs
  generalize hw : State.mk (Ep0.State.mk _ _ _ _ _ _) DbgState.setup _ _ _ _ _ _ _ _ = w at hs
  have hmem : w.ep0.mem = store u.ep0.mem d.raw (header 4 addr len x ++ rest) := by rw [← hw]
  obtain ⟨h0, h1, h2⟩ := buf_header hrest hmem
  rw [h0, if_pos rfl] at hs
  cases hs
  exact ⟨rfl, h1, congrArg BitVec.toNat h2⟩

/-- The first packet alone is longer than a request of less than 16 bytes. -/
theorem First.not_answered {m : Mem 32} {calls : List Call} {a : BitVec 32} {len left n wLength : Nat}
    (h : First d m calls a len left s) (hw : wLength < 16) :
    ¬ Answered d env m calls s addr n wLength := by
  rintro ⟨N, hN⟩
  obtain ⟨-, answer, hcalls, hle, -⟩ := hN N le_rfl
  obtain ⟨ext, hext⟩ := @serve_extends d env s N
  rw [h.calls, List.append_assoc] at hext
  have hanswer := List.append_cancel_left (hcalls.symm.trans hext)
  rw [hanswer, sent_append, sent_rx, sent_packet, sent_nil, List.append_nil] at hle
  simp only [List.length_append, length_load] at hle
  omega

/-- A short first packet is the whole answer. -/
theorem First.short {m : Mem 32} {calls : List Call} {len left wLength : Nat}
    (h : First d m calls addr len left s) (hlen : len < 48) (hw : 16 + len ≤ wLength) :
    Answered d env m calls s addr len wLength := by
  have hcb : s.txCallback = some .shortTx := by
    rw [h.callback, if_pos hlen]
  obtain ⟨h1, ext, h2, h3⟩ := @acknowledge_last { s with mem := env 0 s.mem } d.toPort hcb
  have hstep := @serve_succ d env s 0 (fun h0 => by
    rw [serve_zero, hcb] at h0
    cases h0)
  rw [serve_zero] at hstep
  rw [← hstep] at h1 h2
  refine ⟨1, fun k hk => ?_⟩
  obtain ⟨e, rfl⟩ := Nat.exists_eq_add_of_le hk
  obtain ⟨h4, h5⟩ := serve_done h1 e
  have hdata : (List.range len).map (fun j =>
      memoryAt d env m s (packetOf j) (addr + BitVec.ofNat 32 j)) = load m addr len := by
    refine List.map_congr_left fun j hj => ?_
    have hlt := List.mem_range.1 hj
    rw [packetOf_first (by omega), memoryAt_zero]
  have hsent : sent ([Call.startRx false 0, Call.startTx (load m d.dbgbuf 16 ++ load m addr len)] ++ ext) =
      load m d.dbgbuf 16 ++ load m addr len := by
    rw [sent_append, h3, sent_rx, sent_packet, sent_nil, List.append_nil, List.append_nil]
  refine ⟨h4, [Call.startRx false 0, Call.startTx (load m d.dbgbuf 16 ++ load m addr len)] ++ ext, ?_, ?_,
    fun hlt => by omega, fun _ => ?_⟩
  · rw [h5, h2]
    simp only
    rw [h.calls, List.append_assoc]
  · rw [hsent, List.length_append, length_load, length_load]
    exact hw
  · rw [hsent, hdata]

/-- After a full first packet the rest follows. -/
theorem First.long {m : Mem 32} {calls : List Call} {left wLength : Nat}
    (h : First d m calls addr 48 left s) (hlt : left < 2147483648) (hw : 64 + left ≤ wLength) :
    Answered d env m calls s addr (48 + left) wLength := by
  have hgo : Going d env s (addr + BitVec.ofNat 32 48) left 0 := by
    refine ⟨?_, ?_, fun h0 => ?_, [], (List.append_nil _).symm, rfl⟩
    · rw [serve_zero, h.callback, if_neg (by decide)]
    · rw [serve_zero, h.txLen rfl]
      omega
    · rw [serve_zero, h.txPtr h0]
      exact (BitVec.add_zero _).symm
  obtain ⟨h1, ext, h2, h3⟩ := hgo.complete hlt
  refine ⟨left / 64 + 2, fun k hk => ?_⟩
  obtain ⟨e, rfl⟩ := Nat.exists_eq_add_of_le hk
  obtain ⟨h4, h5⟩ := serve_done h1 e
  have hdata : (List.range (48 + left)).map (fun j =>
      memoryAt d env m s (packetOf j) (addr + BitVec.ofNat 32 j)) = load m addr 48 ++ sent ext := by
    rw [h3, List.range_add, List.map_append, List.map_map]
    refine congrArg₂ (· ++ ·) ?_ ?_
    · refine List.map_congr_left fun j hj => ?_
      have hlt := List.mem_range.1 hj
      rw [packetOf_first hlt, memoryAt_zero]
    · refine List.map_congr_left fun j _ => ?_
      rw [Function.comp_apply, packetOf_rest, memoryAt_succ, BitVec.ofNat_add, BitVec.add_assoc]
  have hsent : sent ([Call.startRx false 0, Call.startTx (load m d.dbgbuf 16 ++ load m addr 48)] ++ ext) =
      load m d.dbgbuf 16 ++ load m addr 48 ++ sent ext := by
    rw [sent_append, sent_rx, sent_packet, sent_nil, List.append_nil]
  have hlen : (sent ext).length = left := by
    rw [h3, List.length_map, List.length_range]
  refine ⟨h4, [Call.startRx false 0, Call.startTx (load m d.dbgbuf 16 ++ load m addr 48)] ++ ext, ?_, ?_,
    fun hlt => by omega, fun _ => ?_⟩
  · rw [h5, h2, h.calls, List.append_assoc]
  · rw [hsent, List.length_append, List.length_append, length_load, length_load, hlen]
    exact hw
  · rw [hsent, hdata, List.append_assoc]

/-- READ MEMORY and the request for its answer: the answer is right, and no longer than the host asks
for, if and only if it asks for the header at least. -/
theorem read_memory_iff {u v w : State} {len x : BitVec 32} {rest : List UInt8} {wLength : Nat}
    {between : Mem 32 → Mem 32}
    (hs : receive d (setupOut u) (header 4 addr len x ++ rest) = some v) (hw : w = elapse between v)
    (hlen : wLength < 65536) :
    Answered d env w.ep0.mem w.ep0.calls (setupIn d w wLength).ep0 addr
      (min len.toNat (wLength - 16)) wLength ↔ 16 ≤ wLength := by
  obtain ⟨hstate, haddr, hmemlen⟩ := receive_read hs
  have hfirst := @answerRead_first d w (min w.dbgmemlen (BitVec.ofNat 32 wLength - 16).toNat)
  have hin : setupIn d w wLength =
      answerRead d w (min w.dbgmemlen (BitVec.ofNat 32 wLength - 16).toNat) := by
    rw [setupIn, if_pos (by rw [hw]; exact hstate)]
  have haddr' : w.dbgmemaddr = addr := by
    rw [hw]
    exact haddr
  have hmemlen' : w.dbgmemlen = len.toNat := by
    rw [hw]
    exact hmemlen
  rw [← hin, haddr', hmemlen'] at hfirst
  constructor
  · intro h
    by_contra hlt
    exact hfirst.not_answered (Nat.not_le.1 hlt) h
  · intro hge
    have hroom : (BitVec.ofNat 32 wLength - 16).toNat = wLength - 16 := by bv_omega
    rw [hroom] at hfirst
    generalize hn : min len.toNat (wLength - 16) = n at hfirst ⊢
    rcases Nat.lt_or_ge n 48 with hshort | hlong
    · have hmin : min 48 n = n := by omega
      rw [hmin] at hfirst
      exact hfirst.short hshort (by omega)
    · have hmin : min 48 n = 48 := by omega
      rw [hmin] at hfirst
      have h : Answered d env w.ep0.mem w.ep0.calls (setupIn d w wLength).ep0 addr
          (48 + (n - 48)) wLength := hfirst.long (by omega) (by omega)
      rwa [Nat.add_sub_cancel' hlong] at h

/-- A command to read 100 bytes is received. -/
theorem receive_hundred : ∃ v,
    receive layout (setupOut start) (header 4 0x3000 100 0 ++ []) = some v := by
  rw [← Option.isSome_iff_exists]
  decide

/-- 100 bytes, for a request of 200. -/
theorem read_memory_hundred : ∃ v,
    receive layout (setupOut start) (header 4 0x3000 100 0 ++ []) = some v ∧
      Answered layout (fun _ m => m) (elapse id v).ep0.mem (elapse id v).ep0.calls
        (setupIn layout (elapse id v) 200).ep0 0x3000 100 200 := by
  obtain ⟨v, hv⟩ := receive_hundred
  exact ⟨v, hv, (read_memory_iff hv rfl (by decide)).2 (by decide)⟩

/-- A request of 8 bytes gets the whole header, and bytes of memory behind it. -/
theorem short_request_overrun : ¬ ∀ (addr len x : BitVec 32) (wLength : Nat) (v : State),
    receive layout (setupOut start) (header 4 addr len x ++ []) = some v → wLength < 65536 →
      Answered layout (fun _ m => m) v.ep0.mem v.ep0.calls (setupIn layout v wLength).ep0 addr
        (min len.toNat (wLength - 16)) wLength := by
  intro h
  obtain ⟨v, hv⟩ := receive_hundred
  have hbad := h 0x3000 100 0 8 v hv (by decide)
  have hfirst := @answerRead_first layout v (min v.dbgmemlen (BitVec.ofNat 32 8 - 16).toNat)
  rw [setupIn, if_pos (receive_read hv).1] at hbad
  exact hfirst.not_answered (by decide) hbad

end DebugMemory
end Usb
end Freemyipod
