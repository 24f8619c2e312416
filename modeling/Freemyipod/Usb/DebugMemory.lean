import Freemyipod.Usb.DataStage

/-!
# Usb.DebugMemory

READ MEMORY and WRITE MEMORY of the debug monitor (`emcore/usb/usbdebug.c`): the callback for the data
stage of a command, the request that fetches the answer, and the two size registers of endpoint 0 from
which the driver (`emcore/usb/synopsysotg.c`) takes the number of missing bytes.

* `write_memory_iff`: when a write is exactly what the host has sent.
* `read_memory_iff`: when the answer to a read is no longer than the host asks for, and right.
-/

namespace Freemyipod
namespace Usb
namespace DebugMemory

open Memory Ep0

/-- `dbgbuf` is aligned for the driver. -/
structure Layout extends Port where
  dbgbuf : BitVec 32
  aligned : misaligned toPort dbgbuf = false

/-- `dbgstate`; the states for the console and for commands of `dbgthread` are not entered here. -/
inductive DbgState
  | idle
  | setup
  | writeMem
  | respond
deriving DecidableEq

/-- The variables of the monitor, and endpoint 0. `written` and `residues` note what a command writes
to memory, and with each packet that arrived what `bytesleft` was, and what the OUT endpoint's own
register said. -/
structure State where
  ep0 : Ep0.State
  dbgstate : DbgState
  dbgmemaddr : BitVec 32
  dbgmemlen : Nat
  /-- `ep0_rx_callback` is `usbdebug_handle_data` -/
  handler : Bool
  /-- `xfersize` of `outep_regs[0].doeptsiz` -/
  doeptsiz : Nat
  /-- `xfersize` of `inep_regs[0].dieptsiz`: what the host has not fetched of the last packet -/
  dieptsiz : Nat
  dieptsiz_le : dieptsiz ≤ 64
  written : List (BitVec 32 × UInt8)
  residues : List (Nat × Nat)

/-- Bytes at the addresses from `a` on. -/
@[grind =] def placed (a : BitVec 32) : List UInt8 → List (BitVec 32 × UInt8)
  | [] => []
  | b :: bs => (a, b) :: placed (a + 1) bs

variable (d : Layout) (s : State)

/-! ## The code -/

def startRx (nonSetup : Bool) (len : Nat) (handler : Bool) : State :=
  { s with ep0 := usbEp0StartRx s.ep0 nonSetup len none, handler, doeptsiz := len }

/-- `buf[i]` -/
def buf (i : Nat) : BitVec 32 := load32 s.ep0.mem (d.raw + BitVec.ofNat 32 (4 * i))

/-- `dbgbuf[0] = v;` -/
def setStatus (v : BitVec 32) : State :=
  { s with ep0 := { s.ep0 with mem := store32 s.ep0.mem d.dbgbuf v } }

/-- `memcpy(dbgmemaddr, &buf[i], len);` -/
def copy (i len : Nat) : State :=
  let bytes := load s.ep0.mem (d.raw + BitVec.ofNat 32 (4 * i)) len
  { s with
    ep0 := { s.ep0 with mem := store s.ep0.mem s.dbgmemaddr bytes }
    written := s.written ++ placed s.dbgmemaddr bytes }

/-- The end of `usbdebug_handle_data`. -/
def finish : State :=
  { s with
    dbgstate := .respond
    ep0 := usbEp0StartTx d.toPort (Ep0.usbSetStall s.ep0 ep0out true) 0 0 none
    dieptsiz := 0
    dieptsiz_le := Nat.zero_le 64 }

/-- The rest of the block is to be received. -/
def receiveMore (len : Nat) : State :=
  startRx { s with dbgmemaddr := s.dbgmemaddr + BitVec.ofNat 32 len, dbgstate := .writeMem } true
    (min 64 s.dbgmemlen) true

/-- Command 5. -/
def writeMemory : State :=
  let s := { s with dbgmemaddr := buf d s 1, dbgmemlen := (buf d s 2).toNat }
  let len := min 48 s.dbgmemlen
  let s := copy d { s with dbgmemlen := s.dbgmemlen - len } 4 len
  if s.dbgmemlen ≠ 0 then receiveMore s len else finish d (setStatus d s 1)

/-- Command 4. -/
def readMemory : State :=
  finish d { setStatus d s 1 with dbgmemaddr := buf d s 1, dbgmemlen := (buf d s 2).toNat }

/-- The case `DBGSTATE_WRITE_MEM`. -/
def continueWrite (bytesleft : Nat) : State :=
  let len := min (64 - bytesleft) s.dbgmemlen
  let s := copy d { s with dbgmemlen := s.dbgmemlen - len } 0 len
  if s.dbgmemlen ≠ 0 ∧ bytesleft = 0 then receiveMore s len else finish d (setStatus d s 1)

/-- `usbdebug_handle_data`; no result for other commands than the two. -/
def usbdebugHandleData (bytesleft : Nat) : Option State :=
  let s := startRx s false 0 false
  match s.dbgstate with
  | .setup =>
    if buf d s 0 = 4 then some (readMemory d s)
    else if buf d s 0 = 5 then some (writeMemory d s)
    else none
  | .writeMem => some (continueWrite d s bytesleft)
  | _ => some (finish d s)

/-- `usbdebug_handle_setup` for a request with direction OUT. -/
def setupOut : State := startRx { s with dbgstate := .setup, dbgmemlen := 0 } true 64 true

/-- A packet has arrived in `data->buffer`: the part of `synopsysotg_irq` for it. -/
@[grind =] def receive (packet : List UInt8) : Option State :=
  if s.handler = true ∧ packet.length ≤ s.doeptsiz then
    let doeptsiz := s.doeptsiz - packet.length
    let s := { s with
      ep0 := { s.ep0 with mem := store s.ep0.mem d.raw packet }
      doeptsiz
      handler := false }
    let bytesleft := s.dieptsiz
    usbdebugHandleData d { s with residues := s.residues ++ [(bytesleft, doeptsiz)] } bytesleft
  else none

/-- A request with the packets of its data stage. -/
def request (packet : List UInt8) (packets : List (List UInt8)) : Option State :=
  (receive d (setupOut { s with written := [], residues := [] }) packet).bind fun s =>
    packets.foldlM (receive d) s

/-! ## Writing -/

/-- The first 16 bytes of a command with the words `c`, `a` and `n`, and one that is not used. -/
def header (c a n x : BitVec 32) : List UInt8 := word c ++ word a ++ word n ++ word x

/-- What was written are the bytes that the host has sent, from `addr` on, as far as `len` goes, and
the number of missing bytes was always that of the OUT endpoint. -/
structure Exact (addr : BitVec 32) (len : Nat) (sent : List UInt8) (t : State) : Prop where
  written : t.written = placed addr (sent.take len)
  residues : ∀ e ∈ t.residues, e.1 = e.2

/-- Each packet has the size that the endpoint was programmed for, with `len` bytes left to receive. -/
def Full : Nat → List (List UInt8) → Prop
  | _, [] => True
  | len, p :: ps => p.length = min 64 len ∧ Full (len - 64) ps

variable {d s} {t : State}

theorem placed_append (a : BitVec 32) (bs cs : List UInt8) :
    placed a (bs ++ cs) = placed a bs ++ placed (a + BitVec.ofNat 32 bs.length) cs := by
  induction bs generalizing a with
  | nil =>
    have h0 : a + BitVec.ofNat 32 0 = a := BitVec.add_zero a
    simp only [List.nil_append, placed, List.length_nil, h0]
  | cons b bs ih =>
    have hlen : a + 1 + BitVec.ofNat 32 bs.length = a + BitVec.ofNat 32 (bs.length + 1) := by
      rw [BitVec.add_assoc, Nat.add_comm, BitVec.ofNat_add]
      rfl
    simp only [List.cons_append, placed, ih, List.length_cons, hlen]

@[simp] theorem length_placed (a : BitVec 32) (bs : List UInt8) : (placed a bs).length = bs.length := by
  induction bs generalizing a with
  | nil => rfl
  | cons b bs ih => simp only [placed, List.length_cons, ih]

theorem map_snd_placed (a : BitVec 32) (bs : List UInt8) : (placed a bs).map Prod.snd = bs := by
  induction bs generalizing a with
  | nil => rfl
  | cons b bs ih => simp only [placed, List.map_cons, ih]

/-- `copy` takes the bytes that have just arrived, if there are as many. -/
theorem load_raw {m : Mem 32} {packet : List UInt8} {o n : Nat} (hle : o + n ≤ packet.length)
    (hp : packet.length ≤ 64) :
    load (store m d.raw packet) (d.raw + BitVec.ofNat 32 o) n = (packet.drop o).take n := by
  have hall := @load_store_take 32 m d.raw packet (o + n) hle (by omega)
  rw [load_append] at hall
  have hdrop := congrArg (List.drop o) hall
  rw [List.drop_left' (length_load o), List.drop_take] at hdrop
  rw [hdrop]
  congr 1
  omega

theorem length_header (c a n x : BitVec 32) : (header c a n x).length = 16 := rfl

/-- The words of a command that has just arrived. -/
theorem buf_header {c a n x : BitVec 32} {rest : List UInt8} (hrest : rest.length ≤ 48) {m : Mem 32}
    (hm : s.ep0.mem = store m d.raw (header c a n x ++ rest)) :
    buf d s 0 = c ∧ buf d s 1 = a ∧ buf d s 2 = n := by
  have hp : (header c a n x ++ rest).length ≤ 64 := by
    rw [List.length_append, length_header]
    omega
  have hword : ∀ i, 4 * i + 4 ≤ 16 →
      buf d s i = ofBytes (((header c a n x ++ rest).drop (4 * i)).take 4) := by
    intro i hi
    rw [buf, load32, hm, load_raw (by rw [List.length_append, length_header]; omega) hp]
  refine ⟨?_, ?_, ?_⟩
  · rw [hword 0 (by decide)]
    exact ofBytes_word c
  · rw [hword 1 (by decide)]
    exact ofBytes_word a
  · rw [hword 2 (by decide)]
    exact ofBytes_word n

/-- The rest of a block is awaited: `left` bytes, from the address `a` on. -/
structure Listening (a : BitVec 32) (left missing : Nat) (t : State) : Prop where
  dbgstate : t.dbgstate = .writeMem
  handler : t.handler = true
  doeptsiz : t.doeptsiz = min 64 left
  dbgmemaddr : t.dbgmemaddr = a
  dbgmemlen : t.dbgmemlen = left
  dieptsiz : t.dieptsiz = missing

/-- A block of `n` bytes at most is copied from `data->buffer`, of which `left` are to come. -/
structure Copied (a : BitVec 32) (bytes : List UInt8) (more : Prop) (left : Nat) (s t : State) :
    Prop where
  written : t.written = s.written ++ placed a bytes
  residues : t.residues = s.residues
  next : more → Listening (a + BitVec.ofNat 32 bytes.length) left s.dieptsiz t
  last : ¬ more → t.handler = false

theorem writeMemory_copied {addr len : BitVec 32} (h1 : buf d s 1 = addr) (h2 : buf d s 2 = len)
    (hh : s.handler = false) :
    Copied addr (load s.ep0.mem (d.raw + BitVec.ofNat 32 16) (min 48 len.toNat))
      (len.toNat - min 48 len.toNat ≠ 0) (len.toNat - min 48 len.toNat) s (writeMemory d s) := by
  simp only [writeMemory, h1, h2]
  split
  · rename_i hmore
    refine ⟨rfl, rfl, fun _ => ?_, fun hno => absurd hmore hno⟩
    rw [length_load]
    exact ⟨rfl, rfl, rfl, rfl, rfl, rfl⟩
  · rename_i hmore
    exact ⟨rfl, rfl, fun h => absurd h hmore, fun _ => hh⟩

theorem continueWrite_copied {bytesleft : Nat} (hh : s.handler = false) :
    Copied s.dbgmemaddr (load s.ep0.mem (d.raw + BitVec.ofNat 32 0) (min (64 - bytesleft) s.dbgmemlen))
      (s.dbgmemlen - min (64 - bytesleft) s.dbgmemlen ≠ 0 ∧ bytesleft = 0)
      (s.dbgmemlen - min (64 - bytesleft) s.dbgmemlen) s (continueWrite d s bytesleft) := by
  simp only [continueWrite]
  split
  · rename_i hmore
    refine ⟨rfl, rfl, fun _ => ?_, fun hno => absurd hmore hno⟩
    rw [length_load]
    exact ⟨rfl, rfl, rfl, rfl, rfl, rfl⟩
  · rename_i hmore
    exact ⟨rfl, rfl, fun h => absurd h hmore, fun _ => hh⟩

/-- The first packet of a write. -/
theorem receive_first {addr len x : BitVec 32} {data : List UInt8} (hdata : data.length ≤ 48)
    (hs : receive d (setupOut { s with written := [], residues := [] })
      (header 5 addr len x ++ data) = some t) : ∃ u : State,
    u.written = [] ∧ u.residues = [(s.dieptsiz, 48 - data.length)] ∧ u.dieptsiz = s.dieptsiz ∧
      Copied addr (load (store s.ep0.mem d.raw (header 5 addr len x ++ data))
          (d.raw + BitVec.ofNat 32 16) (min 48 len.toNat))
        (len.toNat - min 48 len.toNat ≠ 0) (len.toNat - min 48 len.toNat) u t := by
  have hlen : (header 5 addr len x ++ data).length = 16 + data.length := by
    rw [List.length_append, length_header]
  have hres : 64 - (16 + data.length) = 48 - data.length := by omega
  simp only [receive, setupOut, startRx, usbEp0StartRx, hlen, usbdebugHandleData] at hs
  rw [if_pos ⟨trivial, by omega⟩] at hs
  generalize hu : State.mk (Ep0.State.mk _ _ _ _ _ _) DbgState.setup _ _ _ _ _ _ _ _ = u at hs
  have hmem : u.ep0.mem = store s.ep0.mem d.raw (header 5 addr len x ++ data) := by rw [← hu]
  obtain ⟨h0, h1, h2⟩ := buf_header hdata hmem
  rw [h0, if_neg (by decide), if_pos rfl] at hs
  cases hs
  have hcopied := writeMemory_copied (d := d) h1 h2 (by rw [← hu])
  rw [hmem] at hcopied
  refine ⟨u, ?_, ?_, ?_, hcopied⟩
  · rw [← hu]
  · rw [← hu, ← hres]
    rfl
  · rw [← hu]

/-- Each of the next packets. -/
theorem receive_next {a : BitVec 32} {left missing : Nat} {packet : List UInt8}
    (h : Listening a left missing s) (hs : receive d s packet = some t) :
    packet.length ≤ min 64 left ∧ ∃ u : State, u.written = s.written ∧
      u.residues = s.residues ++ [(missing, min 64 left - packet.length)] ∧ u.dieptsiz = missing ∧
      Copied a (load (store s.ep0.mem d.raw packet) (d.raw + BitVec.ofNat 32 0)
          (min (64 - missing) left))
        (left - min (64 - missing) left ≠ 0 ∧ missing = 0) (left - min (64 - missing) left) u t := by
  rw [receive] at hs
  split at hs
  · rename_i hp
    rw [h.doeptsiz] at hp
    refine ⟨hp.2, ?_⟩
    simp only [startRx, usbEp0StartRx, usbdebugHandleData, h.dbgstate] at hs
    generalize hu : State.mk (Ep0.State.mk _ _ _ _ _ _) DbgState.writeMem _ _ _ _ _ _ _ _ = u at hs
    cases hs
    have hcopied := @continueWrite_copied d u s.dieptsiz (by rw [← hu])
    have haddr : u.dbgmemaddr = a := by
      rw [← hu]
      exact h.dbgmemaddr
    have hlen : u.dbgmemlen = left := by
      rw [← hu]
      exact h.dbgmemlen
    have hmem : u.ep0.mem = store s.ep0.mem d.raw packet := by rw [← hu]
    rw [haddr, hlen, hmem, h.dieptsiz] at hcopied
    refine ⟨u, ?_, ?_, ?_, ?_⟩
    · rw [← hu]
    · rw [← hu, ← h.dieptsiz, ← h.doeptsiz]
    · rw [← hu]
      exact h.dieptsiz
    · rw [h.dieptsiz]
      exact hcopied
  · cases hs

/-- Once the block is complete, no packet is received. -/
theorem receive_done {packets : List (List UInt8)} (h : s.handler = false)
    (hs : packets.foldlM (receive d) s = some t) : packets = [] ∧ t = s := by
  cases packets with
  | nil =>
    cases hs
    exact ⟨rfl, rfl⟩
  | cons p ps =>
    rw [List.foldlM_cons, receive, h, if_neg (by simp)] at hs
    cases hs

/-- If the number of missing bytes is the right one, no more bytes arrive than are written; and if
none are missing, all packets are full. -/
theorem run_length {a : BitVec 32} {left missing : Nat} {packets : List (List UInt8)}
    (h : Listening a left missing s) (hs : packets.foldlM (receive d) s = some t) :
    ∃ es, t.residues = s.residues ++ es ∧ ((∀ e ∈ es, e.1 = e.2) →
      s.written.length + packets.flatten.length ≤ t.written.length ∧
        (missing = 0 → Full left packets)) := by
  induction packets generalizing a left s with
  | nil =>
    cases hs
    exact ⟨[], (List.append_nil _).symm, fun _ => ⟨le_rfl, fun _ => trivial⟩⟩
  | cons p ps ih =>
    rw [List.foldlM_cons] at hs
    obtain ⟨v, hv, hs⟩ := Option.bind_eq_some_iff.1 hs
    obtain ⟨hp, u, hw, hr, hmiss, hc⟩ := receive_next h hv
    have hwv : v.written.length = s.written.length + min (64 - missing) left := by
      rw [hc.written, List.length_append, length_placed, length_load, hw]
    have hrv : v.residues = s.residues ++ [(missing, min 64 left - p.length)] := by
      rw [hc.residues, hr]
    have hstep : missing = min 64 left - p.length →
        s.written.length + p.length ≤ v.written.length := by
      intro he
      omega
    by_cases hmore : left - min (64 - missing) left ≠ 0 ∧ missing = 0
    · obtain ⟨es, hes, hrest⟩ := ih (hc.next hmore |> fun hl => by rwa [hmiss] at hl) hs
      refine ⟨(missing, min 64 left - p.length) :: es, ?_, ?_⟩
      · rw [hes, hrv, List.append_assoc]
        rfl
      · intro hall
        rw [List.forall_mem_cons] at hall
        obtain ⟨hle, hfull⟩ := hrest hall.2
        refine ⟨?_, fun h0 => ⟨?_, ?_⟩⟩
        · rw [List.flatten_cons, List.length_append]
          have := hstep hall.1
          omega
        · have := hall.1
          omega
        · have hleft : left - min (64 - missing) left = left - 64 := by omega
          rw [← hleft]
          exact hfull h0
    · obtain ⟨rfl, rfl⟩ := receive_done (hc.last hmore) hs
      refine ⟨[(missing, min 64 left - p.length)], hrv, fun hall => ?_⟩
      have he := hall _ List.mem_cons_self
      refine ⟨?_, fun h0 => ⟨?_, trivial⟩⟩
      · have := hstep he
        simpa using this
      · have : missing = min 64 left - p.length := he
        omega

/-- Full packets are written as they are. -/
theorem run_full {a : BitVec 32} {left : Nat} {packets : List (List UInt8)}
    (h : Listening a left 0 s) (hfull : Full left packets)
    (hs : packets.foldlM (receive d) s = some t) :
    t.written = s.written ++ placed a packets.flatten ∧ packets.flatten.length ≤ left ∧
      ∃ es, t.residues = s.residues ++ es ∧ ∀ e ∈ es, e.1 = e.2 := by
  induction packets generalizing a left s with
  | nil =>
    cases hs
    exact ⟨(List.append_nil _).symm, Nat.zero_le _, [], (List.append_nil _).symm, by simp⟩
  | cons p ps ih =>
    obtain ⟨hlen, hrest⟩ := hfull
    rw [List.foldlM_cons] at hs
    obtain ⟨v, hv, hs⟩ := Option.bind_eq_some_iff.1 hs
    obtain ⟨-, u, hw, hr, hmiss, hc⟩ := receive_next h hv
    have hbytes : load (store s.ep0.mem d.raw p) (d.raw + BitVec.ofNat 32 0) (min (64 - 0) left) = p := by
      rw [load_raw (by omega) (by omega), List.drop_zero]
      exact List.take_of_length_le (by omega)
    rw [hbytes] at hc
    have hwv : v.written = s.written ++ placed a p := by rw [hc.written, hw]
    have hrv : v.residues = s.residues ++ [(0, min 64 left - p.length)] := by
      rw [hc.residues, hr]
    have hzero : min 64 left - p.length = 0 := by omega
    by_cases hmore : left - min (64 - 0) left ≠ 0 ∧ 0 = 0
    · have hleft : left - min (64 - 0) left = left - 64 := by omega
      have hnext := hc.next hmore
      rw [hmiss, hleft] at hnext
      obtain ⟨hwt, hle, es, hes, hall⟩ := ih hnext hrest hs
      refine ⟨?_, ?_, (0, min 64 left - p.length) :: es, ?_, ?_⟩
      · rw [hwt, hwv, List.append_assoc, ← placed_append, List.flatten_cons]
      · rw [List.flatten_cons, List.length_append]
        omega
      · rw [hes, hrv, List.append_assoc]
        rfl
      · rw [List.forall_mem_cons]
        exact ⟨hzero.symm, hall⟩
    · obtain ⟨rfl, rfl⟩ := receive_done (hc.last hmore) hs
      refine ⟨?_, ?_, [(0, min 64 left - p.length)], hrv, ?_⟩
      · rw [hwv, List.flatten_singleton]
      · rw [List.flatten_singleton]
        omega
      · rw [List.forall_mem_singleton]
        exact hzero.symm

/-- A write is what the host has sent, with the number of missing bytes taken from the right register,
if and only if the first packet lacks as many bytes as the IN endpoint's register says, and has its
part of the block, and all others are full. -/
theorem write_memory_iff {addr len x : BitVec 32} {data : List UInt8} {packets : List (List UInt8)}
    (hs : request d s (header 5 addr len x ++ data) packets = some t) :
    Exact addr len.toNat (data ++ packets.flatten) t ↔
      data.length + s.dieptsiz = 48 ∧ min 48 len.toNat ≤ data.length ∧
        Full (len.toNat - 48) packets := by
  rw [request] at hs
  obtain ⟨v, hv, hs⟩ := Option.bind_eq_some_iff.1 hs
  have hdata : data.length ≤ 48 := by
    by_contra hgt
    rw [receive, if_neg] at hv
    · cases hv
    · rintro ⟨-, hle⟩
      rw [List.length_append, length_header] at hle
      change 16 + data.length ≤ 64 at hle
      omega
  obtain ⟨u, hw, hr, hmiss, hc⟩ := receive_first hdata hv
  have hwv : v.written = placed addr (load (store s.ep0.mem d.raw (header 5 addr len x ++ data))
      (d.raw + BitVec.ofNat 32 16) (min 48 len.toNat)) := by
    rw [hc.written, hw, List.nil_append]
  have hrv : v.residues = [(s.dieptsiz, 48 - data.length)] := by rw [hc.residues, hr]
  have hnext : len.toNat - min 48 len.toNat ≠ 0 → Listening (addr + BitVec.ofNat 32 48)
      (len.toNat - 48) s.dieptsiz v := by
    intro hmore
    have h48 : min 48 len.toNat = 48 := by omega
    have hl := hc.next hmore
    rw [length_load, h48, hmiss] at hl
    exact hl
  constructor
  · intro h
    have hlen := congrArg List.length h.written
    rw [length_placed, List.length_take, List.length_append] at hlen
    by_cases hmore : len.toNat - min 48 len.toNat ≠ 0
    · obtain ⟨es, hes, hrun⟩ := run_length (hnext hmore) hs
      have hall := h.residues
      rw [hes, hrv, List.forall_mem_append, List.forall_mem_singleton] at hall
      obtain ⟨hle, hfull⟩ := hrun hall.2
      rw [hwv, length_placed, length_load] at hle
      have hfirst : s.dieptsiz = 48 - data.length := hall.1
      exact ⟨by omega, by omega, hfull (by omega)⟩
    · obtain ⟨rfl, rfl⟩ := receive_done (hc.last hmore) hs
      have hall := h.residues
      rw [hrv, List.forall_mem_singleton] at hall
      rw [hwv, length_placed, length_load] at hlen
      have hfirst : s.dieptsiz = 48 - data.length := hall
      simp only [List.flatten_nil, List.length_nil] at hlen
      exact ⟨by omega, by omega, trivial⟩
  · rintro ⟨hsum, hpart, hfull⟩
    have hbytes : load (store s.ep0.mem d.raw (header 5 addr len x ++ data))
        (d.raw + BitVec.ofNat 32 16) (min 48 len.toNat) = data.take (min 48 len.toNat) := by
      rw [load_raw (by rw [List.length_append, length_header]; omega)
        (by rw [List.length_append, length_header]; omega), List.drop_left' (length_header _ _ _ _)]
    rw [hbytes] at hwv
    by_cases hmore : len.toNat - min 48 len.toNat ≠ 0
    · have h0 : s.dieptsiz = 0 := by omega
      have hl := hnext hmore
      rw [h0] at hl
      obtain ⟨hwt, hle, es, hes, hall⟩ := run_full hl hfull hs
      have htake : data.take (min 48 len.toNat) = data := List.take_of_length_le (by omega)
      have h48 : data.length = 48 := by omega
      refine ⟨?_, ?_⟩
      · rw [hwt, hwv, htake, ← h48, ← placed_append, List.take_of_length_le]
        rw [List.length_append]
        omega
      · rw [hes, hrv, List.forall_mem_append, List.forall_mem_singleton]
        exact ⟨by omega, hall⟩
    · obtain ⟨rfl, rfl⟩ := receive_done (hc.last hmore) hs
      have hmin : min 48 len.toNat = len.toNat := by omega
      refine ⟨?_, ?_⟩
      · rw [hwv, hmin, List.flatten_nil, List.append_nil]
      · rw [hrv, List.forall_mem_singleton]
        change s.dieptsiz = 48 - data.length
        omega

/-! ## Two writes -/

def layout : Layout where
  raw := 0x1000
  cachealignBits := 4
  dbgbuf := 0x2000
  aligned := by decide

def start : State where
  ep0 := idle
  dbgstate := .idle
  dbgmemaddr := 0
  dbgmemlen := 0
  handler := false
  doeptsiz := 0
  dieptsiz := 0
  dieptsiz_le := by decide
  written := []
  residues := []

/-- 60 bytes in two full packets. -/
theorem write_memory_sixty : ∃ t,
    request layout start (header 5 0x3000 60 0 ++ List.replicate 48 1) [List.replicate 12 2] = some t ∧
      Exact 0x3000 60 (List.replicate 48 1 ++ List.replicate 12 2) t := by
  have hsome : (request layout start (header 5 0x3000 60 0 ++ List.replicate 48 1)
      [List.replicate 12 2]).isSome = true := by decide
  obtain ⟨t, ht⟩ := Option.isSome_iff_exists.1 hsome
  refine ⟨t, ht, ?_⟩
  have hexact := (write_memory_iff ht).2 ⟨rfl, by decide, by decide, trivial⟩
  simpa using hexact

/-- After a final packet of 20 bytes, 52 are written: the register that was read is that of the IN
endpoint, where nothing is missing. -/
theorem short_packet_written : ¬ ∀ (addr len x : BitVec 32) (data : List UInt8)
    (packets : List (List UInt8)) (t : State),
    request layout start (header 5 addr len x ++ data) packets = some t →
      Exact addr len.toNat (data ++ packets.flatten) t := by
  intro h
  have hcount : (request layout start (header 5 0x3000 100 0 ++ List.replicate 48 1)
      [List.replicate 20 2]).map (fun t => t.written.length) = some 100 := by decide
  obtain ⟨t, ht, hlen⟩ := Option.map_eq_some_iff.1 hcount
  have hwritten := congrArg List.length (h _ _ _ _ _ t ht).written
  rw [hlen, length_placed] at hwritten
  exact absurd hwritten (by decide)

end DebugMemory
end Usb
end Freemyipod
