import Freemyipod.Lib.Tiles
import Freemyipod.Ums.Cache
import Freemyipod.Umsboot.Fat16

/-!
# Umsboot.Ramdisk

The mass-storage function of umsboot (`umsboot/ums.c`), which moves the blocks of READ(10) and
WRITE(10) between the host and the RAM disk itself. Of the other commands' replies only the sizes
are modelled.

* `handleScsi`, `xferComplete`: the handlers of a command and of the end of a transfer.
* `Served`: a READ(10) or WRITE(10) fails, or its chunks cover its sectors.
* `served_iff`: when that is so.
-/

namespace Freemyipod
namespace Umsboot
namespace Ramdisk

open Tiling While
open Ums (CommandBlockWrapper SenseData u32 s32)

inductive Phase where
  | waitingForCommand
  | sendingBlocks
  | sendingResult
  | sendingFailedResult
  | receivingBlocks
  | waitingForCswCompletion
  deriving DecidableEq, Repr

/-- The transfers that are started, and the stall of both endpoints. -/
inductive Event where
  | send (c : Chunk)
  | receive (c : Chunk)
  | result (size : Nat)
  | csw (status : Nat)
  | stall
  deriving DecidableEq, Repr

/-- The static variables of `ums.c`; `log` is what has been started so far. -/
structure State where
  phase : Phase
  sector : Nat
  count : Nat
  lastResult : Nat
  sense : SenseData
  maxpacket : Int
  maxlen : Int32
  length : Int
  locked : Bool
  ejected : Bool
  log : List Event

variable (t : Target) (s : State)

def start (e : Event) (phase : Phase) : State := { s with log := s.log ++ [e], phase := phase }

def sendCsw (status : Nat) : State :=
  let s := start s (.csw status) .waitingForCswCompletion
  if status = 0 then { s with sense := {} } else s

def fails (senseKey asc : UInt8) : State :=
  let s := sendCsw s 1
  { s with sense := { s.sense with senseKey := senseKey, asc := asc, ascq := 0 } }

def sendCommandResult (size : Nat) : State :=
  start { s with length := s32 size } (.result size) .sendingResult

/-- `send_command_failed_result`, and the sense data that every caller sets behind it. -/
def sendCommandFailedResult (senseKey asc : UInt8) : State :=
  let s := start s (.result 0) .sendingFailedResult
  { s with sense := { s.sense with senseKey := senseKey, asc := asc, ascq := 0 } }

def mediumNotPresent : State := sendCommandFailedResult s 0x02 0x3a

/-! ### Blocks -/

/-- `RAMDISK_SECTORSIZE` and `RAMDISK_SECTORS` -/
def sectorsize : Nat := t.sectorsize.toNat

def sectors : Nat := t.sectors.toNat

/-- `RAMDISK[cur_cmd.sector]` and `MIN(maxlen, cur_cmd.count * RAMDISK_SECTORSIZE)`, which compares
the two as unsigned numbers. -/
def chunk : Chunk :=
  ⟨s.sector * sectorsize t, min (u32 s.maxlen.toInt) (u32 (s.count * sectorsize t))⟩

/-- `maxlen / RAMDISK_SECTORSIZE`, converted to unsigned. -/
def perChunk : Nat := u32 (s.maxlen.toInt.tdiv (sectorsize t))

def advance : State :=
  { s with
    sector := u32 (s.sector + perChunk t s)
    count := s.count - min s.count (perChunk t s) }

def sendBlockData : State :=
  start { s with length := s32 (chunk t s).size } (.send (chunk t s)) .sendingBlocks

def receiveBlockData : State :=
  start { s with length := s32 (chunk t s).size } (.receive (chunk t s)) .receivingBlocks

def sendAndReadNext : State :=
  if s.lastResult ≠ 0 then fails s 0x03 0x11 else advance t (sendBlockData t s)

/-- What READ(10) and WRITE(10) do before the first block. -/
def transferBlocks (cbw : CommandBlockWrapper) (first : State → State) : State :=
  if s.ejected then mediumNotPresent s
  else
    let s := { s with sector := cbw.lba, count := cbw.blocks }
    if sectors t < u32 (cbw.lba + cbw.blocks) then fails s 0x05 0x21 else first s

/-! ### Commands -/

/-- A reply that needs the medium. -/
def sendMediumReply (size : Nat) : State :=
  if s.ejected then mediumNotPresent s else sendCommandResult s size

def modeSense (cbw : CommandBlockWrapper) (size : Nat) : State :=
  if s.ejected then mediumNotPresent s
  else if cbw.byte 2 &&& 0x3f = 0x3f then sendCommandResult s (min size cbw.length)
  else sendCommandFailedResult s 0x05 0x24

def handleScsi (cbw : CommandBlockWrapper) : State :=
  if cbw.signature ≠ 0x43425355 then { s with log := s.log ++ [.stall] }
  else
    match cbw.opcode with
    | .testUnitReady => if s.ejected then fails s 0x02 0x3a else sendCsw s 0
    | .reportLuns => sendCommandResult s (min 16 cbw.length)
    | .inquiry => sendCommandResult s (min 36 (min cbw.length (cbw.byte 4)))
    | .requestSense => sendCommandResult s (min 18 cbw.length)
    | .modeSense10 => modeSense s cbw 24
    | .modeSense6 => modeSense s cbw 12
    | .startStopUnit =>
      sendCsw { s with ejected := s.ejected || cbw.byte 4 &&& 0xf3 = 2 } 0
    | .allowMediumRemoval => sendCsw { s with locked := cbw.byte 4 &&& 3 ≠ 0 } 0
    | .readFormatCapacity => sendMediumReply s (min 12 cbw.length)
    | .readCapacity => sendMediumReply s (min 8 cbw.length)
    | .read10 => transferBlocks t s cbw (sendAndReadNext t)
    | .write10 => transferBlocks t s cbw (receiveBlockData t)
    | .writeBuffer => s
    | _ => fails s 0x05 0x20

/-- `ums_bus_reset` -/
def busReset (highspeed : Bool) : State := { s with maxpacket := if highspeed then 512 else 64 }

/-- `ums_set_altsetting`; the driver's `get_max_transfer_size` answers for both endpoints. -/
def setAltsetting (outMax inMax : Int32) : State :=
  { s with
    phase := .waitingForCommand
    maxlen := .ofInt (s.maxpacket * min outMax.toInt inMax.toInt) }

/-- A chunk has been received; after a short one nothing happens. -/
def received : State :=
  if u32 s.length ≠ u32 (sectorsize t * s.count) ∧ s.length ≠ s.maxlen.toInt then s
  else
    let s := advance t s
    if s.count = 0 then sendCsw s 0 else receiveBlockData t s

/-- `ums_xfer_complete`; the wrapper of a new command is in `cbw`. -/
def xferComplete (cbw : CommandBlockWrapper) (bytesleft : Int) : State :=
  let s := { s with length := s32 (s.length - bytesleft) }
  match s.phase with
  | .receivingBlocks => received t s
  | .waitingForCswCompletion => { s with phase := .waitingForCommand }
  | .waitingForCommand => handleScsi t s cbw
  | .sendingResult => sendCsw s 0
  | .sendingFailedResult => sendCsw s 1
  | .sendingBlocks => if s.count = 0 then sendCsw s 0 else sendAndReadNext t s

/-! ### A command as a whole -/

/-- The data stage is not over. -/
def busy : Bool :=
  s.phase ≠ .waitingForCommand && s.phase ≠ .waitingForCswCompletion

def Failed (log : List Event) : Prop := .csw 1 ∈ log

/-- The chunks cover the command's sectors, which the disk has; then the command succeeds. -/
def Moved (cbw : CommandBlockWrapper) (dir : Chunk → Event) (log : List Event) : Prop :=
  cbw.lba + cbw.blocks ≤ sectors t ∧
    ∃ l, Tiles (cbw.lba * sectorsize t) ((cbw.lba + cbw.blocks) * sectorsize t) l ∧
      log = l.map dir ++ [.csw 0]

/-- The direction in which a READ(10) or WRITE(10) moves its blocks. -/
def direction (cbw : CommandBlockWrapper) : Chunk → Event :=
  if cbw.opcode = .read10 then .send else .receive

/-- The command is answered when the host completes every transfer. -/
def Served (cbw : CommandBlockWrapper) : Prop :=
  ∃ u, Ends busy (fun s => xferComplete t s cbw 0) (handleScsi t { s with log := [] } cbw) u ∧
    (Failed u.log ∨ Moved t cbw (direction cbw) u.log)

/-- Chunks of `maxlen` bytes divide the command into whole sectors. -/
def Suits (blocks : Nat) (maxlen : Int) : Prop :=
  blocks = 0 ∨ (blocks * sectorsize t : Nat) ≤ maxlen ∨ maxlen ≤ -sectorsize t ∨
    (0 < maxlen ∧ (sectorsize t : Int) ∣ maxlen)

variable {t s} {cbw : CommandBlockWrapper} {ok : Nat → Prop} {go : State → State}
  {dir : Chunk → Event}

theorem sectorsize_bounds : 2048 ≤ sectorsize t ∧ sectorsize t ≤ 4096 := by
  cases t <;> decide

theorem sectors_lt : sectors t ≤ 16384 := by
  cases t <;> decide

theorem s32_u32 {m : Int32} : s32 (u32 m.toInt) = m.toInt := by
  have h1 := m.le_toInt
  have h2 := m.toInt_lt
  unfold s32 u32
  omega

theorem u32_s32 {n : Nat} : u32 (s32 (u32 n)) = u32 n := by
  unfold s32 u32
  omega

/-- As many bytes as the command asks for, and none of them outside the RAM disk. -/
theorem Moved.bytes {log : List Event} (h : Moved t cbw dir log) :
    ∃ l : List Chunk, log = l.map dir ++ [.csw 0] ∧ (l.map Chunk.size).sum = cbw.blocks * sectorsize t ∧
      ∀ c ∈ l, c.offset + c.size ≤ sectors t * sectorsize t := by
  obtain ⟨hrange, l, htiles, hlog⟩ := h
  have hsum := htiles.sum
  rw [Nat.add_mul] at hsum
  refine ⟨l, hlog, Nat.add_left_cancel hsum, ?_⟩
  intro c hc
  exact (htiles.inside c hc).2.trans (Nat.mul_le_mul_right _ hrange)

/-! ### One chunk -/

/-- The state behind a chunk, up to the phase and the length of the transfer. -/
structure Advanced (t : Target) (dir : Chunk → Event) (s s' : State) : Prop where
  sector : s'.sector = u32 (s.sector + perChunk t s)
  count : s'.count = s.count - min s.count (perChunk t s)
  log : s'.log = s.log ++ [dir (chunk t s)]
  maxlen : s'.maxlen = s.maxlen
  lastResult : s'.lastResult = s.lastResult

/-- `go` starts the next chunk, and the end of the chunk starts the one after it. Only reading
looks at `lastResult`. -/
structure Mover (t : Target) (cbw : CommandBlockWrapper) (ok : Nat → Prop) (go : State → State)
    (dir : Chunk → Event) : Prop where
  goes : ∀ s, ok s.lastResult → busy (go s) = true
  next : ∀ s, ok s.lastResult → ∃ s', Advanced t dir s s' ∧
    xferComplete t (go s) cbw 0 = if s'.count = 0 then sendCsw s' 0 else go s'

theorem sends : Mover t cbw (· = 0) (sendAndReadNext t) .send := by
  constructor
  · intro s h0
    simp [sendAndReadNext, h0, advance, sendBlockData, start, busy]
  · intro s h0
    refine ⟨{ advance t (sendBlockData t s) with
      length := s32 (s32 (chunk t s).size - 0) }, ⟨rfl, rfl, rfl, rfl, rfl⟩, ?_⟩
    have hgo : sendAndReadNext t s = advance t (sendBlockData t s) := by
      simp [sendAndReadNext, h0]
    rw [hgo]
    rfl

theorem receives : Mover t cbw (fun _ => True) (receiveBlockData t) .receive := by
  constructor
  · intro s _
    rfl
  · intro s _
    let s₁ := { receiveBlockData t s with length := s32 (s32 (chunk t s).size - 0) }
    refine ⟨advance t s₁, ⟨rfl, rfl, rfl, rfl, rfl⟩, ?_⟩
    have hx : xferComplete t (receiveBlockData t s) cbw 0 = received t s₁ := rfl
    have hlen : s₁.length = s32 (chunk t s).size := by
      simp only [s₁, s32]
      omega
    have hcheck : ¬ (u32 s₁.length ≠ u32 (sectorsize t * s₁.count) ∧
        s₁.length ≠ s₁.maxlen.toInt) := by
      rw [hlen, show s₁.count = s.count from rfl, show s₁.maxlen = s.maxlen from rfl, chunk]
      obtain h | h := min_choice (u32 s.maxlen.toInt) (u32 (s.count * sectorsize t))
      · simp only [h, s32_u32]
        simp
      · have hsize := @u32_s32 (s.count * sectorsize t)
        push_cast at hsize
        simp only [h, hsize, mul_comm (sectorsize t : Int)]
        simp
    rw [hx, received, if_neg hcheck]

theorem sendCsw_ends {s : State} : busy (sendCsw s 0) = false := rfl

@[simp] theorem sendCsw_log : (sendCsw s 0).log = s.log ++ [.csw 0] := rfl

/-! ### All chunks -/

theorem chunk_size_lt (hm : 0 ≤ s.maxlen.toInt) (hlt : s.maxlen.toInt < (s.count * sectorsize t : Nat))
    (hc : s.count < 65536) : ((chunk t s).size : Int) = s.maxlen.toInt := by
  have hs := sectorsize_bounds (t := t)
  have hprod : s.count * sectorsize t ≤ 65535 * 4096 := Nat.mul_le_mul (by omega) hs.2
  simp only [chunk, u32]
  omega

theorem chunk_size_last (h : (s.count * sectorsize t : Nat) ≤ s.maxlen.toInt ∨ s.maxlen.toInt < 0)
    (hc : s.count < 65536) : (chunk t s).size = s.count * sectorsize t := by
  have hs := sectorsize_bounds (t := t)
  have h1 := s.maxlen.le_toInt
  have h2 := s.maxlen.toInt_lt
  have hprod : s.count * sectorsize t ≤ 65535 * 4096 := Nat.mul_le_mul (by omega) hs.2
  simp only [chunk, u32]
  omega

theorem perChunk_nonneg (hm : 0 ≤ s.maxlen.toInt) :
    (perChunk t s : Int) = s.maxlen.toInt / sectorsize t := by
  have hs := sectorsize_bounds (t := t)
  have h2 := s.maxlen.toInt_lt
  have hq : s.maxlen.toInt / sectorsize t ≤ s.maxlen.toInt := Int.ediv_le_self _ hm
  have hq0 : 0 ≤ s.maxlen.toInt / sectorsize t := Int.ediv_nonneg hm (by omega)
  rw [perChunk, Int.tdiv_eq_ediv_of_nonneg hm]
  unfold u32
  omega

theorem perChunk_neg (hm : s.maxlen.toInt ≤ -sectorsize t) : 65536 ≤ perChunk t s := by
  have hs := sectorsize_bounds (t := t)
  have h1 := s.maxlen.le_toInt
  have hpos : (0 : Int) < sectorsize t := by omega
  have hq : s.maxlen.toInt.tdiv (sectorsize t) = -((-s.maxlen.toInt) / sectorsize t) := by
    rw [← Int.tdiv_eq_ediv_of_nonneg (by omega), Int.neg_tdiv, Int.neg_neg]
  have hlow : 1 ≤ (-s.maxlen.toInt) / sectorsize t := by
    rw [Int.le_ediv_iff_mul_le hpos]
    omega
  have hhigh : (-s.maxlen.toInt) / sectorsize t ≤ -s.maxlen.toInt :=
    Int.ediv_le_self _ (by omega)
  rw [perChunk, hq]
  unfold u32
  omega

theorem perChunk_zero (h1 : -(sectorsize t : Int) < s.maxlen.toInt)
    (h2 : s.maxlen.toInt < sectorsize t) : perChunk t s = 0 := by
  unfold perChunk
  obtain h | h := le_or_gt 0 s.maxlen.toInt
  · rw [Int.tdiv_eq_zero_of_lt h h2]
    rfl
  · have hneg : (-s.maxlen.toInt).tdiv (sectorsize t) = 0 :=
      Int.tdiv_eq_zero_of_lt (by omega) (by omega)
    rw [Int.neg_tdiv] at hneg
    rw [show s.maxlen.toInt.tdiv (sectorsize t) = 0 by omega]
    rfl

/-- The chunk takes all that is left. -/
def Last (t : Target) (s : State) : Prop :=
  (s.count * sectorsize t : Nat) ≤ s.maxlen.toInt ∨ s.maxlen.toInt < 0

theorem Last.count (h : Last t s) (hsuit : Suits t s.count s.maxlen.toInt) (hc : s.count < 65536) :
    s.count - min s.count (perChunk t s) = 0 := by
  have hs := sectorsize_bounds (t := t)
  have hle : s.count = 0 ∨ s.count ≤ perChunk t s := by
    obtain h0 | hfit | hneg | ⟨hpos, _⟩ := hsuit
    · exact .inl h0
    · right
      zify
      rw [perChunk_nonneg (by omega), Int.le_ediv_iff_mul_le (by omega)]
      exact_mod_cast hfit
    · exact .inr (by have := perChunk_neg hneg; omega)
    · right
      have hfit : (s.count * sectorsize t : Nat) ≤ s.maxlen.toInt := h.resolve_right (by omega)
      zify
      rw [perChunk_nonneg (by omega), Int.le_ediv_iff_mul_le (by omega)]
      exact_mod_cast hfit
  omega

theorem not_last (h : ¬ Last t s) :
    0 ≤ s.maxlen.toInt ∧ s.maxlen.toInt < (s.count * sectorsize t : Nat) := by
  unfold Last at h
  omega

/-- Then the chunk has whole sectors, and some are left behind it. -/
theorem whole_of_not_last (h : ¬ Last t s) (hsuit : Suits t s.count s.maxlen.toInt) :
    1 ≤ perChunk t s ∧ perChunk t s < s.count ∧
      s.maxlen.toInt = (perChunk t s * sectorsize t : Nat) := by
  have hs := sectorsize_bounds (t := t)
  obtain ⟨hm, hlt⟩ := not_last h
  have hq := perChunk_nonneg (t := t) hm
  obtain h0 | hfit | hneg | ⟨hpos, q, hdvd⟩ := hsuit
  · rw [h0] at hlt
    omega
  · omega
  · omega
  · rw [hdvd, Int.mul_ediv_cancel_left _ (by omega)] at hq
    rw [← hq] at hdvd
    have hprod : s.maxlen.toInt = (perChunk t s * sectorsize t : Nat) := by
      rw [hdvd]
      push_cast
      ring
    rw [hprod] at hpos hlt
    refine ⟨?_, ?_, hprod⟩
    · by_contra hzero
      rw [show perChunk t s = 0 by omega] at hpos
      simp at hpos
    · exact Nat.lt_of_mul_lt_mul_right (by exact_mod_cast hlt)

/-- What a transfer of the sectors from `s.sector` on comes to. -/
def Transferred (t : Target) (cbw : CommandBlockWrapper) (go : State → State)
    (dir : Chunk → Event) (s : State) : Prop :=
  ∃ u l, Ends busy (fun s => xferComplete t s cbw 0) (go s) u ∧
    u.log = s.log ++ l.map dir ++ [.csw 0] ∧
    Tiles (s.sector * sectorsize t) ((s.sector + s.count) * sectorsize t) l

theorem Mover.last (hgo : Mover t cbw ok go dir) (h0 : ok s.lastResult) (hlast : Last t s)
    (hsuit : Suits t s.count s.maxlen.toInt) (hc : s.count < 65536) :
    Transferred t cbw go dir s := by
  obtain ⟨s', hadv, hx⟩ := hgo.next s h0
  have hsize := chunk_size_last hlast hc
  rw [if_pos (by rw [hadv.count]; exact hlast.count hsuit hc)] at hx
  refine ⟨_, [chunk t s], .turn (hgo.goes s h0) (.done (by rw [hx]; rfl)), ?_, rfl, ?_⟩
  · rw [hx, sendCsw_log, hadv.log]
    rfl
  · rw [hsize, ← Nat.add_mul]
    rfl

/-- The sectors from `s.sector` on, chunk by chunk: the induction is on the sectors left. -/
theorem Mover.transferred (hgo : Mover t cbw ok go dir) (n : Nat) : ∀ {s : State}, s.count ≤ n →
    ok s.lastResult → s.sector + s.count ≤ sectors t → Suits t s.count s.maxlen.toInt →
    Transferred t cbw go dir s := by
  have hsec := sectors_lt (t := t)
  induction n with
  | zero =>
    intro s hn h0 hrange hsuit
    have hcount : s.count = 0 := by omega
    have hlast : Last t s := by
      unfold Last
      rw [hcount]
      omega
    exact hgo.last h0 hlast hsuit (by omega)
  | succ n ih =>
    intro s hn h0 hrange hsuit
    by_cases hlast : Last t s
    · exact hgo.last h0 hlast hsuit (by omega)
    obtain ⟨s', hadv, hx⟩ := hgo.next s h0
    obtain ⟨hq, hlt, hlen⟩ := whole_of_not_last hlast hsuit
    have hsize : (chunk t s).size = perChunk t s * sectorsize t := by
      obtain ⟨hm, hmlt⟩ := not_last hlast
      have := chunk_size_lt hm hmlt (by omega)
      rw [hlen] at this
      exact_mod_cast this
    have hsector : s'.sector = s.sector + perChunk t s := by
      rw [hadv.sector, u32]
      omega
    have hcount : s'.count = s.count - perChunk t s := by
      rw [hadv.count]
      omega
    have hsuit' : Suits t s'.count s'.maxlen.toInt := by
      rw [hadv.maxlen]
      refine .inr (.inr (.inr ⟨?_, ?_⟩))
      · have := Nat.mul_le_mul_right (sectorsize t) hq
        have := sectorsize_bounds (t := t)
        omega
      · rw [hlen]
        exact ⟨perChunk t s, by push_cast; ring⟩
    have h0' : ok s'.lastResult := by rw [hadv.lastResult]; exact h0
    obtain ⟨u, l, hends, hlog, htiles⟩ := ih (by omega) h0' (by omega) hsuit'
    rw [if_neg (by omega)] at hx
    refine ⟨u, chunk t s :: l, .turn (hgo.goes s h0) (by rw [hx]; exact hends), ?_, rfl, ?_⟩
    · rw [hlog, hadv.log]
      simp
    · rw [hsector, hcount, show s.sector + perChunk t s + (s.count - perChunk t s) =
        s.sector + s.count by omega] at htiles
      rw [hsize, ← Nat.add_mul]
      exact htiles

/-! ### Chunks that do not divide the command -/

/-- Whatever the chunks are, the command does not fail any more. -/
theorem Mover.log (hgo : Mover t cbw ok go dir) (h0 : ok s.lastResult) {pre : List Chunk}
    (hpre : s.log = pre.map dir) {u : State}
    (h : Ends busy (fun s => xferComplete t s cbw 0) (go s) u) :
    ∃ l, u.log = (pre ++ l).map dir ++ [.csw 0] := by
  have hinv := h.invariant
    (I := fun x => (∃ s' l, x = go s' ∧ ok s'.lastResult ∧ s'.log = (pre ++ l).map dir) ∨
      ∃ l, x.phase = .waitingForCswCompletion ∧ x.log = (pre ++ l).map dir ++ [.csw 0])
    (.inl ⟨s, [], rfl, h0, by rw [hpre, List.append_nil]⟩) ?_
  · obtain ⟨⟨s', l, rfl, h0', _⟩ | ⟨l, _, hl⟩, hend⟩ := hinv
    · rw [hgo.goes s' h0'] at hend
      cases hend
    · exact ⟨l, hl⟩
  · rintro x (⟨s', l, rfl, h0', hl⟩ | ⟨l, hphase, _⟩) hbusy
    · obtain ⟨s'', hadv, hx⟩ := hgo.next s' h0'
      have hlog : s''.log = (pre ++ (l ++ [chunk t s'])).map dir := by
        rw [hadv.log, hl]
        simp
      rw [hx]
      split
      · exact .inr ⟨_, rfl, by rw [sendCsw_log, hlog]⟩
      · exact .inl ⟨s'', _, rfl, by rw [hadv.lastResult]; exact h0', hlog⟩
    · simp [busy, hphase] at hbusy

theorem Mover.log_next (hgo : Mover t cbw ok go dir) (h0 : ok s.lastResult) {pre : List Chunk}
    (hpre : s.log = pre.map dir) {u : State}
    (h : Ends busy (fun s => xferComplete t s cbw 0) (go s) u) :
    ∃ l, u.log = (pre ++ chunk t s :: l).map dir ++ [.csw 0] := by
  obtain ⟨s', hadv, hx⟩ := hgo.next s h0
  have hlog : s'.log = (pre ++ [chunk t s]).map dir := by
    rw [hadv.log, hpre]
    simp
  cases h with
  | done hend => rw [hgo.goes s h0] at hend; cases hend
  | turn _ h =>
    rw [hx] at h
    split at h
    · refine ⟨[], ?_⟩
      rw [h.unique (.done rfl), sendCsw_log, hlog]
    · obtain ⟨l, hl⟩ := hgo.log (by rw [hadv.lastResult]; exact h0) hlog h
      exact ⟨l, by rw [hl]; simp⟩

/-- A chunk smaller than a sector is moved again and again. -/
theorem Mover.stuck (hgo : Mover t cbw ok go dir) (h0 : ok s.lastResult) (hq : perChunk t s = 0)
    (hc : s.count ≠ 0) : ¬ ∃ u, Ends busy (fun s => xferComplete t s cbw 0) (go s) u := by
  apply not_ends (I := fun x => ∃ s', x = go s' ∧ ok s'.lastResult ∧ s'.count ≠ 0 ∧
    s'.maxlen = s.maxlen) ⟨s, rfl, h0, hc, rfl⟩
  rintro x ⟨s', rfl, h0', hc', hm⟩
  obtain ⟨s'', hadv, hx⟩ := hgo.next s' h0'
  have hq' : perChunk t s' = 0 := by
    rw [perChunk, hm]
    exact hq
  have hcount : s''.count = s'.count := by
    rw [hadv.count, hq']
    simp
  refine ⟨hgo.goes s' h0', s'', ?_, by rw [hadv.lastResult]; exact h0', by omega,
    by rw [hadv.maxlen, hm]⟩
  rw [hx, if_neg (by omega)]

/-- Two chunks one after the other, of which the first is not of whole sectors. -/
theorem Mover.overlap (hgo : Mover t cbw ok go dir) (h0 : ok s.lastResult) (hnil : s.log = [])
    (hlast : ¬ Last t s) (hndvd : ¬ (sectorsize t : Int) ∣ s.maxlen.toInt)
    (hrange : s.sector + s.count ≤ sectors t) {u : State}
    (h : Ends busy (fun s => xferComplete t s cbw 0) (go s) u) :
    ∃ c c' l, u.log = (c :: c' :: l).map dir ++ [.csw 0] ∧ c'.offset ≠ c.offset + c.size := by
  have hs := sectorsize_bounds (t := t)
  have hsec := sectors_lt (t := t)
  obtain ⟨hm, hlt⟩ := not_last hlast
  have hq := perChunk_nonneg (t := t) hm
  have hdiv := Int.mul_ediv_self_le (x := s.maxlen.toInt) (k := sectorsize t) (by omega)
  have hless : perChunk t s < s.count := by
    rw [← hq] at hdiv
    have : perChunk t s * sectorsize t < s.count * sectorsize t := by
      rw [Nat.mul_comm]
      zify
      push_cast at hlt
      omega
    exact Nat.lt_of_mul_lt_mul_right this
  have hsize := chunk_size_lt hm hlt (by omega)
  obtain ⟨s', hadv, hx⟩ := hgo.next s h0
  have hcount : s'.count ≠ 0 := by
    rw [hadv.count]
    omega
  rw [if_neg hcount] at hx
  have h0' : ok s'.lastResult := by rw [hadv.lastResult]; exact h0
  have hends' : Ends busy (fun s => xferComplete t s cbw 0) (go s') u := by
    cases h with
    | done hend => rw [hgo.goes s h0] at hend; cases hend
    | turn _ h => rw [hx] at h; exact h
  have hlog' : s'.log = [chunk t s].map dir := by
    rw [hadv.log, hnil]
    rfl
  obtain ⟨l, hl⟩ := hgo.log_next h0' hlog' hends'
  refine ⟨chunk t s, chunk t s', l, hl, ?_⟩
  intro heq
  have hsector : s'.sector = s.sector + perChunk t s := by
    rw [hadv.sector, u32]
    omega
  have hoffset : (s.sector + perChunk t s) * sectorsize t =
      s.sector * sectorsize t + (chunk t s).size := by
    rw [← hsector]
    exact heq
  rw [Nat.add_mul] at hoffset
  apply hndvd
  refine ⟨perChunk t s, ?_⟩
  rw [← hsize, mul_comm]
  exact_mod_cast (Nat.add_left_cancel hoffset).symm

/-! ### The whole command -/

/-- No first chunk is moved, or the chunks do not tile the sectors, unless they divide them. -/
theorem Mover.suits (hgo : Mover t cbw ok go dir) (h0 : ok s.lastResult) (hnil : s.log = [])
    (hrange : s.sector + s.count ≤ sectors t) (hdir : Function.Injective dir) (h : Transferred t cbw go dir s) :
    Suits t s.count s.maxlen.toInt := by
  have hs := sectorsize_bounds (t := t)
  obtain ⟨u, l, hends, hlog, htiles⟩ := h
  by_contra hsuit
  unfold Suits at hsuit
  push Not at hsuit
  obtain ⟨hcount, hfit, hneg, hdvd⟩ := hsuit
  by_cases hq : perChunk t s = 0
  · exact hgo.stuck h0 hq hcount ⟨u, hends⟩
  have hm : (sectorsize t : Int) ≤ s.maxlen.toInt := by
    by_contra hlt
    exact hq (perChunk_zero (by omega) (by omega))
  have hlast : ¬ Last t s := by
    unfold Last
    omega
  obtain ⟨c, c', l', hl', hoff⟩ := hgo.overlap h0 hnil hlast (hdvd (by omega)) hrange hends
  rw [hlog, hnil, List.nil_append, List.append_cancel_right_eq] at hl'
  rw [List.map_injective_iff.2 hdir hl'] at htiles
  obtain ⟨h1, h2, _⟩ := htiles
  omega

/-- A command that the checks let through, with nothing started yet. -/
theorem Mover.moved_iff (hgo : Mover t cbw ok go dir) (hdir : Function.Injective dir)
    (hcsw : ∀ c, dir c ≠ .csw 1) (h0 : ok s.lastResult) (hnil : s.log = [])
    (hsector : s.sector = cbw.lba) (hcount : s.count = cbw.blocks) :
    (∃ u, Ends busy (fun s => xferComplete t s cbw 0) (go s) u ∧
      (Failed u.log ∨ Moved t cbw dir u.log)) ↔
      cbw.lba + cbw.blocks ≤ sectors t ∧ Suits t cbw.blocks s.maxlen.toInt := by
  constructor
  · rintro ⟨u, hends, hfail | ⟨hrange, l, htiles, hlog⟩⟩
    · have hpre : s.log = ([] : List Chunk).map dir := hnil
      obtain ⟨l, hl⟩ := hgo.log h0 hpre hends
      rw [Failed, hl] at hfail
      simp only [List.mem_append, List.mem_map, List.mem_singleton] at hfail
      obtain ⟨c, _, hc⟩ | hc := hfail
      · exact absurd hc (hcsw c)
      · cases hc
    · rw [← hsector, ← hcount] at hrange htiles
      have hdone : Transferred t cbw go dir s := ⟨u, l, hends, by rw [hlog, hnil]; rfl, htiles⟩
      rw [← hsector, ← hcount]
      exact ⟨hrange, hgo.suits h0 hnil hrange hdir hdone⟩
  · rintro ⟨hrange, hsuit⟩
    rw [← hsector, ← hcount] at hrange
    rw [← hcount] at hsuit
    obtain ⟨u, l, hends, hlog, htiles⟩ := hgo.transferred s.count (Nat.le_refl _) h0 hrange hsuit
    refine ⟨u, hends, .inr ⟨by rw [← hsector, ← hcount]; exact hrange, l, ?_, ?_⟩⟩
    · rw [← hsector, ← hcount]
      exact htiles
    · rw [hlog, hnil]
      rfl

/-- A command that is answered with an error at once. -/
theorem failed_of_fails {key asc : UInt8} : ∃ u, Ends busy (fun s => xferComplete t s cbw 0)
    (fails s key asc) u ∧ Failed u.log := by
  refine ⟨_, .done rfl, ?_⟩
  unfold Failed fails sendCsw start
  simp

/-- Or behind an empty packet. -/
theorem failed_of_notPresent : ∃ u, Ends busy (fun s => xferComplete t s cbw 0)
    (mediumNotPresent s) u ∧ Failed u.log := by
  refine ⟨_, .turn rfl (.done rfl), ?_⟩
  unfold Failed xferComplete mediumNotPresent sendCommandFailedResult sendCsw start
  simp

/-- The checks before the first block; `P` says when the blocks are moved then. -/
theorem transferBlocks_iff {P : Prop}
    (hgo : (∃ u, Ends busy (fun s => xferComplete t s cbw 0)
      (go { s with sector := cbw.lba, count := cbw.blocks }) u ∧
      (Failed u.log ∨ Moved t cbw dir u.log)) ↔ P) :
    (∃ u, Ends busy (fun s => xferComplete t s cbw 0) (transferBlocks t s cbw go) u ∧
      (Failed u.log ∨ Moved t cbw dir u.log)) ↔
      s.ejected = true ∨ sectors t < u32 (cbw.lba + cbw.blocks) ∨ P := by
  unfold transferBlocks
  split
  · rename_i hej
    obtain ⟨u, hends, hfail⟩ := @failed_of_notPresent t s cbw
    exact ⟨fun _ => .inl hej, fun _ => ⟨u, hends, .inl hfail⟩⟩
  · rename_i hej
    dsimp only
    split
    · rename_i hlt
      obtain ⟨u, hends, hfail⟩ := @failed_of_fails t
        { s with sector := cbw.lba, count := cbw.blocks } cbw 0x05 0x21
      exact ⟨fun _ => .inr (.inl hlt), fun _ => ⟨u, hends, .inl hfail⟩⟩
    · rename_i hle
      rw [hgo]
      simp [hej, hle]

theorem read_iff (hnil : s.log = []) :
    (∃ u, Ends busy (fun s => xferComplete t s cbw 0)
      (sendAndReadNext t { s with sector := cbw.lba, count := cbw.blocks }) u ∧
      (Failed u.log ∨ Moved t cbw .send u.log)) ↔
      s.lastResult ≠ 0 ∨
        (cbw.lba + cbw.blocks ≤ sectors t ∧ Suits t cbw.blocks s.maxlen.toInt) := by
  by_cases h0 : s.lastResult = 0
  · have hserved := @Mover.moved_iff t { s with sector := cbw.lba, count := cbw.blocks } cbw _
      (sendAndReadNext t) .send sends (fun _ _ h => Event.send.inj h) (fun _ h => by cases h)
      h0 hnil rfl rfl
    rw [hserved]
    simp [h0]
  · have hgo : sendAndReadNext t { s with sector := cbw.lba, count := cbw.blocks } =
        fails { s with sector := cbw.lba, count := cbw.blocks } 0x03 0x11 := if_pos h0
    obtain ⟨u, hends, hfail⟩ := @failed_of_fails t
      { s with sector := cbw.lba, count := cbw.blocks } cbw 0x03 0x11
    rw [hgo]
    exact ⟨fun _ => .inl h0, fun _ => ⟨u, hends, .inl hfail⟩⟩

theorem write_iff (hnil : s.log = []) :
    (∃ u, Ends busy (fun s => xferComplete t s cbw 0)
      (receiveBlockData t { s with sector := cbw.lba, count := cbw.blocks }) u ∧
      (Failed u.log ∨ Moved t cbw .receive u.log)) ↔
      cbw.lba + cbw.blocks ≤ sectors t ∧ Suits t cbw.blocks s.maxlen.toInt :=
  @Mover.moved_iff t { s with sector := cbw.lba, count := cbw.blocks } cbw _
    (receiveBlockData t) .receive receives (fun _ _ h => Event.receive.inj h)
    (fun _ h => by cases h) trivial hnil rfl rfl

theorem served_read_iff (hsig : cbw.signature = 0x43425355) (hop : cbw.opcode = .read10) :
    Served t s cbw ↔ s.ejected = true ∨ sectors t < u32 (cbw.lba + cbw.blocks) ∨
      s.lastResult ≠ 0 ∨
      (cbw.lba + cbw.blocks ≤ sectors t ∧ Suits t cbw.blocks s.maxlen.toInt) := by
  have hnil : { s with log := [] }.log = [] := rfl
  have hdir : direction cbw = .send := if_pos hop
  unfold Served handleScsi
  rw [if_neg (not_not.2 hsig), hdir, hop]
  simpa using transferBlocks_iff (read_iff hnil)

theorem served_write_iff (hsig : cbw.signature = 0x43425355) (hop : cbw.opcode = .write10) :
    Served t s cbw ↔ s.ejected = true ∨ sectors t < u32 (cbw.lba + cbw.blocks) ∨
      (cbw.lba + cbw.blocks ≤ sectors t ∧ Suits t cbw.blocks s.maxlen.toInt) := by
  have hnil : { s with log := [] }.log = [] := rfl
  have hdir : direction cbw = .receive := if_neg (by rw [hop]; decide)
  unfold Served handleScsi
  rw [if_neg (not_not.2 hsig), hdir, hop]
  simpa using transferBlocks_iff (write_iff hnil)

theorem served_iff (hsig : cbw.signature = 0x43425355)
    (hop : cbw.opcode = .read10 ∨ cbw.opcode = .write10) :
    Served t s cbw ↔ s.ejected = true ∨ sectors t < u32 (cbw.lba + cbw.blocks) ∨
      (cbw.opcode = .read10 ∧ s.lastResult ≠ 0) ∨
      (cbw.lba + cbw.blocks ≤ sectors t ∧ Suits t cbw.blocks s.maxlen.toInt) := by
  obtain h | h := hop
  · rw [served_read_iff hsig h]
    simp [h]
  · rw [served_write_iff hsig h]
    simp [h]

instance (t : Target) (blocks : Nat) (maxlen : Int) : Decidable (Suits t blocks maxlen) := by
  unfold Suits
  infer_instance

def State.init : State :=
  ⟨.waitingForCommand, 0, 0, 0, {}, 512, 0, 0, false, false, []⟩

/-- On a high-speed bus, with `synopsysotg_get_max_transfer_size`. -/
def State.highspeed : State := setAltsetting (busReset .init true) 1023 1023

def commandWrapper (block : List UInt8) : CommandBlockWrapper :=
  ⟨0x43425355, 0, 0, 0, fun i => block.getD i 0⟩

/-- WRITE(10) of the first 100 sectors. -/
theorem served_write : Served .ipodnano2g .highspeed
    (commandWrapper [0x2a, 0, 0, 0, 0, 0, 0, 0, 100]) :=
  (served_iff rfl (.inr rfl)).2 (by decide)

/-- READ(10) of the sector 0xffffffff and of the first 256 sectors: the one leaves the RAM disk,
the other is moved in chunks of 255.75 sectors. -/
theorem reads_not_served :
    ¬ Served .ipodnano2g .highspeed (commandWrapper [0x28, 0, 0xff, 0xff, 0xff, 0xff, 0, 0, 1]) ∧
    ¬ Served .ipodnano2g .highspeed (commandWrapper [0x28, 0, 0, 0, 0, 0, 0, 1, 0]) := by
  constructor
  · rw [served_read_iff rfl rfl]
    decide
  · rw [served_read_iff rfl rfl]
    decide

end Ramdisk
end Umsboot
end Freemyipod
