import Freemyipod.Ums.Conformance
import Freemyipod.Ums.Store

/-!
# Ums.ReadBack

What a READ(10) sends. `Host` is the host's own account of the medium: its original content under
the blocks of the WRITE(10) commands whose data phase is complete. `Undisturbed` excludes the steps
in which disk mode loses a block or keeps sectors in the read cache that a block has replaced; over
every run of other steps, what is sent is what the host expects (`sends_latest`).
-/

namespace Freemyipod
namespace Ums

variable {D : Type}

/-! ## What the host expects -/

structure Host (D : Type) where
  /-- the original content under every completed WRITE(10) -/
  content : Nat → D
  /-- `content` when the last command was received -/
  asked : Nat → D
  /-- `content` under the blocks that the last command has brought so far -/
  incoming : Nat → D
  /-- the next sector of the last command, and how many are left -/
  next : Nat
  left : Nat

namespace Host

variable (dev : StorageInfo) (h : Host D)

def step : Signal D → Host D
  | .command cbw =>
    { h with asked := h.content, incoming := h.content, next := cbw.lba, left := cbw.blocks }
  | .sent size _ =>
    let n := size / dev.sectorSize
    { h with next := h.next + n, left := h.left - n }
  | .received size missing d =>
    let n := (size - missing) / dev.sectorSize
    let incoming := overlay h.next n d h.incoming
    { h with
      incoming
      next := h.next + n
      left := h.left - n
      content := if h.left - n = 0 then incoming else h.content }
  | _ => h

def run (l : List (Signal D)) : Host D := l.foldl (step dev) h

theorem run_concat (l : List (Signal D)) (o : Signal D) :
    run dev h (l ++ [o]) = (run dev h l).step dev o := by
  simp [run]

/-- Before the first command. -/
def initial (medium : Nat → D) : Host D := ⟨medium, medium, medium, 0, 0⟩

end Host

variable (dev : StorageInfo)

/-- The sectors that are being sent are those that the host has asked for. -/
def Truthful (h : Host D) (s : State D) : Prop :=
  ∀ i offset size, s.tx = some (.blocks i offset size) →
    dev.sectorSize ∣ size ∧
      ∀ j < size / dev.sectorSize, s.readBuf i (offset + j) = h.asked (h.next + j)

/-- Commands are READ(10) and WRITE(10) of sectors of the device; no more bytes are missing from a
transfer than it has. -/
def Transfers (s : State D) : Event D → Prop
  | .command cbw _ => cbw.signature = 0x43425355 ∧
      (cbw.opcode = .read10 ∨ cbw.opcode = .write10) ∧ cbw.lba + cbw.blocks ≤ dev.numSectors
  | .data _ left => ∀ i size, s.rx = some (.blocks i size) → left ≤ size
  | _ => True

/-- What is left in flight or cached does not get in the way of the step. -/
def Undisturbed (s : State D) : Event D → Prop
  | .data _ left => s.state = .receivingBlocks → left = 0 →
      let n := s.length / dev.sectorSize
      (s.writeBusy = true → s.worker = .write ∨ s.worker = .writing) ∧
      (∀ i, 0 < s.readCount i → Apart (s.readSector i) (s.readCount i).toNat s.curCmd.sector n) ∧
      (∀ c k m, s.worker = .reading c k m → Apart k m s.curCmd.sector n)
  | .work o =>
      (s.worker = .writing → o.ok = true) ∧
      (∀ c k m, s.worker = .reading c k m → o.ok = false → k ≠ 0) ∧
      (s.worker = .cache → s.readCount s.readCurrent = 0 →
        let k := s.readSector s.readCurrent
        let m := min dev.bufsize (dev.numSectors - k)
        (s.writeBusy = true → Apart k m s.writeSector s.writeCount) ∧
        (s.writeOverrun = true → Apart k m s.curCmd.sector (s.length / dev.sectorSize)))
  | _ => True

/-! ## The invariant -/

/-- What a READ(10) still has to send. -/
structure Sends (h : Host D) (c : CurCmd) (next : Nat) : Prop where
  asked : h.asked = h.incoming
  content : h.incoming = h.content
  sector_eq : c.sector = next
  in_range : c.sector + c.count ≤ dev.numSectors
  count_lt : c.count < 65536

/-- What a WRITE(10) still has to receive, from `next` on; `n` sectors of it have just come. -/
structure Receives (h : Host D) (c : CurCmd) (length n : Nat) : Prop where
  next_eq : h.next = c.sector + n
  left_eq : h.left + n = c.count
  in_range : c.sector + c.count ≤ dev.numSectors
  count_lt : c.count < 65536
  count_pos : 0 < c.count
  length_eq : length = min umsBufsize (c.count * dev.sectorSize)

/-- Where a READ(10) or WRITE(10) is. -/
inductive Serves (h : Host D) (s : State D) : Prop
  | listening : Idle s → s.state = .waitingForCommand → s.tx = none → s.rx = some .cbw →
      h.incoming = h.content → s.store.settled = h.incoming → Serves h s
  | status {tag : UInt32} {residue st : Nat} : Idle s → s.state = .waitingForCswCompletion →
      s.tx = some (.csw tag residue st) → s.rx = none → h.incoming = h.content →
      s.store.settled = h.incoming → Serves h s
  | sending {i : Bool} {offset n : Nat} : Idle s → s.state = .sendingBlocks →
      s.tx = some (.blocks i offset (n * dev.sectorSize)) → s.rx = none → 0 < n →
      ((offset + n : Nat) : Int) ≤ s.readCount i → s.readSector i + offset = h.next →
      Sends dev h s.curCmd (h.next + n) → s.store.settled = h.incoming → Serves h s
  | blocked : s.readBlocked = true → s.writeOverrun = false → s.satPending = .none →
      (∀ p, s.worker ≠ .ata p) → s.tx = none → s.rx = none → 0 < s.curCmd.count →
      Sends dev h s.curCmd h.next → s.store.settled = h.incoming → Serves h s
  | receiving {size : Nat} : Idle s → s.state = .receivingBlocks → s.tx = none →
      s.rx = some (.blocks (!s.writeCurrent) size) → s.length = size →
      Receives dev h s.curCmd s.length 0 → s.store.settled = h.incoming → Serves h s
  | overrun : s.readBlocked = false → s.writeOverrun = true → s.satPending = .none →
      (∀ p, s.worker ≠ .ata p) → s.tx = none → s.rx = none →
      (s.writeBusy = true → s.worker = .write ∨ s.worker = .writing) →
      Receives dev h s.curCmd s.length (s.length / dev.sectorSize) →
      (h.left = 0 → h.incoming = h.content) →
      overlay s.curCmd.sector (s.length / dev.sectorSize) (s.writeBuf (!s.writeCurrent))
        s.store.settled = h.incoming → Serves h s

/-- A transfer was refused or incomplete: nothing happens any more. -/
structure Stuck (s : State D) : Prop where
  idle : Idle s
  tx : s.tx = none
  rx : s.rx = none

/-- In every state reached: the cache agrees with what the host has sent, and the command in
progress is where the host takes it to be. -/
def Served (h : Host D) (s : State D) : Prop :=
  Stuck s ∨ (Coherent dev h.incoming s.store ∧ Serves dev h s)

variable {dev} {h : Host D} {s t : State D}

theorem Served.truthful (hs : Served dev h s) : Truthful dev h s := by
  intro i offset size htx
  rcases hs with hs | ⟨hc, hs⟩
  · exact absurd htx (by simp [hs.tx])
  · cases hs with
    | listening _ _ h => exact absurd htx (by simp [h])
    | status _ _ h => exact absurd htx (by simp [h])
    | blocked _ _ _ _ h => exact absurd htx (by simp [h])
    | receiving _ _ h => exact absurd htx (by simp [h])
    | overrun _ _ _ _ h => exact absurd htx (by simp [h])
    | @sending i' offset' n _ _ h _ _ hle hsec hsends _ =>
      rw [h] at htx
      cases htx
      refine ⟨Nat.dvd_mul_left _ _, fun j hj => ?_⟩
      rw [Nat.mul_div_cancel _ dev.sectorSize_pos] at hj
      have hlt : ((offset + j : Nat) : Int) < s.readCount i := by omega
      rw [hsends.asked, ← hsec, Nat.add_assoc]
      exact hc.cached i (offset + j) hlt

/-! ## Sending -/

/-- The command ends with a status. -/
theorem sendCsw_served (hc : Coherent dev h.incoming s.store) (hi : Idle s) (hrx : s.rx = none)
    (hcon : h.incoming = h.content) (hset : s.store.settled = h.incoming) (st : Nat) :
    Served dev h (sendCsw s st) :=
  Or.inr ⟨hc, .status (hi.congr rfl rfl rfl rfl) rfl rfl hrx hcon hset⟩

theorem sendCommandFailedResult_served (hc : Coherent dev h.incoming s.store) (hi : Idle s)
    (hrx : s.rx = none) (hcon : h.incoming = h.content) (hset : s.store.settled = h.incoming)
    (key asc ascq : UInt8) : Served dev h (sendCommandFailedResult s key asc ascq) :=
  Or.inr ⟨hc, .status (hi.congr rfl rfl rfl rfl) rfl rfl hrx hcon hset⟩

theorem prefetch_coherent {v : Nat → D} (hc : Coherent dev v s.store) (i : Bool) {overlap : Nat}
    (hov : s.curCmd.sector + overlap ≤ readTop s i) :
    Coherent dev v (prefetch dev s i overlap).store := by
  simp only [prefetch]
  split
  · rename_i hpre
    have hn := dev.num_lt
    have hu : u32 (s.curCmd.sector + overlap) = s.curCmd.sector + overlap := by
      simp only [u32]
      omega
    rw [hu]
    exact hc.assign (!i) (k := max (readTop s i) (s.curCmd.sector + overlap)) (by omega)
  · exact hc

/-- What `prefetch` leaves alone, that of the buffer in use included. -/
theorem prefetch_same (dev : StorageInfo) (s : State D) (i : Bool) (overlap : Nat) :
    let t := prefetch dev s i overlap
    t.curCmd = s.curCmd ∧ t.tx = s.tx ∧ t.rx = s.rx ∧ t.store.settled = s.store.settled ∧
      t.readBlocked = s.readBlocked ∧ t.writeOverrun = s.writeOverrun ∧
      t.satPending = s.satPending ∧ t.worker = s.worker ∧ t.readSector i = s.readSector i ∧
      t.readCount i = s.readCount i := by
  have hne : i ≠ !i := by cases i <;> decide
  simp only [prefetch]
  split
  · exact ⟨rfl, rfl, rfl, rfl, rfl, rfl, rfl, rfl, Function.update_of_ne hne _ _,
      Function.update_of_ne hne _ _⟩
  · exact ⟨rfl, rfl, rfl, rfl, rfl, rfl, rfl, rfl, rfl, rfl⟩

theorem sendFrom_served (hc : Coherent dev h.incoming s.store) (hi : Idle s) (htx : s.tx = none)
    (hrx : s.rx = none) (hpos : 0 < s.curCmd.count) (hsend : Sends dev h s.curCmd h.next)
    (hset : s.store.settled = h.incoming) {i : Bool} (hhit : readHit dev s i = true) :
    Served dev h (sendFrom dev s i) := by
  rw [sendFrom]
  split
  · exact Or.inr ⟨hc, .blocked rfl hi.writeOverrun hi.satPending hi.worker htx hrx hpos hsend hset⟩
  · rename_i htop
    have htop' : (readTop s i : Int) = s.readSector i + s.readCount i :=
      hc.cache.top_eq (hc.marked i)
    have hle : s.readSector i ≤ s.curCmd.sector := by
      rw [readHit, Bool.and_eq_true, decide_eq_true_eq] at hhit
      exact hhit.1
    have hrange := hsend.in_range
    have hn := dev.num_lt
    generalize hov : min (readTop s i - s.curCmd.sector) s.curCmd.count = n
    have hbytes := dev.bytes_lt (n := n) (by have := hsend.count_lt; omega)
    have hu : u32 (n * dev.sectorSize) = n * dev.sectorSize := by
      have := u32_of_lt (n := n * dev.sectorSize) (by omega)
      exact_mod_cast this
    have husec : u32 (s.curCmd.sector + n) = s.curCmd.sector + n := by
      simp only [u32]
      omega
    simp only [hu]
    obtain ⟨h1, h2, h3, h4, h5, h6, h7, h8, h9, h10⟩ :=
      prefetch_same dev s i n
    have hc' := prefetch_coherent hc i (show s.curCmd.sector + n ≤ readTop s i by omega)
    generalize prefetch dev s i n = t at *
    have hi' : Idle t := ⟨h5.trans hi.readBlocked, h6.trans hi.writeOverrun,
      h7.trans hi.satPending, fun p => h8 ▸ hi.worker p⟩
    simp only [sendBlockData]
    split
    · exact Or.inl ⟨hi'.congr rfl rfl rfl rfl, h2.trans htx, h3.trans hrx⟩
    · split
      · exact Or.inl ⟨hi'.congr rfl rfl rfl rfl, h2.trans htx, h3.trans hrx⟩
      · refine Or.inr ⟨hc', .sending (hi'.congr rfl rfl rfl rfl) rfl rfl (h3.trans hrx) (by omega)
          ?_ ?_ ⟨hsend.asked, hsend.content, ?_, ?_, ?_⟩ (h4.trans hset)⟩
        · show _ ≤ t.readCount i
          omega
        · show t.readSector i + _ = _
          have := hsend.sector_eq
          omega
        · have := hsend.sector_eq
          simp only [advance, takeBytes, h1, husec]
          omega
        · simp only [advance, takeBytes, h1, husec]
          omega
        · have := hsend.count_lt
          simp only [advance, takeBytes, h1]
          omega

theorem sendAndReadNext_served (hc : Coherent dev h.incoming s.store) (hi : Idle s)
    (htx : s.tx = none) (hrx : s.rx = none) (hpos : 0 < s.curCmd.count)
    (hsend : Sends dev h s.curCmd h.next) (hset : s.store.settled = h.incoming) :
    Served dev h (sendAndReadNext dev s) := by
  rw [sendAndReadNext]
  split
  · rename_i hhit
    exact sendFrom_served hc hi htx hrx hpos hsend hset hhit
  · split
    · rename_i hhit
      exact sendFrom_served hc hi htx hrx hpos hsend hset hhit
    · have hlt : s.curCmd.sector < dev.numSectors := by
        have := hsend.in_range
        omega
      exact Or.inr ⟨hc.assign (!s.readCurrent) hlt, .blocked rfl hi.writeOverrun hi.satPending
        hi.worker htx hrx hpos hsend hset⟩

/-- Neither another wakeup nor the loss of the reply registers matters. -/
theorem Served.update {w r : Bool} (hs : Served dev h s) :
    Served dev h { s with wakeup := w, haveSatResponse := r } := by
  rcases hs with hs | ⟨hc, hs⟩
  · exact Or.inl ⟨hs.idle.congr rfl rfl rfl rfl, hs.tx, hs.rx⟩
  · refine Or.inr ⟨hc, ?_⟩
    cases hs with
    | listening hi h1 h2 h3 h4 h5 => exact .listening (hi.congr rfl rfl rfl rfl) h1 h2 h3 h4 h5
    | status hi h1 h2 h3 h4 h5 => exact .status (hi.congr rfl rfl rfl rfl) h1 h2 h3 h4 h5
    | sending hi h1 h2 h3 h4 h5 h6 h7 h8 =>
      exact .sending (hi.congr rfl rfl rfl rfl) h1 h2 h3 h4 h5 h6 h7 h8
    | blocked h1 h2 h3 h4 h5 h6 h7 h8 h9 => exact .blocked h1 h2 h3 h4 h5 h6 h7 h8 h9
    | receiving hi h1 h2 h3 h4 h5 h6 => exact .receiving (hi.congr rfl rfl rfl rfl) h1 h2 h3 h4 h5 h6
    | overrun h1 h2 h3 h4 h5 h6 h7 h8 h9 h10 => exact .overrun h1 h2 h3 h4 h5 h6 h7 h8 h9 h10

/-! ## Receiving -/

theorem receiveNext_served (hc : Coherent dev h.incoming s.store) (hi : Idle s) (htx : s.tx = none)
    (hrx : s.rx = none) (hset : s.store.settled = h.incoming) (hnext : h.next = s.curCmd.sector)
    (hleft : h.left = s.curCmd.count) (hrange : s.curCmd.sector + s.curCmd.count ≤ dev.numSectors)
    (hlt : s.curCmd.count < 65536) (hpos : 0 < s.curCmd.count) :
    Served dev h (receiveNext dev s) := by
  simp only [receiveNext, receiveBlockData]
  split
  · exact Or.inl ⟨hi.congr rfl rfl rfl rfl, htx, hrx⟩
  · split
    · exact Or.inl ⟨hi.congr rfl rfl rfl rfl, htx, hrx⟩
    · exact Or.inr ⟨hc, .receiving (hi.congr rfl rfl rfl rfl) rfl htx rfl rfl
        ⟨hnext, hleft, hrange, hlt, hpos, rfl⟩ hset⟩

/-- The block that has arrived is handed to the worker, and the next one is asked for. -/
theorem writebufPush_served (hc : Coherent dev h.incoming s.store) (hi : Idle s) (htx : s.tx = none)
    (hrx : s.rx = none) (hbusy : s.writeBusy = false)
    (hr : Receives dev h s.curCmd s.length (s.length / dev.sectorSize))
    (hcon : h.left = 0 → h.incoming = h.content)
    (hset : overlay s.curCmd.sector (s.length / dev.sectorSize) (s.writeBuf (!s.writeCurrent))
      s.store.settled = h.incoming) : Served dev h (writebufPush dev s) := by
  have hn := dev.num_lt
  have h64 := dev.bufsize_le
  have hnext := hr.next_eq
  have hleft := hr.left_eq
  have hrange := hr.in_range
  have hlt := hr.count_lt
  have hmin : s.length / dev.sectorSize = min dev.bufsize s.curCmd.count := by
    rw [hr.length_eq, dev.min_bytes_div]
  have hst := hc.takeBlock s.curCmd.sector (s.length / dev.sectorSize) hbusy
  have hmod : s.length / dev.sectorSize % 256 = s.length / dev.sectorSize := by omega
  have hcount : (takeBlock dev s).curCmd.count = s.curCmd.count - s.length / dev.sectorSize := by
    simp only [takeBlock, u32]
    omega
  have hsector : (takeBlock dev s).curCmd.sector =
      s.curCmd.sector + s.length / dev.sectorSize := by
    simp only [takeBlock, u32]
    omega
  have hstore : (takeBlock dev s).store = { s.store with
      writeCurrent := !s.store.writeCurrent, writeSector := s.curCmd.sector
      writeCount := s.length / dev.sectorSize, writeBusy := true } := by
    simp only [takeBlock, State.store, hmod]
  rw [← hstore] at hst
  have hi' : Idle (takeBlock dev s) := hi.congr rfl rfl rfl rfl
  have hset' : (takeBlock dev s).store.settled = h.incoming := hst.2.trans hset
  simp only [writebufPush]
  split
  · rename_i hdone
    have hcon' := hcon (by omega)
    split
    · exact sendCommandFailedResult_served hst.1 hi' hrx hcon' hset' _ _ _
    · exact sendCsw_served (s := { takeBlock dev s with writeRc := false }) hst.1
        (hi'.congr rfl rfl rfl rfl) hrx hcon' hset' 0
  · exact receiveNext_served hst.1 hi' htx hrx hset' (by omega) (by omega) (by omega) (by omega)
      (by omega)

/-- A block has arrived in the write buffer that the worker does not use. -/
theorem blockReceived_served {d : Nat → D} {n : Nat} (hc : Coherent dev h.incoming s.store)
    (hi : Idle s) (htx : s.tx = none) (hrx : s.rx = none) (hset : s.store.settled = h.incoming)
    (hr : Receives dev h s.curCmd s.length 0) (hn : n = s.length / dev.sectorSize)
    (hdata : ∀ j < n, s.writeBuf (!s.writeCurrent) j = d j)
    (hbusy : s.writeBusy = true → s.worker = .write ∨ s.worker = .writing)
    (hcached : ∀ i, 0 < s.readCount i →
      Apart (s.readSector i) (s.readCount i).toNat s.curCmd.sector n)
    (hreading : ∀ c k m, s.worker = .reading c k m → Apart k m s.curCmd.sector n) :
    Served dev (h.step dev (.received s.length 0 d)) (blockReceived dev s) := by
  have hge := dev.bufsize_ge
  have hpos := hr.count_pos
  have hrange := hr.in_range
  have hmin : n = min dev.bufsize s.curCmd.count := by
    rw [hn, hr.length_eq, dev.min_bytes_div]
  have hpatch : ∀ i, patch dev s i = s := fun i =>
    patch_eq hc.cache (hn ▸ by omega) (hn ▸ by omega) (hn ▸ by omega) (hc.marked i)
      (hn ▸ hcached i)
  have hupd : updateReadcache dev s = s := by rw [updateReadcache, hpatch, hpatch]
  have hfull : ¬ (s.length ≠ dev.sectorSize * s.curCmd.count ∧ s.length ≠ umsBufsize) := by
    rw [hr.length_eq, Nat.mul_comm dev.sectorSize]
    omega
  generalize hh : h.step dev (.received s.length 0 d) = h'
  have hinc : h'.incoming = overlay s.curCmd.sector n d h.incoming := by
    rw [← hh, hn, ← Nat.add_zero s.curCmd.sector, ← hr.next_eq]
    rfl
  have hleft : h'.left = h.left - n := by
    rw [← hh, hn]
    rfl
  have hcon : h'.left = 0 → h'.incoming = h'.content := by
    intro hz
    rw [← hh] at hz ⊢
    exact (if_pos hz).symm
  have hr' : Receives dev h' s.curCmd s.length (s.length / dev.sectorSize) := by
    have h1 := hr.next_eq
    have h2 := hr.left_eq
    refine ⟨?_, ?_, hrange, hr.count_lt, hpos, hr.length_eq⟩
    · have : h'.next = h.next + n := by
        rw [← hh, hn]
        rfl
      omega
    · omega
  have hc' : Coherent dev h'.incoming s.store := by
    rw [hinc]
    exact hc.arrive hcached hreading
  have hset' : overlay s.curCmd.sector (s.length / dev.sectorSize) (s.writeBuf (!s.writeCurrent))
      s.store.settled = h'.incoming := by
    rw [← hn, hset, hinc]
    exact overlay_congr hdata
  rw [blockReceived, if_neg hfull, hupd]
  simp only
  split
  · exact Or.inl ⟨hi, htx, hrx⟩
  · split
    · exact Served.update (Or.inr ⟨hc', .overrun hi.readBlocked rfl hi.satPending hi.worker htx hrx
        hbusy hr' hcon hset'⟩)
    · rename_i hb
      exact (writebufPush_served hc' hi htx hrx (by simpa using hb) hr' hcon hset').update

/-! ## Steps -/

/-- A READ(10) or WRITE(10) has arrived. -/
theorem handleScsi_served {cbw : CommandBlockWrapper} (hc : Coherent dev h.content s.store)
    (hi : Idle s) (htx : s.tx = none) (hrx : s.rx = none) (hset : s.store.settled = h.content)
    (hcbw : cbw.signature = 0x43425355 ∧ (cbw.opcode = .read10 ∨ cbw.opcode = .write10) ∧
      cbw.lba + cbw.blocks ≤ dev.numSectors) :
    Served dev (h.step dev (.command cbw)) (handleScsi dev s cbw) := by
  obtain ⟨hsig, hop, hrange⟩ := hcbw
  have hn := dev.num_lt
  have hlt := cbw.blocks_lt
  generalize hh : h.step dev (.command cbw) = h'
  have h1 : h'.incoming = h'.content := by rw [← hh]; rfl
  have h2 : h'.asked = h'.incoming := by rw [← hh]; rfl
  have h3 : h'.next = cbw.lba := by rw [← hh]; rfl
  have h4 : h'.left = cbw.blocks := by rw [← hh]; rfl
  have h5 : h'.incoming = h.content := by rw [← hh]; rfl
  have hc' : Coherent dev h'.incoming s.store := by rw [h5]; exact hc
  have hset' : s.store.settled = h'.incoming := hset.trans h5.symm
  have htransfer : ∀ start : State D → State D,
      (∀ t : State D, t.store = s.store → Idle t → t.tx = none → t.rx = none →
        t.curCmd.sector = cbw.lba → t.curCmd.count = cbw.blocks → 0 < t.curCmd.count →
        Served dev h' (start t)) → Served dev h' (transferBlocks dev (accept s cbw) cbw start) := by
    intro start hstart
    have hi' := hi.congr (t := accept s cbw) rfl rfl rfl rfl
    simp only [transferBlocks, mediumNotPresent]
    split
    · refine sendCommandFailedResult_served ?_ hi' ?_ h1 ?_ _ _ _
      exacts [hc', hrx, hset']
    · split
      · refine sendCommandFailedResult_served ?_ ?_ ?_ h1 ?_ _ _ _
        exacts [hc', hi.congr rfl rfl rfl rfl, hrx, hset']
      · split
        · refine sendCsw_served ?_ ?_ ?_ h1 ?_ 0
          exacts [hc', hi.congr rfl rfl rfl rfl, hrx, hset']
        · rename_i hne
          exact hstart _ rfl (hi.congr rfl rfl rfl rfl) htx hrx rfl rfl (Nat.pos_of_ne_zero hne)
  rw [handleScsi, if_neg (not_not_intro hsig), execute]
  rcases hop with hop | hop
  · simp only [hop]
    refine (htransfer _ fun t hs hi' htx' hrx' hsec hcnt hpos => ?_).update
    refine sendAndReadNext_served (by rw [hs]; exact hc') hi' htx' hrx' hpos ⟨h2, h1, ?_, ?_, ?_⟩
      (by rw [hs, hset'])
    · omega
    · omega
    · omega
  · simp only [hop]
    refine (htransfer _ fun t hs hi' htx' hrx' hsec hcnt hpos => ?_).update
    exact receiveNext_served (by rw [hs]; exact hc') hi' htx' hrx' (by rw [hs, hset']) (by omega)
      (by omega) (by omega) (by omega) hpos

/-- A transmission has completed. -/
theorem transmitted_served {tx : Tx} {left : Nat} (hs : Served dev h s) (htx : s.tx = some tx) :
    Served dev (h.step dev (tx.signal left))
      (inComplete dev { shorten s left with tx := none }) := by
  rcases hs with hs | ⟨hc, hs⟩
  · exact absurd htx (by simp [hs.tx])
  · cases hs with
    | listening _ _ h => exact absurd htx (by simp [h])
    | blocked _ _ _ _ h => exact absurd htx (by simp [h])
    | receiving _ _ h => exact absurd htx (by simp [h])
    | overrun _ _ _ _ h => exact absurd htx (by simp [h])
    | @status tag residue st hi hst heq hrx hcon hset =>
      rw [heq] at htx
      cases htx
      simp only [inComplete, shorten, hst]
      exact Or.inr ⟨hc, .listening (hi.congr rfl rfl rfl rfl) rfl rfl rfl hcon hset⟩
    | @sending i offset n hi hst heq hrx _ hle hsec hsend hset =>
      rw [heq] at htx
      cases htx
      have hdiv : n * dev.sectorSize / dev.sectorSize = n :=
        Nat.mul_div_cancel _ dev.sectorSize_pos
      generalize hh : h.step dev ((Tx.blocks i offset (n * dev.sectorSize)).signal left) = h'
      have h1 : h'.incoming = h.incoming := by rw [← hh]; rfl
      have h2 : h'.content = h.content := by rw [← hh]; rfl
      have h3 : h'.asked = h.asked := by rw [← hh]; rfl
      have h4 : h'.next = h.next + n := by
        rw [← hh]
        exact congrArg (h.next + ·) hdiv
      generalize ht : { shorten s left with tx := none } = t
      have hi' : Idle t := by
        subst ht
        exact hi.congr rfl rfl rfl rfl
      have hstore : t.store = s.store := by rw [← ht]; rfl
      have htx' : t.tx = none := by rw [← ht]
      have hrx' : t.rx = none := by rw [← ht]; exact hrx
      have hcur : t.curCmd = s.curCmd := by rw [← ht]; rfl
      have hst' : t.state = .sendingBlocks := by rw [← ht]; exact hst
      have hc' : Coherent dev h'.incoming t.store := by rw [hstore, h1]; exact hc
      have hset' : t.store.settled = h'.incoming := by rw [hstore, h1]; exact hset
      have hcon' : h'.incoming = h'.content := by rw [h1, h2]; exact hsend.content
      simp only [inComplete, hst']
      split
      · exact sendCsw_served hc' hi' hrx' hcon' hset' 0
      · rename_i hne
        refine sendAndReadNext_served hc' hi' htx' hrx' (Nat.pos_of_ne_zero hne)
          ⟨?_, hcon', ?_, ?_, ?_⟩ hset'
        · rw [h3, h1]
          exact hsend.asked
        · rw [hcur, h4]
          exact hsend.sector_eq
        · rw [hcur]
          exact hsend.in_range
        · rw [hcur]
          exact hsend.count_lt

/-- Data have been received: a block of a WRITE(10). -/
theorem receive_served {d : Nat → D} {left : Nat} {o : Signal D} (hs : Served dev h s)
    (hleft : ∀ i size, s.rx = some (.blocks i size) → left ≤ size)
    (hun : Undisturbed dev s (.data d left)) (ht : receive dev s d left = some (t, o)) :
    Served dev (h.step dev o) t := by
  rcases hs with hs | ⟨hc, hs⟩
  · simp [receive, hs.rx] at ht
  · cases hs with
    | listening _ _ _ h => simp [receive, h] at ht
    | status _ _ _ h => simp [receive, h] at ht
    | sending _ _ _ h => simp [receive, h] at ht
    | blocked _ _ _ _ _ h => simp [receive, h] at ht
    | overrun _ _ _ _ _ h => simp [receive, h] at ht
    | @receiving size hi hst htx heq hlen hr hset =>
      have hle := hleft _ _ heq
      have hmin : s.length = min umsBufsize (s.curCmd.count * dev.sectorSize) := hr.length_eq
      have hub : umsBufsize = 65536 := rfl
      simp only [receive, heq] at ht
      generalize hbuf : Function.update s.writeBuf (!s.writeCurrent) _ = buf at ht
      cases ht
      have hu : u32 ((s.length : Int) - left) = size - left := by
        simp only [u32]
        omega
      generalize hu' : { shorten s left with rx := none, writeBuf := buf } = u
      have hi' : Idle u := by
        subst hu'
        exact hi.congr rfl rfl rfl rfl
      have htx' : u.tx = none := by rw [← hu']; exact htx
      have hrx' : u.rx = none := by rw [← hu']
      have hcur : u.curCmd = s.curCmd := by rw [← hu']; rfl
      have hlen' : u.length = size - left := by rw [← hu', ← hu]; rfl
      have hout : outComplete dev u = blockReceived dev u := by
        have : u.state = .receivingBlocks := by rw [← hu']; exact hst
        rw [outComplete, this]
      rw [hout]
      by_cases hz : left = 0
      · subst hz
        obtain ⟨h1, h2, h3⟩ := hun hst rfl
        rw [Nat.sub_zero] at hlen' hbuf
        have hlen'' : u.length = s.length := hlen'.trans hlen.symm
        have hcurrent : u.writeCurrent = s.writeCurrent := by rw [← hu']; rfl
        have hbuf' : u.writeBuf = buf := by rw [← hu']
        have hsettled : u.store.settled = s.store.settled := by
          have hne : s.writeCurrent ≠ !s.writeCurrent := by cases s.writeCurrent <;> decide
          rw [← hu', ← hbuf]
          simp only [Store.settled, State.store, shorten]
          rw [Function.update_of_ne hne]
          rfl
        have hc' : Coherent dev h.incoming u.store := by
          subst hu'
          exact ⟨hc.cache, hc.marked, hc.cached, hc.reading, hc.writing⟩
        have hblock := blockReceived_served (d := d) (n := size / dev.sectorSize) hc' hi' htx' hrx'
          (hsettled.trans hset) (hcur ▸ hlen'' ▸ hr) (by rw [hlen']) ?_ ?_ ?_ ?_
        · rw [hlen'] at hblock
          exact hblock
        · intro j hj
          rw [hbuf', hcurrent, ← hbuf, Function.update_self, overlay,
            if_pos ⟨Nat.zero_le _, by omega⟩, Nat.sub_zero]
        · subst hu'
          exact h1
        · subst hu'
          rw [← hlen]
          exact h2
        · subst hu'
          rw [← hlen]
          exact h3
      · -- a short transfer is dropped
        have hshort : u.length ≠ dev.sectorSize * u.curCmd.count ∧ u.length ≠ umsBufsize := by
          rw [hlen', hcur, Nat.mul_comm dev.sectorSize]
          omega
        rw [blockReceived, if_pos hshort]
        exact Or.inl ⟨hi', htx', hrx'⟩

/-! ## The worker -/

/-- The worker is at another place; a read or write under way is not among the cases. -/
theorem Served.move {w : Worker} (hc : Coherent dev h.incoming s.store) (hs : Serves dev h s)
    (hr : ∀ c k n, w ≠ .reading c k n) (hw : w = .writing → s.writeBusy = true)
    (ha : ∀ p, w ≠ .ata p)
    (hover : s.writeOverrun = true → s.writeBusy = true → w = .write ∨ w = .writing) :
    Served dev h { s with worker := w } := by
  refine Or.inr ⟨hc.move hr hw, ?_⟩
  cases hs with
  | listening hi h1 h2 h3 h4 h5 =>
    exact .listening ⟨hi.readBlocked, hi.writeOverrun, hi.satPending, ha⟩ h1 h2 h3 h4 h5
  | status hi h1 h2 h3 h4 h5 =>
    exact .status ⟨hi.readBlocked, hi.writeOverrun, hi.satPending, ha⟩ h1 h2 h3 h4 h5
  | sending hi h1 h2 h3 h4 h5 h6 h7 h8 =>
    exact .sending ⟨hi.readBlocked, hi.writeOverrun, hi.satPending, ha⟩ h1 h2 h3 h4 h5 h6 h7 h8
  | blocked h1 h2 h3 h4 h5 h6 h7 h8 h9 => exact .blocked h1 h2 h3 ha h5 h6 h7 h8 h9
  | receiving hi h1 h2 h3 h4 h5 h6 =>
    exact .receiving ⟨hi.readBlocked, hi.writeOverrun, hi.satPending, ha⟩ h1 h2 h3 h4 h5 h6
  | overrun h1 h2 h3 h4 h5 h6 h7 h8 h9 h10 =>
    exact .overrun h1 h2 h3 ha h5 h6 (hover h2) h8 h9 h10

theorem Stuck.move (hs : Stuck s) {w : Worker} (ha : ∀ p, w ≠ .ata p) :
    Stuck { s with worker := w } :=
  ⟨⟨hs.idle.readBlocked, hs.idle.writeOverrun, hs.idle.satPending, ha⟩, hs.tx, hs.rx⟩

theorem pushOverrun_of_not (ho : s.writeOverrun = false) : pushOverrun dev s = s := by
  rw [pushOverrun, ho, if_neg Bool.false_ne_true]

theorem unblock_of_not (hb : s.readBlocked = false) : unblock dev s = s := by
  rw [unblock, hb, if_neg Bool.false_ne_true]

theorem Stuck.work {o : Outcome D} (hs : Stuck s) (ht : work dev s o = some t) : Stuck t := by
  have hp := hs.idle.satPending
  have hb := hs.idle.readBlocked
  have ho := hs.idle.writeOverrun
  cases hw : s.worker with
  | waiting =>
    simp only [Ums.work, hw] at ht
    split at ht
    · cases ht
      rw [pushOverrun_of_not (s := { s with wakeup := false, worker := .write }) ho]
      exact ⟨⟨hb, ho, hp, fun _ h => by cases h⟩, hs.tx, hs.rx⟩
    · cases ht
  | write =>
    simp only [Ums.work, hw, Option.some.injEq] at ht
    subst ht
    exact hs.move (by split <;> exact fun _ h => by cases h)
  | writing =>
    simp only [Ums.work, hw, Option.some.injEq] at ht
    subst ht
    exact ⟨⟨hb, ho, hp, fun _ h => by cases h⟩, hs.tx, hs.rx⟩
  | cache =>
    simp only [Ums.work, hw, Option.some.injEq] at ht
    subst ht
    exact hs.move (by split <;> exact fun _ h => by cases h)
  | reading c k n =>
    simp only [Ums.work, hw, Option.some.injEq] at ht
    subst ht
    exact ⟨⟨hb, ho, hp, fun _ h => by cases h⟩, hs.tx, hs.rx⟩
  | blocked =>
    simp only [Ums.work, hw, Option.some.injEq] at ht
    subst ht
    rw [unblock_of_not (s := { s with worker := .sat }) hb]
    exact ⟨⟨hb, ho, hp, fun _ h => by cases h⟩, hs.tx, hs.rx⟩
  | sat =>
    simp only [Ums.work, hw, hp, Option.some.injEq] at ht
    subst ht
    exact ⟨⟨hb, ho, rfl, fun _ h => by cases h⟩, hs.tx, hs.rx⟩
  | ata p => exact absurd hw (hs.idle.worker p)

/-- What the modes have in common. -/
theorem Serves.worker (hs : Serves dev h s) :
    s.satPending = .none ∧ (∀ p, s.worker ≠ .ata p) ∧
      (s.writeOverrun = true → s.writeBusy = true → s.worker = .write ∨ s.worker = .writing) := by
  have hidle : Idle s → s.satPending = .none ∧ (∀ p, s.worker ≠ .ata p) ∧
      (s.writeOverrun = true → s.writeBusy = true → s.worker = .write ∨ s.worker = .writing) :=
    fun hi => ⟨hi.satPending, hi.worker, fun ho => absurd (hi.writeOverrun.symm.trans ho)
      Bool.false_ne_true⟩
  cases hs with
  | listening hi => exact hidle hi
  | status hi => exact hidle hi
  | sending hi => exact hidle hi
  | receiving hi => exact hidle hi
  | blocked _ h2 h3 h4 => exact ⟨h3, h4, fun ho => absurd (h2.symm.trans ho) Bool.false_ne_true⟩
  | overrun _ _ h3 h4 _ _ h7 => exact ⟨h3, h4, fun _ => h7⟩

/-- A step of the worker that only changes what is stored, and not the waiting block. -/
theorem Serves.store {b : Store D} {r : Bool} (hs : Serves dev h s)
    (hcount : ∀ i, 0 < s.readCount i → b.readCount i = s.readCount i)
    (hsector : b.readSector = s.readSector) (hcur : b.writeCurrent = s.writeCurrent)
    (hbuf : b.writeBuf = s.writeBuf) (hset : b.settled = s.store.settled)
    (ha : ∀ p, b.worker ≠ .ata p)
    (hover : s.writeOverrun = true → b.writeBusy = true → b.worker = .write ∨ b.worker = .writing) :
    Serves dev h { s with
      readBuf := b.readBuf, readSector := b.readSector, readCount := b.readCount
      writeBuf := b.writeBuf, writeCurrent := b.writeCurrent, writeSector := b.writeSector
      writeCount := b.writeCount, writeBusy := b.writeBusy, worker := b.worker
      medium := b.medium, writeRc := r } := by
  cases hs with
  | listening hi h1 h2 h3 h4 h5 =>
    exact .listening ⟨hi.readBlocked, hi.writeOverrun, hi.satPending, ha⟩ h1 h2 h3 h4
      (hset.trans h5)
  | status hi h1 h2 h3 h4 h5 =>
    exact .status ⟨hi.readBlocked, hi.writeOverrun, hi.satPending, ha⟩ h1 h2 h3 h4 (hset.trans h5)
  | @sending i offset n hi h1 h2 h3 h0 h4 h5 h6 h7 =>
    refine .sending ⟨hi.readBlocked, hi.writeOverrun, hi.satPending, ha⟩ h1 h2 h3 h0 ?_ ?_ h6
      (hset.trans h7)
    · show _ ≤ b.readCount i
      rw [hcount i (by omega)]
      exact h4
    · show b.readSector i + offset = h.next
      rw [hsector]
      exact h5
  | blocked h1 h2 h3 h4 h5 h6 h7 h8 h9 =>
    exact .blocked h1 h2 h3 ha h5 h6 h7 h8 (hset.trans h9)
  | receiving hi h1 h2 h3 h4 h5 h6 =>
    refine .receiving ⟨hi.readBlocked, hi.writeOverrun, hi.satPending, ha⟩ h1 h2 ?_ h4 h5
      (hset.trans h6)
    show s.rx = _
    rw [hcur]
    exact h3
  | overrun h1 h2 h3 h4 h5 h6 h7 h8 h9 h10 =>
    refine .overrun h1 h2 h3 ha h5 h6 (hover h2) h8 h9 ?_
    show overlay _ _ (b.writeBuf (!b.writeCurrent)) b.settled = _
    rw [hcur, hbuf, hset]
    exact h10

/-- A sector for which no block waits is on the medium as it should be. -/
theorem Serves.medium_eq (hs : Serves dev h s) {x : Nat}
    (hbusy : s.writeBusy = true → ¬ (s.writeSector ≤ x ∧ x < s.writeSector + s.writeCount))
    (hover : s.writeOverrun = true →
      ¬ (s.curCmd.sector ≤ x ∧ x < s.curCmd.sector + s.length / dev.sectorSize)) :
    s.medium x = h.incoming x := by
  have hsettled : s.store.settled x = s.medium x := by
    by_cases hb : s.writeBusy = true
    · have he : s.store.settled =
          overlay s.writeSector s.writeCount (s.writeBuf s.writeCurrent) s.medium := if_pos hb
      rw [he, overlay_of_not_mem (hbusy hb)]
    · have he : s.store.settled = s.medium := if_neg hb
      rw [he]
  rw [← hsettled]
  cases hs with
  | listening _ _ _ _ _ h => rw [h]
  | status _ _ _ _ _ h => rw [h]
  | sending _ _ _ _ _ _ _ _ h => rw [h]
  | blocked _ _ _ _ _ _ _ _ h => rw [h]
  | receiving _ _ _ _ _ _ h => rw [h]
  | overrun _ ho _ _ _ _ _ _ _ h =>
    rw [← h, overlay_of_not_mem (hover ho)]

theorem wake_served (hc : Coherent dev h.incoming s.store) (hs : Serves dev h s)
    (hw : s.worker = .waiting) :
    Served dev h (pushOverrun dev { s with wakeup := false, worker := .write }) := by
  have hmove : Served dev h { s with worker := .write } :=
    Served.move hc hs (fun _ _ _ h => by cases h) (fun h => by cases h) (fun _ h => by cases h)
      (fun _ _ => Or.inl rfl)
  by_cases ho : s.writeOverrun = true
  case neg =>
    rw [pushOverrun_of_not (s := { s with wakeup := false, worker := .write }) (by simpa using ho)]
    exact hmove.update
  case pos =>
    have he : pushOverrun dev { s with wakeup := false, worker := .write } =
        writebufPush dev { s with wakeup := false, worker := .write, writeOverrun := false } := by
      simp [pushOverrun, ho]
    rw [he]
    have hc' : Coherent dev h.incoming
        ({ s with wakeup := false, worker := .write, writeOverrun := false } : State D).store :=
      hc.move (fun _ _ _ h => by cases h) (fun h => by cases h)
    cases hs with
    | listening hi => exact absurd (hi.writeOverrun.symm.trans ho) Bool.false_ne_true
    | status hi => exact absurd (hi.writeOverrun.symm.trans ho) Bool.false_ne_true
    | sending hi => exact absurd (hi.writeOverrun.symm.trans ho) Bool.false_ne_true
    | receiving hi => exact absurd (hi.writeOverrun.symm.trans ho) Bool.false_ne_true
    | blocked _ h => exact absurd (h.symm.trans ho) Bool.false_ne_true
    | overrun h1 _ h3 _ h5 h6 h7 h8 h9 h10 =>
      have hidle : s.writeBusy = false := by
        by_contra hb
        rcases h7 (by simpa using hb) with h | h
        · exact absurd (hw.symm.trans h) (fun h => by cases h)
        · exact absurd (hw.symm.trans h) (fun h => by cases h)
      exact writebufPush_served hc' ⟨h1, rfl, h3, fun _ h => by cases h⟩ h5 h6 hidle h8 h9 h10

theorem written_served {o : Outcome D} (hc : Coherent dev h.incoming s.store)
    (hs : Serves dev h s) (hw : s.worker = .writing) (hok : o.ok = true) :
    Served dev h (written { s with worker := .cache } o) := by
  obtain ⟨h1, h2⟩ := hc.endWrite hw
  have he : written { s with worker := .cache } o = { s with
      worker := .cache, writeRc := s.writeRc || !o.ok, writeBusy := false
      medium := overlay s.writeSector s.writeCount (s.writeBuf s.writeCurrent) s.medium } := by
    simp [written, hok]
  rw [he]
  exact Or.inr ⟨h1, hs.store (b := { s.store with
    worker := .cache, writeBusy := false
    medium := overlay s.writeSector s.writeCount (s.writeBuf s.writeCurrent) s.medium })
    (fun _ _ => rfl) rfl rfl rfl h2 (fun _ h => by cases h) (fun _ h => by cases h)⟩

theorem cache_served (hc : Coherent dev h.incoming s.store) (hs : Serves dev h s)
    (hw : s.worker = .cache)
    (hstart : s.readCount s.readCurrent = 0 →
      let k := s.readSector s.readCurrent
      let m := min dev.bufsize (dev.numSectors - k)
      (s.writeBusy = true → Apart k m s.writeSector s.writeCount) ∧
      (s.writeOverrun = true → Apart k m s.curCmd.sector (s.length / dev.sectorSize))) :
    Served dev h { s with
      worker :=
        if s.readCount s.readCurrent = 0 then
          .reading s.readCurrent (s.readSector s.readCurrent)
            (min dev.bufsize (u32 ((dev.numSectors : Int) - s.readSector s.readCurrent)))
        else .blocked } := by
  obtain ⟨_, _, hover⟩ := hs.worker
  have hnot : ¬ (s.writeOverrun = true ∧ s.writeBusy = true) := by
    rintro ⟨ho, hb⟩
    have := hover ho hb
    simp [hw] at this
  by_cases hz : s.readCount s.readCurrent = 0
  · have hcache : Cache dev s.readSector s.readCount s.worker := hc.cache
    have hfill := hcache.fill_eq s.readCurrent
    rw [if_pos hz, hfill]
    obtain ⟨h1, h2⟩ := hstart hz
    have hread := hc.startRead (c := s.readCurrent) rfl hz fun j hj =>
      hs.medium_eq (x := s.readSector s.readCurrent + j)
        (fun hb => by rcases h1 hb with h | h <;> simp only [State.store] at * <;> omega)
        (fun ho => by rcases h2 ho with h | h <;> simp only [State.store] at * <;> omega)
    exact Or.inr ⟨hread, hs.store (b := { s.store with worker := .reading s.readCurrent _ _ })
      (r := s.writeRc) (fun _ _ => rfl) rfl rfl rfl rfl (fun _ h => by cases h)
      (fun ho hb => absurd ⟨ho, hb⟩ hnot)⟩
  · rw [if_neg hz]
    exact Served.move hc hs (fun _ _ _ h => by cases h) (fun h => by cases h)
      (fun _ h => by cases h) (fun ho hb => absurd ⟨ho, hb⟩ hnot)

theorem readDone_served {o : Outcome D} {c : Bool} {k n : Nat}
    (hc : Coherent dev h.incoming s.store) (hs : Serves dev h s) (hw : s.worker = .reading c k n)
    (hok : o.ok = false → k ≠ 0) :
    Served dev h (readDone { s with worker := .blocked } c k n o) := by
  obtain ⟨_, _, hover⟩ := hs.worker
  obtain ⟨hzero, _⟩ := hc.reading c k n hw
  refine Or.inr ⟨hc.endRead hw hok, hs.store (b := { s.store with
    worker := .blocked, readBuf := _, readCount := _ }) (r := s.writeRc) ?_ rfl rfl rfl rfl
    (fun _ h => by cases h) ?_⟩
  · intro i hi
    have hne : i ≠ c := by
      rintro rfl
      simp only [State.store] at hzero
      omega
    exact Function.update_of_ne hne _ _
  · intro ho hb
    have := hover ho hb
    simp [hw] at this

theorem unblock_served (hc : Coherent dev h.incoming s.store) (hs : Serves dev h s)
    (hw : s.worker = .blocked) : Served dev h (unblock dev { s with worker := .sat }) := by
  obtain ⟨_, _, hover⟩ := hs.worker
  have hover' : s.writeOverrun = true → s.writeBusy = true →
      (Worker.sat = .write ∨ Worker.sat = .writing) := by
    intro ho hb
    have := hover ho hb
    simp [hw] at this
  have hmove : Served dev h { s with worker := .sat } :=
    Served.move hc hs (fun _ _ _ h => by cases h) (fun h => by cases h) (fun _ h => by cases h) hover'
  by_cases hb : s.readBlocked = true
  · have he : unblock dev { s with worker := .sat } =
        if s.readCount s.readCurrent < 0 then
          sendCommandFailedResult { s with worker := .sat, readBlocked := false }
            senseMediumError ascReadError 0
        else sendAndReadNext dev { s with worker := .sat, readBlocked := false } := by
      simp [unblock, hb]
    have hc' : Coherent dev h.incoming
        ({ s with worker := .sat, readBlocked := false } : State D).store :=
      hc.move (fun _ _ _ h => by cases h) (fun h => by cases h)
    rw [he]
    cases hs with
    | listening hi => exact absurd (hi.readBlocked.symm.trans hb) Bool.false_ne_true
    | status hi => exact absurd (hi.readBlocked.symm.trans hb) Bool.false_ne_true
    | sending hi => exact absurd (hi.readBlocked.symm.trans hb) Bool.false_ne_true
    | receiving hi => exact absurd (hi.readBlocked.symm.trans hb) Bool.false_ne_true
    | overrun h => exact absurd (h.symm.trans hb) Bool.false_ne_true
    | blocked _ h2 h3 _ h5 h6 h7 h8 h9 =>
      have hi : Idle ({ s with worker := .sat, readBlocked := false } : State D) :=
        ⟨rfl, h2, h3, fun _ h => by cases h⟩
      split
      · exact sendCommandFailedResult_served hc' hi h6 h8.content h9 _ _ _
      · exact sendAndReadNext_served hc' hi h5 h6 h7 h8 h9
  · rw [unblock_of_not (s := { s with worker := .sat }) (by simpa using hb)]
    exact hmove

theorem work_served {o : Outcome D} (hs : Served dev h s) (hun : Undisturbed dev s (.work o))
    (ht : work dev s o = some t) : Served dev h t := by
  rcases hs with hs | ⟨hc, hs⟩
  · exact Or.inl (hs.work ht)
  · obtain ⟨hp, hata, hover⟩ := hs.worker
    obtain ⟨hwrite, hread, hstart⟩ := hun
    cases hw : s.worker with
    | waiting =>
      simp only [work, hw] at ht
      split at ht
      · cases ht
        exact wake_served hc hs hw
      · cases ht
    | write =>
      simp only [work, hw, Option.some.injEq] at ht
      subst ht
      refine Served.move hc hs ?_ (fun h => ?_) ?_ (fun _ hb => ?_)
      · split <;> exact fun _ _ _ h => by cases h
      · by_contra hb
        rw [if_neg hb] at h
        cases h
      · split <;> exact fun _ h => by cases h
      · rw [if_pos hb]
        exact Or.inr rfl
    | writing =>
      simp only [work, hw, Option.some.injEq] at ht
      subst ht
      exact written_served hc hs hw (hwrite hw)
    | cache =>
      simp only [work, hw, Option.some.injEq] at ht
      subst ht
      exact cache_served hc hs hw (hstart hw)
    | reading c k n =>
      simp only [work, hw, Option.some.injEq] at ht
      subst ht
      exact readDone_served hc hs hw (hread c k n hw)
    | blocked =>
      simp only [work, hw, Option.some.injEq] at ht
      subst ht
      exact unblock_served hc hs hw
    | sat =>
      simp only [work, hw, hp, Option.some.injEq] at ht
      subst ht
      have hmove : Served dev h { s with worker := .waiting } :=
        Served.move hc hs (fun _ _ _ h => by cases h) (fun h => by cases h) (fun _ h => by cases h)
          (fun ho hb => absurd (hover ho hb) (by simp [hw]))
      have he : ({ s with satPending := .none, worker := .waiting } : State D) =
          { s with worker := .waiting } := by rw [← hp]
      rw [he]
      exact hmove
    | ata p => exact absurd hw (hata p)

/-! ## Runs -/

theorem step_served {e : Event D} {o : Signal D} (hs : Served dev h s) (htr : Transfers dev s e)
    (hun : Undisturbed dev s e) (ht : step dev s e = some (t, o)) :
    Served dev (h.step dev o) t := by
  unfold step at ht
  split at ht
  · cases ht
  · cases e with
    | transmitted left =>
      obtain ⟨tx, htx, he⟩ := Option.map_eq_some_iff.1 ht
      cases he
      exact transmitted_served hs htx
    | data d left => exact receive_served hs htr hun ht
    | work o' =>
      obtain ⟨u, hu, he⟩ := Option.map_eq_some_iff.1 ht
      cases he
      exact work_served hs hun hu
    | command cbw left =>
      simp only at ht
      split at ht
      · rename_i hrx
        cases ht
        rcases hs with hs | ⟨hc, hs⟩
        · exact absurd hrx (by simp [hs.rx])
        · cases hs with
          | status _ _ _ h => exact absurd hrx (by simp [h])
          | sending _ _ _ h => exact absurd hrx (by simp [h])
          | blocked _ _ _ _ _ h => exact absurd hrx (by simp [h])
          | receiving _ _ _ h => exact absurd hrx (by simp [h])
          | overrun _ _ _ _ _ h => exact absurd hrx (by simp [h])
          | listening hi hst htx _ hcon hset =>
            generalize hu : { shorten s left with rx := none, cmdbuf := cbw, state := .processing } = u
            have he : outComplete dev { shorten s left with rx := none, cmdbuf := cbw } =
                handleScsi dev u cbw := by
              simp [outComplete, shorten, hst, ← hu]
            have hstore : u.store = s.store := by rw [← hu]; rfl
            rw [he]
            refine handleScsi_served ?_ ?_ ?_ ?_ ?_ htr
            · rw [hstore, ← hcon]
              exact hc
            · subst hu
              exact hi.congr rfl rfl rfl rfl
            · rw [← hu]
              exact htx
            · rw [← hu]
            · rw [hstore, hset, hcon]
      · cases ht

/-- In every state that is reached from `s₀` by steps that meet `ok`, what is being sent is what
the host expects. -/
def ReadBack (dev : StorageInfo) (ok : State D → Event D → Prop) (s₀ : State D) : Prop :=
  ∀ es s, Lts.Runs (step dev) ok s₀ es s →
    Truthful dev ((Host.initial s₀.medium).run dev (es.map fun e => e.2.2)) s

theorem initial_served (medium : Nat → D) (readBuf writeBuf : Bool → Nat → D)
    (cmdbuf : CommandBlockWrapper) :
    Served dev (Host.initial medium) (initial medium readBuf writeBuf cmdbuf) := by
  refine Or.inr ⟨⟨⟨fun _ => dev.num_pos, fun _ => Or.inl rfl, (fun _ _ _ h => by cases h)⟩,
    fun _ => le_rfl, fun _ j hj => ?_, (fun _ _ _ h => by cases h), (fun h => by cases h)⟩,
    .listening ⟨rfl, rfl, rfl, (fun _ h => by cases h)⟩ rfl rfl rfl rfl rfl⟩
  exact absurd (show (j : Int) < 0 from hj) (by omega)

/-- Disk mode reads back what was written, as long as no block gets in the way. -/
theorem sends_latest (dev : StorageInfo) (medium : Nat → D) (readBuf writeBuf : Bool → Nat → D)
    (cmdbuf : CommandBlockWrapper) :
    ReadBack dev (fun s e => Transfers dev s e ∧ Undisturbed dev s e)
      (initial medium readBuf writeBuf cmdbuf) := by
  intro es s hr
  have hserved := hr.invariant_trace (I := fun l x =>
    Served dev ((Host.initial medium).run dev (l.map fun e => e.2.2)) x)
    (initial_served medium readBuf writeBuf cmdbuf) (by
      intro l x e y o hx hok hs
      rw [List.map_append, List.map_singleton, Host.run_concat]
      exact step_served hx hok.1 hok.2 hs)
  exact hserved.truthful

/-! ## A stale read -/

/-- Sector 0 is read, written and read again; the worker only comes by for the first read. -/
def rereadEvents : List (Event Bool) :=
  let o : Outcome Bool := ⟨true, fun _ => false, default⟩
  let read := wrapper 4096 0x80 [0x28, 0, 0, 0, 0, 0, 0, 0, 1]
  let write := wrapper 4096 0 [0x2a, 0, 0, 0, 0, 0, 0, 0, 1]
  [.command read 0, .work o, .work o, .work o, .work o, .work o, .transmitted 0, .transmitted 0,
    .command write 0, .data (fun _ => true) 0, .transmitted 0, .command read 0]

/-- `update_readcache` copies from the write buffer before, so that the old content is sent. -/
theorem reread_stale :
    ¬ ∀ (dev : StorageInfo) (medium : Nat → Bool) (readBuf writeBuf : Bool → Nat → Bool)
      (cmdbuf : CommandBlockWrapper),
      ReadBack dev (Transfers dev) (initial medium readBuf writeBuf cmdbuf) := by
  intro h
  have h := h someDevice (fun _ => false) (fun _ _ => false) (fun _ _ => false) (wrapper 0 0 [])
  generalize hs : initial (fun _ => false) (fun _ _ => false) (fun _ _ => false) (wrapper 0 0 [])
    = s₀ at h
  cases ht : Lts.trace (step someDevice) s₀ rereadEvents with
  | none =>
    have : (Lts.trace (step someDevice) s₀ rereadEvents).isSome = true := by
      subst hs
      decide
    simp [ht] at this
  | some q =>
    obtain ⟨es, s⟩ := q
    have hr : Lts.Runs (step someDevice) (Transfers someDevice) s₀ es s := by
      refine Lts.trace_runs ht fun x a ha => ?_
      simp only [rereadEvents, List.mem_cons, List.not_mem_nil, or_false] at ha
      rcases ha with rfl | rfl | rfl | rfl | rfl | rfl | rfl | rfl | rfl | rfl | rfl | rfl
      · exact ⟨by decide, Or.inl (by decide), by decide⟩
      · trivial
      · trivial
      · trivial
      · trivial
      · trivial
      · trivial
      · trivial
      · exact ⟨by decide, Or.inr (by decide), by decide⟩
      · exact fun _ _ _ => Nat.zero_le _
      · trivial
      · exact ⟨by decide, Or.inl (by decide), by decide⟩
    have hend : (Lts.trace (step someDevice) s₀ rereadEvents).map (fun q =>
        let x := (Host.initial s₀.medium).run someDevice (q.1.map fun e => e.2.2)
        (q.2.tx, q.2.readBuf false 0, x.asked x.next)) =
          some (some (.blocks false 0 4096), false, true) := by
      subst hs
      decide
    simp only [ht, Option.map_some, Option.some.injEq, Prod.mk.injEq] at hend
    obtain ⟨htx, hsent, hasked⟩ := hend
    obtain ⟨-, hread⟩ := h es s hr _ _ _ htx
    have hfirst := hread 0 (by decide)
    rw [Nat.add_zero, Nat.add_zero, hsent, hasked] at hfirst
    cases hfirst

end Ums
end Freemyipod
