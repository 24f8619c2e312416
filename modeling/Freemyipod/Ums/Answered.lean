import Freemyipod.Ums.BulkOnly

/-!
# Ums.Answered

Every command wrapper is answered by exactly one status: each function of disk mode gets from a
state in which a command is being executed to one that conforms to bulk-only transport, and leaves
less to do than before.
-/

namespace Freemyipod
namespace Ums

variable {D : Type} {dev : StorageInfo} {s t : State D} {cbw : CommandBlockWrapper} {m n : Nat}

/-- Conforms in the middle of `cbw`, with no more than `n` left to do. -/
def Within (dev : StorageInfo) (cbw : CommandBlockWrapper) (m n : Nat) (s : State D) : Prop :=
  Conforms dev (.data cbw m) s ∧ phaseWeight s ≤ n

theorem Within.mono {n' : Nat} (h : Within dev cbw m n s) (hn : n ≤ n') : Within dev cbw m n' s :=
  ⟨h.1, le_trans h.2 hn⟩

/-! ## Starting transfers -/

theorem sendCsw_within (h : Held dev cbw m s) (hi : Idle s) (st : Nat) :
    Within dev cbw m 1 (sendCsw s st) := by
  have htx : (sendCsw s st).tx = some (.csw cbw.tag s.curCmd.bytesPending st) :=
    congrArg (fun tag => some (Tx.csw tag _ _)) h.tag
  constructor
  · refine .passive h.cache h.crashed (hi.congr rfl rfl rfl rfl) ?_
    exact .status rfl rfl htx h.rx h.account
  · simp [phaseWeight, sendCsw]

theorem sendCommandFailedResult_within (h : Held dev cbw m s) (hi : Idle s) (key asc ascq : UInt8) :
    Within dev cbw m 1 (sendCommandFailedResult s key asc ascq) := by
  have htx : (sendCommandFailedResult s key asc ascq).tx =
      some (.csw cbw.tag s.curCmd.bytesPending 1) :=
    congrArg (fun tag => some (Tx.csw tag _ _)) h.tag
  constructor
  · refine .passive h.cache h.crashed (hi.congr rfl rfl rfl rfl) ?_
    exact .status rfl rfl htx h.rx h.account
  · simp [phaseWeight, sendCommandFailedResult, sendCsw]

theorem sendCommandResult_within (h : Held dev cbw m s) (hi : Idle s) {d : Nat → Tx} {size : Nat}
    (hd : (d size).IsReply size) (hdir : s.curCmd.dataDirection = true)
    (hsize : size ≤ s.curCmd.bytesPending) : Within dev cbw m 2 (sendCommandResult s d size) := by
  have ha := h.account
  have he : sendCommandResult s d size =
      { takeBytes s size with tx := some (d size), state := .sendingResult } := by
    simp [sendCommandResult, hdir, Nat.not_lt.2 hsize]
  rw [he]
  constructor
  · refine .passive h.cache h.crashed (hi.congr rfl rfl rfl rfl) ?_
    refine .replying (m := m) rfl rfl rfl hd h.rx h.tag ?_
    simp only [takeBytes]
    omega
  · cases hs : d size <;> simp_all [phaseWeight, Tx.IsReply]

theorem receiveSatWrite_within (h : Held dev cbw m s) (hi : Idle s) {i : Bool} {size : Nat}
    (hdir : s.curCmd.dataDirection = false) (hsize : size ≤ s.curCmd.bytesPending) :
    Within dev cbw m 4 (receiveSatWrite s i size) := by
  have ha := h.account
  have he : receiveSatWrite s i size =
      { takeBytes s size with rx := some (.sat i size), state := .receivingSatWrite } := by
    simp [receiveSatWrite, hdir, Nat.not_lt.2 hsize]
  rw [he]
  constructor
  · refine .passive h.cache h.crashed (hi.congr rfl rfl rfl rfl) ?_
    refine .satReceiving rfl rfl h.tx rfl h.tag ?_ hdir
    simp only [takeBytes]
    omega
  · simp [phaseWeight, takeBytes, h.tx]

/-- The next block of a WRITE(10) is asked for. -/
theorem receiveNext_within (h : Held dev cbw m s) (hi : Idle s)
    (hdir : s.curCmd.dataDirection = false) (hpos : 0 < s.curCmd.count)
    (hlt : s.curCmd.count < 65536) (hsec : s.curCmd.sector < 4294967296)
    (hbytes : s.curCmd.count * dev.sectorSize ≤ s.curCmd.bytesPending) :
    Within dev cbw m (2 * s.curCmd.count + 6) (receiveNext dev s) := by
  have ha := h.account
  generalize hz : min umsBufsize (s.curCmd.count * dev.sectorSize) = size
  have hle : size ≤ s.curCmd.count * dev.sectorSize := hz ▸ min_le_right _ _
  have he : receiveNext dev s = { takeBytes s size with
      rx := some (.blocks (!s.writeCurrent) size), state := .receivingBlocks } := by
    simp [receiveNext, receiveBlockData, hdir, hz, Nat.not_lt.2 (hle.trans hbytes)]
  rw [he]
  constructor
  · refine .passive h.cache h.crashed (hi.congr rfl rfl rfl rfl) ?_
    refine .receiving (m := m) rfl rfl h.tx rfl h.tag ?_ rfl ⟨hdir, hpos, hlt, hsec, hz.symm, ?_⟩
    · simp only [takeBytes]
      omega
    · simp only [takeBytes]
      omega
  · simp [phaseWeight, takeBytes, h.tx]

/-- An operation of the ATA driver is left to the worker. -/
theorem satPend_within (h : Held dev cbw m s) (hb : s.readBlocked = false)
    (ho : s.writeOverrun = false) (hw : ∀ p, s.worker ≠ .ata p) {p : SatPending}
    (hp : SatReady s.curCmd (datasize s) p) : Within dev cbw m 3 (satPend s p) := by
  constructor
  · exact .satPending rfl ⟨h.cache, h.crashed, h.tx, h.rx, h.tag, h.account⟩ hb ho hw hp (Or.inl rfl)
  · simp [phaseWeight, satPend, enqueueAsync, h.tx, h.rx, hb, ho]

/-! ## Reading -/

/-- A buffer that is hit belongs to the sector, and `readbuf_sector + bufsize` has not wrapped. -/
theorem readHit_iff (hr : Reads dev s.curCmd) (hpos : 0 < s.curCmd.count)
    (hc : Cache dev s.readSector s.readCount s.worker) (i : Bool) :
    readHit dev s i = true ↔
      s.readSector i ≤ s.curCmd.sector ∧ s.curCmd.sector < s.readSector i + dev.bufsize := by
  have h1 := hr.in_range
  have h2 := hr.fits
  have h3 := hc.sector_lt i
  have h4 := dev.num_lt
  have h5 := dev.bufsize_le
  rw [readHit, Bool.and_eq_true, decide_eq_true_eq, decide_eq_true_eq]
  simp only [u32]
  omega

theorem prefetch_curCmd (dev : StorageInfo) (s : State D) (i : Bool) (overlap : Nat) :
    (prefetch dev s i overlap).curCmd = s.curCmd := by
  simp only [prefetch]
  split <;> rfl

theorem prefetch_worker (i : Bool) (overlap : Nat) :
    (prefetch dev s i overlap).worker = s.worker := by
  simp only [prefetch]
  split <;> rfl

theorem prefetch_idle (hi : Idle s) (i : Bool) (overlap : Nat) : Idle (prefetch dev s i overlap) := by
  simp only [prefetch]
  split
  · exact hi.congr rfl rfl rfl rfl
  · exact hi

/-- The other buffer is prepared for sectors of the device. -/
theorem prefetch_held (h : Held dev cbw m s) (i : Bool) {overlap : Nat}
    (hov : s.curCmd.sector + overlap ≤ readTop s i) :
    Held dev cbw m (prefetch dev s i overlap) := by
  simp only [prefetch]
  split
  · rename_i hpre
    have hn := dev.num_lt
    have hu : u32 (s.curCmd.sector + overlap) = s.curCmd.sector + overlap := by
      simp only [u32]
      omega
    refine ⟨?_, h.crashed, h.tx, h.rx, h.tag, h.account⟩
    rw [hu]
    exact h.cache.assign (!i) (by omega)
  · exact h

/-- `overlap` sectors are sent, and the rest of the command is the next thing to send. -/
theorem sendBlockData_within (h : Held dev cbw m s) (hi : Idle s) (hr : Reads dev s.curCmd)
    {i : Bool} {offset overlap : Nat} (hov : overlap ≤ s.curCmd.count) :
    Within dev cbw m (2 * (s.curCmd.count - overlap) + 6)
      (advance (sendBlockData s i offset (overlap * dev.sectorSize)) overlap) := by
  have ha := h.account
  have hdir := hr.dir
  have hb := hr.bytes
  have hlt := hr.count_lt
  have h1 := hr.in_range
  have h2 := hr.fits
  have h3 := dev.bufsize_ge
  have hsize : overlap * dev.sectorSize ≤ s.curCmd.count * dev.sectorSize :=
    Nat.mul_le_mul_right _ hov
  have he : sendBlockData s i offset (overlap * dev.sectorSize) =
      { takeBytes s (overlap * dev.sectorSize) with
        tx := some (.blocks i offset (overlap * dev.sectorSize)), state := .sendingBlocks } := by
    simp [sendBlockData, hdir, Nat.not_lt.2 (hsize.trans hb)]
  have hu : u32 (s.curCmd.sector + overlap) = s.curCmd.sector + overlap := by
    simp only [u32]
    omega
  rw [he]
  constructor
  · refine .passive h.cache h.crashed (hi.congr rfl rfl rfl rfl) ?_
    refine .sending (m := m) rfl rfl rfl h.rx h.tag ?_ ⟨hdir, ?_, ?_, ?_, ?_⟩
    · simp only [advance, takeBytes]
      omega
    · simp only [advance, takeBytes]
      omega
    · simp only [advance, takeBytes, Nat.sub_mul]
      omega
    · simp only [advance, takeBytes, hu]
      omega
    · simp only [advance, takeBytes, hu]
      omega
  · simp [phaseWeight, advance, takeBytes]

/-- A buffer that holds the next sector is sent from. -/
theorem sendFrom_within (h : Held dev cbw m s) (hi : Idle s) (hr : Reads dev s.curCmd)
    (hpos : 0 < s.curCmd.count) {i : Bool} (htop : s.curCmd.sector < readTop s i) :
    Within dev cbw m (2 * s.curCmd.count + 4) (sendFrom dev s i) := by
  have hlt := hr.count_lt
  have hbytes := dev.bytes_lt hlt
  generalize hov : min (readTop s i - s.curCmd.sector) s.curCmd.count = overlap
  have hle : overlap ≤ s.curCmd.count := by omega
  have hsize : overlap * dev.sectorSize ≤ s.curCmd.count * dev.sectorSize :=
    Nat.mul_le_mul_right _ hle
  have hu : u32 (overlap * dev.sectorSize) = overlap * dev.sectorSize := by
    have := u32_of_lt (n := overlap * dev.sectorSize) (by omega)
    exact_mod_cast this
  have hc := prefetch_curCmd dev s i overlap
  rw [sendFrom, if_neg (Nat.not_le.2 htop)]
  simp only [hov, hu]
  refine (sendBlockData_within (prefetch_held h i (by omega)) (prefetch_idle hi i overlap)
    (hc ▸ hr) (hc ▸ hle)).mono ?_
  rw [hc]
  omega

/-- The first buffer that is hit has nothing for the command yet. -/
theorem sendFrom_blocked (h : Held dev cbw m s) (hi : Idle s) (hr : Reads dev s.curCmd)
    (hpos : 0 < s.curCmd.count) {i : Bool} (hhit : readHit dev s i = true)
    (hfirst : i = true → readHit dev s false = false) (htop : readTop s i ≤ s.curCmd.sector) :
    Within dev cbw m (2 * s.curCmd.count + 5) (sendFrom dev s i) := by
  rw [sendFrom, if_pos htop]
  constructor
  · exact .blocked rfl ⟨h.cache, h.crashed, h.tx, h.rx, h.tag, h.account⟩ rfl hi.writeOverrun
      hi.satPending hi.worker hr hpos hhit hfirst (Or.inl rfl)
  · simp [phaseWeight, enqueueAsync, h.tx, h.rx]

theorem sendAndReadNext_of_hit {i : Bool} (hhit : readHit dev s i = true)
    (hfirst : i = true → readHit dev s false = false) : sendAndReadNext dev s = sendFrom dev s i := by
  cases i
  · rw [sendAndReadNext, if_pos hhit]
  · rw [sendAndReadNext, hfirst rfl, if_neg Bool.false_ne_true, if_pos hhit]

theorem sendAndReadNext_within (h : Held dev cbw m s) (hi : Idle s) (hr : Reads dev s.curCmd)
    (hpos : 0 < s.curCmd.count) :
    Within dev cbw m (2 * s.curCmd.count + 5) (sendAndReadNext dev s) := by
  have hhits : ∀ i, readHit dev s i = true → (i = true → readHit dev s false = false) →
      Within dev cbw m (2 * s.curCmd.count + 5) (sendAndReadNext dev s) := by
    intro i hhit hfirst
    rw [sendAndReadNext_of_hit hhit hfirst]
    rcases Nat.lt_or_ge s.curCmd.sector (readTop s i) with htop | htop
    · exact (sendFrom_within h hi hr hpos htop).mono (by omega)
    · exact sendFrom_blocked h hi hr hpos hhit hfirst htop
  cases h0 : readHit dev s false with
  | true => exact hhits false h0 (fun he => by cases he)
  | false =>
    cases h1 : readHit dev s true with
    | true => exact hhits true h1 (fun _ => h0)
    | false =>
      have h2 := hr.in_range
      have h3 := hr.fits
      have h4 := dev.bufsize_ge
      have hcache := h.cache.assign (!s.readCurrent) (b := s.curCmd.sector) (by omega)
      rw [sendAndReadNext, h0, h1, if_neg Bool.false_ne_true, if_neg Bool.false_ne_true]
      constructor
      · refine .blocked rfl ⟨hcache, h.crashed, h.tx, h.rx, h.tag, h.account⟩ rfl hi.writeOverrun
          hi.satPending hi.worker hr hpos ?_ ?_ (Or.inl rfl)
        · simp only [enqueueAsync, readHit, Function.update_self, u32]
          simp
          omega
        · intro hcur
          have hne : (false : Bool) ≠ !s.readCurrent := by
            intro he
            rw [enqueueAsync] at hcur
            simp [← he] at hcur
          simp only [enqueueAsync, readHit, Function.update_of_ne hne]
          exact h0
      · simp [phaseWeight, enqueueAsync, h.tx, h.rx]

theorem sendAndReadNext_worker : (sendAndReadNext dev s).worker = s.worker := by
  have hdata : ∀ (t : State D) i offset size, (sendBlockData t i offset size).worker = t.worker := by
    intro t i offset size
    simp only [sendBlockData]
    split
    · rfl
    · split <;> rfl
  have hfrom : ∀ i, (sendFrom dev s i).worker = s.worker := by
    intro i
    simp only [sendFrom]
    split
    · rfl
    · exact (hdata _ _ _ _).trans (prefetch_worker _ _)
  simp only [sendAndReadNext]
  split
  · exact hfrom _
  · split
    · exact hfrom _
    · rfl

/-! ## Writing -/

/-- The block that has arrived is handed to the worker. -/
theorem writebufPush_within (h : Held dev cbw m s) (hi : Idle s)
    (hw : Writes dev s.curCmd s.length) :
    Within dev cbw m (2 * s.curCmd.count + 4) (writebufPush dev s) := by
  have hpos := hw.count_pos
  have hlt := hw.count_lt
  have hb := hw.bytes
  have hge := dev.bufsize_ge
  generalize hcnt : s.length / dev.sectorSize = cnt
  have hmin : cnt = min dev.bufsize s.curCmd.count := by
    rw [← hcnt, hw.size_eq, dev.min_bytes_div]
  have hlen : s.length = cnt * dev.sectorSize := by
    rw [hmin, hw.size_eq, dev.min_bytes]
  have hu : u32 ((s.curCmd.count : Int) - cnt) = s.curCmd.count - cnt := by
    simp only [u32]
    omega
  have hcount : (takeBlock dev s).curCmd.count = s.curCmd.count - cnt := by
    rw [← hu, ← hcnt]
    rfl
  have hh : Held dev cbw m (takeBlock dev s) :=
    ⟨h.cache, h.crashed, h.tx, h.rx, h.tag, h.account⟩
  have hii : Idle (takeBlock dev s) := hi.congr rfl rfl rfl rfl
  have hsec : (takeBlock dev s).curCmd.sector < 4294967296 :=
    u32_lt (s.curCmd.sector + (s.length / dev.sectorSize : Nat))
  simp only [writebufPush]
  split
  · split
    · exact (sendCommandFailedResult_within hh hii _ _ _).mono (by omega)
    · have hh' : Held dev cbw m { takeBlock dev s with writeRc := false } :=
        ⟨h.cache, h.crashed, h.tx, h.rx, h.tag, h.account⟩
      exact (sendCsw_within hh' (hii.congr rfl rfl rfl rfl) 0).mono (by omega)
  · rename_i hmore
    refine (receiveNext_within hh hii hw.dir (Nat.pos_of_ne_zero hmore) ?_ hsec ?_).mono ?_
    · rw [hcount]
      omega
    · rw [hcount, Nat.sub_mul]
      show _ ≤ s.curCmd.bytesPending
      omega
    · rw [hcount]
      omega

/-! ## Commands -/

/-- Neither another wakeup nor the loss of the reply registers matters. -/
theorem Conforms.update {b : Bot} {w r : Bool} (hw : s.wakeup = true → w = true)
    (h : Conforms dev b s) : Conforms dev b { s with wakeup := w, haveSatResponse := r } := by
  cases h with
  | passive hc hr hi hp => exact .passive hc hr (hi.congr rfl rfl rfl rfl) hp
  | blocked hb h h1 h2 h3 h4 h5 h6 h7 h8 h9 =>
    exact .blocked hb ⟨h.cache, h.crashed, h.tx, h.rx, h.tag, h.account⟩ h1 h2 h3 h4 h5 h6 h7 h8
      (h9.imp_left hw)
  | overrun hb h h1 h2 h3 h4 h5 h6 =>
    exact .overrun hb ⟨h.cache, h.crashed, h.tx, h.rx, h.tag, h.account⟩ h1 h2 h3 h4 h5 (hw h6)
  | satPending hb h h1 h2 h3 h4 h5 =>
    exact .satPending hb ⟨h.cache, h.crashed, h.tx, h.rx, h.tag, h.account⟩ h1 h2 h3 h4
      (h5.imp_left hw)
  | satRunning hb h h1 h2 h3 h4 h5 =>
    exact .satRunning hb ⟨h.cache, h.crashed, h.tx, h.rx, h.tag, h.account⟩ h1 h2 h3 h4 h5

theorem Conforms.done {b : Bot} (h : Conforms dev b s) : Conforms dev b (done s) :=
  h.update (fun hw => hw)

theorem Within.enqueue (h : Within dev cbw m n s) : Within dev cbw m n (enqueueAsync s) :=
  ⟨h.1.update (fun _ => rfl), h.2⟩

theorem u32_mul (a b : Int) : u32 (u32 a * u32 b) = u32 (a * b) := by
  have ha : ((u32 a : Nat) : Int) = a % 4294967296 := Int.toNat_of_nonneg (Int.emod_nonneg _ (by decide))
  have hb : ((u32 b : Nat) : Int) = b % 4294967296 := Int.toNat_of_nonneg (Int.emod_nonneg _ (by decide))
  simp only [u32] at ha hb ⊢
  rw [ha, hb, ← Int.mul_emod]

/-- What the driver is told to move is what the wrapper says. -/
theorem datasize_satCommand {t : State D} (ht : t.satCommand = satCommand dev s cbw) :
    datasize t = cbw.satSize dev := by
  rw [datasize, ht]
  exact u32_mul _ _

theorem satSize_zero (h : cbw.satLen = 0) : cbw.satSize dev = 0 := by
  have hl : cbw.satLength = 0 := by
    simp [CommandBlockWrapper.satLength, h]
  simp only [CommandBlockWrapper.satSize, CommandBlockWrapper.satUnits, hl]
  split <;> simp [u32]

section Execute

variable (h : Held dev cbw 0 s) (hi : Idle s) (hdir : s.curCmd.dataDirection = cbw.dataIn)
include h hi hdir

theorem sendReply_conforms (data : List UInt8) {length : Nat} (hin : cbw.dataIn = true)
    (hlen : length ≤ cbw.length) : Conforms dev (.data cbw 0) (sendReply s data length) := by
  have ha := h.account
  exact (sendCommandResult_within h hi (d := Tx.result data) rfl (hdir.trans hin) (by omega)).1

theorem sendMediumReply_conforms (data : List UInt8) (hin : cbw.dataIn = true) :
    Conforms dev (.data cbw 0) (sendMediumReply s data cbw.length) := by
  rw [sendMediumReply]
  split
  · exact (sendCommandFailedResult_within h hi _ _ _).1
  · exact sendReply_conforms h hi hdir data hin le_rfl

theorem modeSense_conforms (data : List UInt8)
    (hin : cbw.byte 2 &&& 0x3f = 0x3f → cbw.dataIn = true) :
    Conforms dev (.data cbw 0) (modeSense s data cbw) := by
  rw [modeSense]
  split
  · exact (sendCommandFailedResult_within h hi _ _ _).1
  · split
    · rename_i hpage
      exact sendReply_conforms h hi hdir data (hin hpage) le_rfl
    · exact (sendCommandFailedResult_within h hi _ _ _).1

theorem requestSense_conforms (hin : cbw.dataIn = true) :
    Conforms dev (.data cbw 0) (requestSense s cbw.length) := by
  rw [requestSense]
  split <;> exact sendReply_conforms h hi hdir _ hin le_rfl

omit hdir in
/-- READ(10) and WRITE(10) get to their data phase if they pass the range check. -/
theorem transferBlocks_conforms {start : State D → State D}
    (hstart : Accepted dev cbw → ∀ t : State D, Held dev cbw 0 t → Idle t →
      t.curCmd = { s.curCmd with sector := cbw.lba, count := cbw.blocks } →
      Conforms dev (.data cbw 0) (start t)) :
    Conforms dev (.data cbw 0) (transferBlocks dev s cbw start) := by
  have hh : Held dev cbw 0 { s with
      curCmd := { s.curCmd with sector := cbw.lba, count := cbw.blocks } } :=
    ⟨h.cache, h.crashed, h.tx, h.rx, h.tag, h.account⟩
  have hii := hi.congr (t := { s with
      curCmd := { s.curCmd with sector := cbw.lba, count := cbw.blocks } }) rfl rfl rfl rfl
  simp only [transferBlocks]
  split
  · exact (sendCommandFailedResult_within h hi _ _ _).1
  · split
    · exact (sendCommandFailedResult_within hh hii _ _ _).1
    · rename_i hrange
      split
      · exact (sendCsw_within hh hii 0).1
      · rename_i hne
        exact hstart ⟨Nat.not_lt.1 hrange, hne⟩ _ hh hii rfl

theorem read10_conforms
    (hm : Accepted dev cbw → cbw.dataIn = true ∧ cbw.blocks * dev.sectorSize ≤ cbw.length)
    (hfits : Accepted dev cbw → cbw.lba + cbw.blocks + dev.bufsize ≤ 4294967296) :
    Conforms dev (.data cbw 0) (read10 dev s cbw) := by
  refine transferBlocks_conforms h hi fun hacc t ht hit hc => ?_
  have ha := ht.account
  have h1 := hfits hacc
  have h2 := dev.bufsize_ge
  have h3 : u32 (cbw.lba + cbw.blocks) = cbw.lba + cbw.blocks := by
    simp only [u32]
    omega
  obtain ⟨h4, h5⟩ := hacc
  obtain ⟨h6, h7⟩ := hm ⟨h4, h5⟩
  refine (sendAndReadNext_within ht hit ⟨?_, ?_, ?_, ?_, ?_⟩ ?_).1
  · rw [hc]
    exact hdir.trans h6
  · rw [hc]
    exact cbw.blocks_lt
  · rw [hc] at ha ⊢
    simp only at ha ⊢
    omega
  · rw [hc]
    simp only
    omega
  · rw [hc]
    exact h1
  · rw [hc]
    exact Nat.pos_of_ne_zero h5

theorem write10_conforms
    (hm : Accepted dev cbw → cbw.dataIn = false ∧ cbw.blocks * dev.sectorSize ≤ cbw.length) :
    Conforms dev (.data cbw 0) (write10 dev s cbw) := by
  refine transferBlocks_conforms h hi fun hacc t ht hit hc => ?_
  have ha := ht.account
  obtain ⟨h1, h2⟩ := hm hacc
  refine (receiveNext_within ht hit ?_ ?_ ?_ ?_ ?_).1
  · rw [hc]
    exact hdir.trans h1
  · rw [hc]
    exact Nat.pos_of_ne_zero hacc.2
  · rw [hc]
    exact cbw.blocks_lt
  · rw [hc]
    exact cbw.lba_lt
  · rw [hc] at ha ⊢
    simp only at ha ⊢
    omega

/-- A pass-through command that is not `invalid` goes to the worker, its data first. -/
theorem satIssue_conforms
    (hm : Matching.Fits cbw (if cbw.satLen = 0 then .nothing
      else if cbw.satDir then .toHost (cbw.satSize dev) else .fromHost (cbw.satSize dev))) :
    Conforms dev (.data cbw 0) (satIssue dev s cbw) := by
  have ha := h.account
  have hcache := h.cache.empty (!s.readCurrent)
  generalize ht : { s with
    satCommand := satCommand dev s cbw
    readCount := Function.update s.readCount (!s.readCurrent) 0 } = t
  have hh : Held dev cbw 0 t := by
    subst ht
    exact ⟨hcache, h.crashed, h.tx, h.rx, h.tag, h.account⟩
  have hii : Idle t := by
    subst ht
    exact hi.congr rfl rfl rfl rfl
  have hcur : t.curCmd = s.curCmd := by rw [← ht]
  have hdata : datasize t = cbw.satSize dev := datasize_satCommand (by rw [← ht])
  simp only [satIssue, ht]
  by_cases hlen : cbw.satLen = 0
  · rw [if_neg (fun hc => hc.1 hlen)]
    refine (satPend_within hh hii.readBlocked hii.writeOverrun hii.worker fun _ => ?_).1
    rw [hdata, satSize_zero hlen]
    exact Nat.zero_le _
  · rw [if_neg hlen] at hm
    cases hd : cbw.satDir with
    | false =>
      rw [hd, if_neg Bool.false_ne_true] at hm
      obtain ⟨h1, h2⟩ := hm
      rw [if_pos ⟨hlen, rfl⟩]
      refine (receiveSatWrite_within hh hii ?_ ?_).1
      · rw [hcur]
        exact hdir.trans h1
      · rw [hcur]
        omega
    | true =>
      rw [hd, if_pos rfl] at hm
      obtain ⟨h1, h2⟩ := hm
      rw [if_neg (fun hc => by simp at hc)]
      refine (satPend_within hh hii.readBlocked hii.writeOverrun hii.worker fun _ => ?_).1
      rw [hdata, hcur]
      omega

theorem ataPassthrough_conforms (hm : Matching.Fits cbw (satMoves dev cbw)) :
    Conforms dev (.data cbw 0) (ataPassthrough dev s cbw) := by
  have ha := h.account
  rw [ataPassthrough]
  rw [satMoves] at hm
  split
  · exact (sendCommandFailedResult_within h hi _ _ _).1.done
  · rename_i hdrv
    rw [if_neg hdrv] at hm
    generalize ht : { s with
      satCommand := { s.satCommand with lba48 := cbw.satRequest.extend }
      satCheck := cbw.satCheck } = t
    have hh : Held dev cbw 0 t := by
      subst ht
      exact ⟨h.cache, h.crashed, h.tx, h.rx, h.tag, h.account⟩
    have hii : Idle t := by
      subst ht
      exact hi.congr rfl rfl rfl rfl
    have hcur : t.curCmd = s.curCmd := by rw [← ht]
    have hissue : Matching.Fits cbw (if cbw.satInvalid dev ∨ cbw.satLen = 0 then .nothing
          else if cbw.satDir then .toHost (cbw.satSize dev) else .fromHost (cbw.satSize dev)) →
        Conforms dev (.data cbw 0) (if cbw.satInvalid dev then
          sendCommandFailedResult t senseIllegalRequest ascInvalidFieldInCbd 0
        else done (satIssue dev t cbw)) := by
      intro hf
      split
      · exact (sendCommandFailedResult_within hh hii _ _ _).1
      · rename_i hv
        have hiff : (cbw.satInvalid dev = true ∨ cbw.satLen = 0) ↔ cbw.satLen = 0 := by simp [hv]
        simp only [hiff] at hf
        exact (satIssue_conforms hh hii (by rw [hcur]; exact hdir) hf).done
    have hpend : ∀ p, SatReady t.curCmd (datasize t) p → Conforms dev (.data cbw 0) (satPend t p) :=
      fun p hp => (satPend_within hh hii.readBlocked hii.writeOverrun hii.worker hp).1
    cases hp : cbw.satProtocol <;> simp only [hp] at hm ⊢
    case hardReset => exact hpend .hrst trivial
    case softReset => exact hpend .srst trivial
    case returnResponse =>
      refine hpend .readCdb ⟨?_, ?_⟩
      · rw [hcur]
        exact hdir.trans hm.1
      · have := hm.2
        rw [hcur]
        omega
    all_goals exact hissue hm

end Execute

end Ums
end Freemyipod
