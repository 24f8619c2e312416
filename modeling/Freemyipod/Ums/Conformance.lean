import Freemyipod.Ums.Answered

/-!
# Ums.Conformance

Bulk-only transport over whole runs: `step_conforms` is one step, `answered_once` any run.

`Regular` says what the host and the USB controller do: wrappers with the right signature that match
their command, and transfers that complete in full. `Clear` excludes the four ways in which
disk mode leaves a wrapper without a status:

* WRITE BUFFER is accepted, but `handle_scsi` neither answers it nor continues it;
* a READ(10) at the end of the 32-bit sector numbers never finds its sectors in the read cache,
  where `readbuf_sector + bufsize` has wrapped;
* a block arrives while a read buffer is marked by a failed read at sector 0: `update_readcache`
  takes sector 0 to sector `2^32 - 1` for cached, and copies a negative length;
* a pass-through command has sent data to the drive, and the reply is sent as if it had read them.
-/

namespace Freemyipod
namespace Ums

variable {D : Type} {dev : StorageInfo} {s t : State D} {cbw : CommandBlockWrapper} {m : Nat}

def Regular (dev : StorageInfo) : Event D → Prop
  | .transmitted left => left = 0
  | .command cbw left => left = 0 ∧ cbw.signature = 0x43425355 ∧ Matching dev cbw
  | .data _ left => left = 0
  | .work _ => True

def Clear (dev : StorageInfo) (s : State D) : Event D → Prop
  | .transmitted _ => True
  | .command cbw _ => cbw.opcode ≠ .writeBuffer ∧
      (cbw.opcode = .read10 → Accepted dev cbw → cbw.lba + cbw.blocks + dev.bufsize ≤ 4294967296)
  | .data _ _ => s.state = .receivingBlocks → ∀ i, 0 ≤ (s.readSector i : Int) + s.readCount i
  | .work o => s.worker = .ata .cmd → s.curCmd.dataDirection = false → datasize s ≠ 0 →
      s.satCheck = false → ¬ (o.ok = true ∧ o.taskfile.command &&& 0x21 = 0)

/-! ## The completion handler -/

theorem execute_conforms (h : Held dev cbw 0 s) (hi : Idle s)
    (hdir : s.curCmd.dataDirection = cbw.dataIn) (hm : Matching dev cbw)
    (hbuf : cbw.opcode ≠ .writeBuffer)
    (hfits : cbw.opcode = .read10 → Accepted dev cbw →
      cbw.lba + cbw.blocks + dev.bufsize ≤ 4294967296) :
    Conforms dev (.data cbw 0) (execute dev s cbw) := by
  rw [Matching, moves] at hm
  rw [execute]
  cases hop : cbw.opcode <;> simp only [hop] at hm hbuf hfits ⊢
  case testUnitReady =>
    split
    · exact (sendCommandFailedResult_within h hi _ _ _).1.done
    · exact (sendCsw_within h hi 0).1.done
  case requestSense => exact (requestSense_conforms h hi hdir hm).done
  case inquiry => exact (sendReply_conforms h hi hdir _ hm (min_le_left _ _)).done
  case modeSense6 =>
    refine (modeSense_conforms h hi hdir _ fun hp => ?_).done
    rwa [if_pos hp] at hm
  case startStopUnit =>
    refine Conforms.done (sendCsw_within ?_ ?_ 0).1
    · exact ⟨h.cache, h.crashed, h.tx, h.rx, h.tag, h.account⟩
    · exact hi.congr rfl rfl rfl rfl
  case allowMediumRemoval =>
    refine Conforms.done (sendCsw_within ?_ ?_ 0).1
    · exact ⟨h.cache, h.crashed, h.tx, h.rx, h.tag, h.account⟩
    · exact hi.congr rfl rfl rfl rfl
  case readFormatCapacity => exact (sendMediumReply_conforms h hi hdir _ hm).done
  case readCapacity => exact (sendMediumReply_conforms h hi hdir _ hm).done
  case read10 =>
    refine (read10_conforms h hi hdir (fun hacc => ?_) (hfits trivial)).done
    rwa [if_pos hacc] at hm
  case write10 =>
    refine (write10_conforms h hi hdir fun hacc => ?_).done
    rwa [if_pos hacc] at hm
  case writeBuffer => exact absurd rfl hbuf
  case modeSense10 =>
    refine (modeSense_conforms h hi hdir _ fun hp => ?_).done
    rwa [if_pos hp] at hm
  case ataPassthrough16 => exact ataPassthrough_conforms h hi hdir hm
  case reportLuns => exact (sendReply_conforms h hi hdir _ hm le_rfl).done
  case ataPassthrough12 => exact ataPassthrough_conforms h hi hdir hm
  case other => exact (sendCommandFailedResult_within h hi _ _ _).1.done

theorem blockReceived_within (h : Held dev cbw m s) (hi : Idle s)
    (hw : Writes dev s.curCmd s.length) (hneg : ∀ i, 0 ≤ (s.readSector i : Int) + s.readCount i) :
    Within dev cbw m (2 * s.curCmd.count + 5) (blockReceived dev s) := by
  have hsize := hw.size_eq
  have hle : s.length / dev.sectorSize ≤ dev.bufsize := by
    rw [hsize, dev.min_bytes_div]
    exact min_le_left _ _
  have hfull : ¬ (s.length ≠ dev.sectorSize * s.curCmd.count ∧ s.length ≠ umsBufsize) := by
    rw [hsize, Nat.mul_comm dev.sectorSize]
    omega
  have hcr := updateReadcache_crashed h.cache hle hw.sector_lt hneg
  obtain ⟨buf, c, hframe⟩ := updateReadcache_frame dev s
  rw [hframe] at hcr
  change c = s.crashed at hcr
  simp only [blockReceived, if_neg hfull, hframe, hcr, h.crashed, Bool.false_eq_true, if_false]
  split
  · -- the worker still writes the block before
    constructor
    · exact .overrun rfl ⟨h.cache, rfl, h.tx, h.rx, h.tag, h.account⟩ hi.readBlocked rfl
        hi.satPending hi.worker hw rfl
    · simp [phaseWeight, enqueueAsync, h.tx, h.rx]
  · have hpush := writebufPush_within (s := { s with readBuf := buf, crashed := false })
      ⟨h.cache, rfl, h.tx, h.rx, h.tag, h.account⟩ (hi.congr rfl rfl rfl rfl) hw
    exact (hpush.mono (by simp)).enqueue

/-- A wrapper has arrived. -/
theorem handleScsi_conforms (hc : Cache dev s.readSector s.readCount s.worker)
    (hcr : s.crashed = false) (hi : Idle s) (htx : s.tx = none) (hrx : s.rx = none)
    (hr : cbw.signature = 0x43425355 ∧ Matching dev cbw) (hbuf : cbw.opcode ≠ .writeBuffer)
    (hfits : cbw.opcode = .read10 → Accepted dev cbw →
      cbw.lba + cbw.blocks + dev.bufsize ≤ 4294967296) :
    Conforms dev (.data cbw 0) (handleScsi dev s cbw) := by
  rw [handleScsi, if_neg (not_not_intro hr.1)]
  exact execute_conforms ⟨hc, hcr, htx, hrx, rfl, rfl⟩ (hi.congr rfl rfl rfl rfl) rfl hr.2 hbuf hfits

/-- A transmission of `cbw` has completed. -/
theorem transmitted_conforms {b : Bot} {tx : Tx} (h : Conforms dev b s) (htx : s.tx = some tx) :
    ∃ b', b.step (tx.signal 0 : Signal D) = some b' ∧
      Conforms dev b' (inComplete dev { shorten s 0 with tx := none }) ∧
      phaseWeight (inComplete dev { shorten s 0 with tx := none }) < phaseWeight s := by
  cases h with
  | passive hc hcr hi hp =>
    cases hp with
    | listening _ _ h => exact absurd htx (by simp [h])
    | receiving _ _ h => exact absurd htx (by simp [h])
    | satReceiving _ _ h => exact absurd htx (by simp [h])
    | @status cbw m residue st hb hs h hrx ha =>
      rw [h] at htx
      cases htx
      refine ⟨.waiting, ?_, ?_, ?_⟩
      · simp [hb, Tx.signal, Bot.step, ha]
      · simp only [inComplete, shorten, hs]
        exact .passive hc hcr (hi.congr rfl rfl rfl rfl) (.listening rfl rfl rfl rfl)
      · simp [inComplete, shorten, hs, phaseWeight, listen, h]
    | @replying cbw m size t hb hs h ht hrx htag ha =>
      rw [h] at htx
      cases htx
      have hh : Held dev cbw (m + size) { shorten s 0 with tx := none } :=
        ⟨hc, hcr, rfl, hrx, htag, ha⟩
      have hcsw := sendCsw_within hh (hi.congr rfl rfl rfl rfl) 0
      have he : inComplete dev { shorten s 0 with tx := none } =
          sendCsw { shorten s 0 with tx := none } 0 := by
        simp [inComplete, shorten, hs]
      rw [he]
      cases ht' : tx with
      | csw _ _ _ => rw [ht'] at ht; exact absurd ht id
      | blocks _ _ _ => rw [ht'] at ht; exact absurd ht id
      | result d n =>
        rw [ht'] at ht h
        cases ht
        refine ⟨_, by rw [hb]; rfl, hcsw.1, lt_of_le_of_lt hcsw.2 ?_⟩
        simp [phaseWeight, h]
      | sat i n =>
        rw [ht'] at ht h
        cases ht
        refine ⟨_, by rw [hb]; rfl, hcsw.1, lt_of_le_of_lt hcsw.2 ?_⟩
        simp [phaseWeight, h]
    | @sending cbw m size offset i hb hs h hrx htag ha hreads =>
      rw [h] at htx
      cases htx
      have hh : Held dev cbw (m + size) { shorten s 0 with tx := none } :=
        ⟨hc, hcr, rfl, hrx, htag, ha⟩
      have hw : phaseWeight s = 2 * s.curCmd.count + 6 := by simp [phaseWeight, h]
      have he : inComplete dev { shorten s 0 with tx := none } =
          if s.curCmd.count = 0 then sendCsw { shorten s 0 with tx := none } 0
          else sendAndReadNext dev { shorten s 0 with tx := none } := by
        simp [inComplete, shorten, hs]
      rw [he, hw]
      split
      · have hcsw := sendCsw_within hh (hi.congr rfl rfl rfl rfl) 0
        exact ⟨_, by rw [hb]; rfl, hcsw.1, lt_of_le_of_lt hcsw.2 (by omega)⟩
      · rename_i hne
        have hnext := sendAndReadNext_within hh (hi.congr rfl rfl rfl rfl) hreads
          (Nat.pos_of_ne_zero hne)
        exact ⟨_, by rw [hb]; rfl, hnext.1, Nat.lt_succ_of_le hnext.2⟩
  | blocked _ h => exact absurd htx (by simp [h.tx])
  | overrun _ h => exact absurd htx (by simp [h.tx])
  | satPending _ h => exact absurd htx (by simp [h.tx])
  | satRunning _ h => exact absurd htx (by simp [h.tx])

theorem Passive.congr {b : Bot} {st st' : Phase} {tx tx' : Option Tx} {rx rx' : Option Rx}
    {c c' : CurCmd} {l l' : Nat} (h : Passive dev b st tx rx c l) (h1 : st' = st) (h2 : tx' = tx)
    (h3 : rx' = rx) (h4 : c' = c) (h5 : l' = l) : Passive dev b st' tx' rx' c' l' := by
  subst h1 h2 h3 h4 h5
  exact h

/-- Data of `cbw` have been received. -/
theorem receive_conforms {b : Bot} {d : Nat → D} {o : Signal D} (h : Conforms dev b s)
    (hneg : s.state = .receivingBlocks → ∀ i, 0 ≤ (s.readSector i : Int) + s.readCount i)
    (hs : receive dev s d 0 = some (t, o)) :
    ∃ b', b.step o = some b' ∧ Conforms dev b' t ∧ phaseWeight t < phaseWeight s := by
  have hlen : ∀ l : Nat, l < 4294967296 → u32 ((l : Int) - (0 : Nat)) = l := by
    intro l hl
    simp only [u32]
    omega
  cases h with
  | passive hc hcr hi hp =>
    cases hp with
    | listening _ _ _ h => simp [receive, h] at hs
    | status _ _ _ h => simp [receive, h] at hs
    | replying _ _ _ _ h => simp [receive, h] at hs
    | sending _ _ _ h => simp [receive, h] at hs
    | @receiving cbw m size i hb hst htx h htag ha hl hw =>
      simp only [receive, h] at hs
      generalize hbuf : Function.update s.writeBuf i _ = buf at hs
      cases hs
      have hlt : s.length < 4294967296 := by
        have := hw.size_eq
        have h2 : umsBufsize = 65536 := rfl
        omega
      have hh : Held dev cbw (m + size) { shorten s 0 with rx := none, writeBuf := buf } :=
        ⟨hc, hcr, htx, rfl, htag, ha⟩
      have hw' : Writes dev s.curCmd (u32 ((s.length : Int) - (0 : Nat))) := by
        rw [hlen _ hlt, hl]
        exact hw
      have hblock := blockReceived_within hh (hi.congr rfl rfl rfl rfl) hw' (hneg hst)
      have he : outComplete dev { shorten s 0 with rx := none, writeBuf := buf } =
          blockReceived dev { shorten s 0 with rx := none, writeBuf := buf } := by
        simp [outComplete, shorten, hst]
      rw [he]
      refine ⟨_, by rw [hb]; rfl, hblock.1, lt_of_le_of_lt hblock.2 ?_⟩
      simp [phaseWeight, h, htx, shorten]
    | @satReceiving cbw m size i hb hst htx h htag ha hdir =>
      simp only [receive, h] at hs
      generalize hbuf : Function.update s.readBuf i _ = buf at hs
      cases hs
      have hh : Held dev cbw (m + size)
          { shorten s 0 with rx := none, readBuf := buf, state := .processing } :=
        ⟨hc, hcr, htx, rfl, htag, ha⟩
      have hpend := satPend_within hh hi.readBlocked hi.writeOverrun hi.worker (p := .cmd)
        (fun h' => absurd (hdir.symm.trans h') Bool.false_ne_true)
      have he : outComplete dev { shorten s 0 with rx := none, readBuf := buf } =
          satPend { shorten s 0 with rx := none, readBuf := buf, state := .processing } .cmd := by
        simp [outComplete, shorten, hst]
      rw [he]
      refine ⟨_, by rw [hb]; rfl, hpend.1, lt_of_le_of_lt hpend.2 ?_⟩
      simp [phaseWeight, h, htx]
  | blocked _ h => simp [receive, h.rx] at hs
  | overrun _ h => simp [receive, h.rx] at hs
  | satPending _ h => simp [receive, h.rx] at hs
  | satRunning _ h => simp [receive, h.rx] at hs

/-! ## The worker -/

/-- A step of the worker that leaves the command alone. -/
structure Quiet (s t : State D) : Prop where
  state : t.state = s.state
  tx : t.tx = s.tx
  rx : t.rx = s.rx
  curCmd : t.curCmd = s.curCmd
  length : t.length = s.length
  satPending : t.satPending = s.satPending
  satCommand : t.satCommand = s.satCommand
  readBlocked : t.readBlocked = s.readBlocked
  writeOverrun : t.writeOverrun = s.writeOverrun
  crashed : t.crashed = s.crashed
  readCurrent : t.readCurrent = s.readCurrent
  readSector : t.readSector = s.readSector

theorem Quiet.phaseWeight (h : Quiet s t) : phaseWeight t = phaseWeight s := by
  simp only [Ums.phaseWeight, h.tx, h.rx, h.curCmd, h.readBlocked, h.writeOverrun]

theorem Quiet.held (h : Quiet s t) (hc : Cache dev t.readSector t.readCount t.worker)
    (hs : Held dev cbw m s) : Held dev cbw m t := by
  refine ⟨hc, h.crashed.trans hs.crashed, h.tx.trans hs.tx, h.rx.trans hs.rx, ?_, ?_⟩
  · rw [h.curCmd]
    exact hs.tag
  · rw [h.curCmd]
    exact hs.account

theorem Quiet.readHit (h : Quiet s t) (i : Bool) : readHit dev t i = readHit dev s i := by
  simp only [Ums.readHit, h.readSector, h.curCmd]

theorem Quiet.datasize (h : Quiet s t) : datasize t = datasize s := by
  simp only [Ums.datasize, h.satCommand]

/-- As long as the worker, or a wakeup for it, is still to come by, a quiet step changes nothing. -/
theorem Quiet.conforms {b : Bot} (h : Quiet s t) (hs : Conforms dev b s)
    (hc : Cache dev t.readSector t.readCount t.worker) (hw : ∀ p, s.worker ≠ .ata p)
    (hw' : ∀ p, t.worker ≠ .ata p)
    (hblocked : s.readBlocked = true → t.wakeup = true ∨ 3 ≤ t.worker.rank)
    (hoverrun : s.writeOverrun = true → t.wakeup = true)
    (hsat : s.satPending ≠ .none → t.wakeup = true ∨ 2 ≤ t.worker.rank) : Conforms dev b t := by
  cases hs with
  | passive hc' hcr hi hp =>
    exact .passive hc (h.crashed.trans hcr)
      ⟨h.readBlocked.trans hi.readBlocked, h.writeOverrun.trans hi.writeOverrun,
        h.satPending.trans hi.satPending, hw'⟩
      (hp.congr h.state h.tx h.rx h.curCmd h.length)
  | blocked hb hh h1 h2 h3 h4 h5 h6 h7 h8 h9 =>
    refine .blocked hb (h.held hc hh) (h.readBlocked.trans h1) (h.writeOverrun.trans h2)
      (h.satPending.trans h3) hw' (h.curCmd ▸ h5) (h.curCmd ▸ h6) ?_ ?_ (hblocked h1)
    · rw [h.readHit, h.readCurrent]
      exact h7
    · rw [h.readHit, h.readCurrent]
      exact h8
  | overrun hb hh h1 h2 h3 h4 h5 h6 =>
    refine .overrun hb (h.held hc hh) (h.readBlocked.trans h1) (h.writeOverrun.trans h2)
      (h.satPending.trans h3) hw' ?_ (hoverrun h2)
    rw [h.curCmd, h.length]
    exact h5
  | satPending hb hh h1 h2 h3 h4 h5 =>
    refine .satPending hb (h.held hc hh) (h.readBlocked.trans h1) (h.writeOverrun.trans h2) hw' ?_
      (hsat fun he => ?_)
    · rw [h.curCmd, h.datasize, h.satPending]
      exact h4
    · rw [he] at h4
      exact h4
  | satRunning hb hh h1 h2 h3 => exact absurd h3 (hw _)

theorem Conforms.cache {b : Bot} (h : Conforms dev b s) :
    Cache dev s.readSector s.readCount s.worker := by
  cases h with
  | passive hc => exact hc
  | blocked _ hh => exact hh.cache
  | overrun _ hh => exact hh.cache
  | satPending _ hh => exact hh.cache
  | satRunning _ hh => exact hh.cache

theorem Conforms.crashed {b : Bot} (h : Conforms dev b s) : s.crashed = false := by
  cases h with
  | passive _ hcr => exact hcr
  | blocked _ hh => exact hh.crashed
  | overrun _ hh => exact hh.crashed
  | satPending _ hh => exact hh.crashed
  | satRunning _ hh => exact hh.crashed

theorem Conforms.overrun_wakeup {b : Bot} (h : Conforms dev b s) (ho : s.writeOverrun = true) :
    s.wakeup = true := by
  cases h with
  | overrun _ _ _ _ _ _ _ hwake => exact hwake
  | passive _ _ hi => exact absurd (hi.writeOverrun.symm.trans ho) Bool.false_ne_true
  | blocked _ _ _ h => exact absurd (h.symm.trans ho) Bool.false_ne_true
  | satPending _ _ _ h => exact absurd (h.symm.trans ho) Bool.false_ne_true
  | satRunning _ _ _ h => exact absurd (h.symm.trans ho) Bool.false_ne_true

theorem workerWeight_lt (hrank : t.worker.rank < s.worker.rank)
    (hwake : t.wakeup = true → s.wakeup = true) (hretry : Retry t → Retry s) :
    workerWeight t < workerWeight s := by
  simp only [workerWeight]
  by_cases ht : Retry t
  · rw [if_pos ht, if_pos (hretry ht)]
    omega
  · rw [if_neg ht]
    split
    · rename_i hw
      split
      · omega
      · rw [if_pos (hwake hw)]
        omega
    · omega

theorem Quiet.remaining_lt (h : Quiet s t) (hw : workerWeight t < workerWeight s) :
    remaining t < remaining s := by
  simp only [remaining, h.phaseWeight]
  omega

theorem not_retry (h : ∀ c b n, s.worker ≠ .reading c b n) (h' : s.worker ≠ .blocked) :
    ¬ Retry s := by
  rintro ⟨_, hr⟩
  cases hw : s.worker <;> simp only [hw] at hr
  · exact h _ _ _ hw
  · exact h' hw

/-- The worker between `if (writebuf_busy)` and the end of its read of the medium. -/
theorem work_quiet {o : Outcome D} (hc : Cache dev s.readSector s.readCount s.worker)
    (hr : 4 ≤ s.worker.rank) (h : work dev s o = some t) :
    Quiet s t ∧ Cache dev t.readSector t.readCount t.worker ∧ t.wakeup = s.wakeup ∧
      3 ≤ t.worker.rank ∧ t.worker.rank < s.worker.rank ∧ (Retry t → Retry s) := by
  cases hw : s.worker with
  | waiting => simp [hw, Worker.rank] at hr
  | blocked => simp [hw, Worker.rank] at hr
  | sat => simp [hw, Worker.rank] at hr
  | ata p => simp [hw, Worker.rank] at hr
  | write =>
    simp only [work, hw, Option.some.injEq] at h
    subst h
    have hnot : ∀ w : Worker, (w = .writing ∨ w = .cache) →
        (∀ c b n, w ≠ .reading c b n) ∧ w ≠ .blocked ∧ 3 ≤ w.rank ∧ w.rank < 7 := by
      rintro w (rfl | rfl) <;> simp [Worker.rank]
    have hnext := hnot (if s.writeBusy then .writing else .cache) (by split <;> simp)
    exact ⟨⟨rfl, rfl, rfl, rfl, rfl, rfl, rfl, rfl, rfl, rfl, rfl, rfl⟩,
      hc.of_worker hnext.1, rfl, hnext.2.2.1, hnext.2.2.2,
      fun h => absurd h (not_retry hnext.1 hnext.2.1)⟩
  | writing =>
    simp only [work, hw, Option.some.injEq] at h
    subst h
    exact ⟨⟨rfl, rfl, rfl, rfl, rfl, rfl, rfl, rfl, rfl, rfl, rfl, rfl⟩,
      hc.of_worker (fun _ _ _ h => by cases h), rfl, by simp [Worker.rank, written],
      by simp [Worker.rank, written],
      fun h => absurd h (not_retry (fun _ _ _ h => by cases h) (fun h => by cases h))⟩
  | cache =>
    simp only [work, hw, Option.some.injEq] at h
    subst h
    by_cases hz : s.readCount s.readCurrent = 0
    · simp only [hz, if_true]
      refine ⟨⟨rfl, rfl, rfl, rfl, rfl, rfl, rfl, rfl, rfl, rfl, rfl, rfl⟩,
        ⟨hc.sector_lt, hc.count_eq, ?_⟩, trivial, by simp [Worker.rank], by simp [Worker.rank], ?_⟩
      · rintro c b n he
        cases he
        exact hc.fill_eq _
      · rintro ⟨_, hr⟩
        exact absurd ⟨rfl, rfl⟩ hr
    · simp only [hz, if_false]
      refine ⟨⟨rfl, rfl, rfl, rfl, rfl, rfl, rfl, rfl, rfl, rfl, rfl, rfl⟩,
        hc.of_worker (fun _ _ _ h => by cases h), trivial, by simp [Worker.rank],
        by simp [Worker.rank], ?_⟩
      rintro ⟨_, hr⟩
      exact absurd hr hz
  | reading c b n =>
    simp only [work, hw, Option.some.injEq] at h
    subst h
    rw [hw] at hc
    have hn := hc.reading c b n rfl
    refine ⟨⟨rfl, rfl, rfl, rfl, rfl, rfl, rfl, rfl, rfl, rfl, rfl, rfl⟩,
      hc.done (fun _ _ _ h => by cases h), rfl, by simp [Worker.rank, readDone],
      by simp [Worker.rank, readDone], ?_⟩
    -- the read that the command waits for leaves its mark
    rintro ⟨hb, hr⟩
    refine ⟨hb, ?_⟩
    simp only [hw]
    rintro ⟨rfl, rfl⟩
    have hlt := hc.sector_lt s.readCurrent
    have hge := dev.bufsize_ge
    have hle := dev.bufsize_le
    simp only [readDone, Function.update_self, if_true] at hr
    rw [Cache.s8_count (by omega)] at hr
    split at hr <;> omega

theorem unblock_conforms {b : Bot} (h : Conforms dev b s) (hw : s.worker = .blocked) :
    Conforms dev b (unblock dev { s with worker := .sat }) ∧
      remaining (unblock dev { s with worker := .sat }) < remaining s := by
  have hq : Quiet s { s with worker := .sat } :=
    ⟨rfl, rfl, rfl, rfl, rfl, rfl, rfl, rfl, rfl, rfl, rfl, rfl⟩
  have hns : ¬ Retry { s with worker := .sat } :=
    not_retry (fun _ _ _ h => by cases h) (fun h => by cases h)
  have hrank : s.worker.rank = 3 := by rw [hw]; rfl
  by_cases hb : s.readBlocked = true
  case neg =>
    have he : unblock dev { s with worker := .sat } = { s with worker := .sat } := by
      simp [unblock, hb]
    rw [he]
    refine ⟨?_, hq.remaining_lt (workerWeight_lt (by rw [hrank]; exact Nat.lt_succ_self 2) id
      (fun h => absurd h hns))⟩
    exact hq.conforms h (h.cache.of_worker (fun _ _ _ h => by cases h))
      (by rw [hw]; exact fun _ h => by cases h) (fun _ h => by cases h)
      (fun h => absurd h hb) h.overrun_wakeup (fun _ => Or.inr (le_refl 2))
  case pos =>
    cases h with
    | passive _ _ hi => exact absurd (hi.readBlocked.symm.trans hb) Bool.false_ne_true
    | overrun _ _ h => exact absurd (h.symm.trans hb) Bool.false_ne_true
    | satPending _ _ h => exact absurd (h.symm.trans hb) Bool.false_ne_true
    | satRunning _ _ h => exact absurd (h.symm.trans hb) Bool.false_ne_true
    | @blocked cbw m hbot hh h1 h2 h3 h4 h5 h6 h7 h8 h9 =>
      subst hbot
      have hc := hh.cache.of_worker (v := .sat) (fun _ _ _ h => by cases h)
      have hh' : Held dev cbw m { s with readBlocked := false, worker := .sat } :=
        ⟨hc, hh.crashed, hh.tx, hh.rx, hh.tag, hh.account⟩
      have hi' : Idle { s with readBlocked := false, worker := .sat } :=
        ⟨rfl, h2, h3, fun _ h => by cases h⟩
      have hpw : phaseWeight s = 2 * s.curCmd.count + 5 := by
        simp [phaseWeight, hh.tx, hh.rx, h1]
      simp only [unblock, hb, if_true]
      split
      · have hfail := sendCommandFailedResult_within hh' hi' senseMediumError ascReadError 0
        exact ⟨hfail.1, remaining_lt (lt_of_le_of_lt hfail.2 (by omega))⟩
      · rename_i hneg
        have hnext := sendAndReadNext_within hh' hi' h5 h6
        refine ⟨hnext.1, ?_⟩
        by_cases hz : s.readCount s.readCurrent = 0
        · -- the buffer of the command has not been read yet: the next round of the worker does it
          have hretry : Retry s := ⟨h1, by simp only [hw]; exact hz⟩
          generalize ht : sendAndReadNext dev { s with readBlocked := false, worker := .sat } = t
          have htw : t.worker = .sat := by
            rw [← ht]
            exact sendAndReadNext_worker
          have hnt : ¬ Retry t :=
            not_retry (fun _ _ _ h => by simp [htw] at h) (fun h => by simp [htw] at h)
          have hp : phaseWeight t ≤ phaseWeight s := by
            rw [hpw, ← ht]
            exact hnext.2
          have hwt : workerWeight t ≤ 10 := by
            simp only [workerWeight, if_neg hnt, htw, Worker.rank]
            split <;> omega
          have hws : workerWeight s = 19 := by
            simp only [workerWeight, if_pos hretry, hrank]
          simp only [remaining]
          omega
        · have hhit := (readHit_iff h5 h6 hh.cache s.readCurrent).1 h7
          have htop := hh.cache.top_eq (i := s.readCurrent) (by omega)
          have hcount := hh.cache.count_eq s.readCurrent
          have hr1 := h5.in_range
          have hlt : s.curCmd.sector < readTop s s.readCurrent := by
            have : (readTop s s.readCurrent : Int) = s.readSector s.readCurrent +
              s.readCount s.readCurrent := htop
            omega
          have hsent := sendFrom_within hh' hi' h5 h6 (i := s.readCurrent) hlt
          rw [sendAndReadNext_of_hit (s := { s with readBlocked := false, worker := .sat })
            (i := s.readCurrent) h7 h8]
          exact remaining_lt (lt_of_le_of_lt hsent.2 (by rw [hpw]; exact Nat.lt_succ_self _))

/-- A call of the ATA driver has come back. -/
theorem finishAta_within {o : Outcome D} {p : SatPending} (h : Held dev cbw m s)
    (hb : s.readBlocked = false) (ho : s.writeOverrun = false) (hw : ∀ p, s.worker ≠ .ata p)
    (hr : SatReady s.curCmd (datasize s) p) (hn : p = .srst ∨ p = .hrst → s.satPending = .none)
    (hclear : p = .cmd → s.curCmd.dataDirection = false → datasize s ≠ 0 → s.satCheck = false →
      ¬ (o.ok = true ∧ o.taskfile.command &&& 0x21 = 0)) :
    Within dev cbw m 2 (finishAta s p o) := by
  have hreset : s.satPending = .none → Within dev cbw m 2 (finishReset s o) := by
    intro hp
    rw [finishReset]
    split
    · exact (sendCommandFailedResult_within h ⟨hb, ho, hp, hw⟩ _ _ _).mono (by omega)
    · exact (sendCsw_within h ⟨hb, ho, hp, hw⟩ 0).mono (by omega)
  cases p with
  | none => exact absurd hr id
  | srst => exact hreset (hn (Or.inl rfl))
  | hrst => exact hreset (hn (Or.inr rfl))
  | readCdb =>
    generalize ht : { s with
      satCommand := { s.satCommand with taskfile := o.taskfile }
      satResponse := { s.satCommand with taskfile := o.taskfile }
      satPending := .none } = t
    have hh : Held dev cbw m t := by
      subst ht
      exact ⟨h.cache, h.crashed, h.tx, h.rx, h.tag, h.account⟩
    have hi : Idle t := by
      subst ht
      exact ⟨hb, ho, rfl, hw⟩
    have hcur : t.curCmd = s.curCmd := by rw [← ht]
    simp only [finishAta, finishReadCdb, ht]
    split
    · exact (sendCommandFailedResult_within hh hi _ _ _).mono (by omega)
    · exact sendCommandResult_within hh hi (d := Tx.result _) rfl (hcur ▸ hr.1) (hcur ▸ hr.2)
  | cmd =>
    generalize ht : { s with
      readBuf := Function.update s.readBuf s.satCommand.buffer o.data
      satCommand := { s.satCommand with taskfile := o.taskfile }
      satResponse := { s.satCommand with taskfile := o.taskfile }
      haveSatResponse := true
      satPending := .none } = t
    have hh : Held dev cbw m t := by
      subst ht
      exact ⟨h.cache, h.crashed, h.tx, h.rx, h.tag, h.account⟩
    have hi : Idle t := by
      subst ht
      exact ⟨hb, ho, rfl, hw⟩
    have hcur : t.curCmd = s.curCmd := by rw [← ht]
    have hsize : datasize { s with
        readBuf := Function.update s.readBuf s.satCommand.buffer o.data } = datasize s := rfl
    simp only [finishAta, finishCmd, ht, hsize]
    split
    · exact (sendCommandFailedResult_within hh hi _ _ _).mono (by omega)
    · rename_i hgood
      split
      · exact (sendCommandFailedResult_within hh hi _ _ _).mono (by omega)
      · rename_i hnocheck
        split
        · rename_i hdata
          have hgood' : o.ok = true ∧ o.taskfile.command &&& 0x21 = 0 := by simpa using hgood
          have hdir : s.curCmd.dataDirection = true := by
            cases hd : s.curCmd.dataDirection with
            | true => rfl
            | false =>
              exact absurd hgood' (hclear rfl hd hdata (by simpa using hnocheck))
          refine sendCommandResult_within hh hi (d := Tx.sat _) rfl (hcur ▸ hdir) ?_
          rw [hcur]
          exact hr hdir
        · exact (sendCsw_within hh hi 0).mono (by omega)

theorem wake_conforms {b : Bot} (h : Conforms dev b s) (hw : s.worker = .waiting)
    (hwake : s.wakeup = true) :
    Conforms dev b (pushOverrun dev { s with wakeup := false, worker := .write }) ∧
      remaining (pushOverrun dev { s with wakeup := false, worker := .write }) < remaining s := by
  have hc := h.cache.of_worker (v := .write) (fun _ _ _ h => by cases h)
  by_cases ho : s.writeOverrun = true
  · cases h with
    | passive _ _ hi => exact absurd (hi.writeOverrun.symm.trans ho) Bool.false_ne_true
    | blocked _ _ _ h => exact absurd (h.symm.trans ho) Bool.false_ne_true
    | satPending _ _ _ h => exact absurd (h.symm.trans ho) Bool.false_ne_true
    | satRunning _ _ _ h => exact absurd (h.symm.trans ho) Bool.false_ne_true
    | @overrun cbw m hb hh h1 h2 h3 h4 h5 h6 =>
      subst hb
      have hpush := writebufPush_within
        (s := { s with wakeup := false, worker := .write, writeOverrun := false })
        ⟨hc, hh.crashed, hh.tx, hh.rx, hh.tag, hh.account⟩ ⟨h1, rfl, h3, fun _ h => by cases h⟩ h5
      have hpw : phaseWeight s = 2 * s.curCmd.count + 5 := by
        simp [phaseWeight, hh.tx, hh.rx, h2]
      simp only [pushOverrun, ho, if_true]
      refine ⟨hpush.1, remaining_lt (lt_of_le_of_lt hpush.2 ?_)⟩
      rw [hpw]
      exact Nat.lt_succ_self _
  · have hq : Quiet s { s with wakeup := false, worker := .write } :=
      ⟨rfl, rfl, rfl, rfl, rfl, rfl, rfl, rfl, rfl, rfl, rfl, rfl⟩
    simp only [pushOverrun, if_neg ho]
    refine ⟨hq.conforms h hc (by rw [hw]; exact fun _ h => by cases h) (fun _ h => by cases h)
      (fun _ => Or.inr (by simp [Worker.rank])) (fun h => absurd h ho)
      (fun _ => Or.inr (by simp [Worker.rank])), hq.remaining_lt ?_⟩
    have h1 : ¬ Retry s :=
      not_retry (by rw [hw]; exact fun _ _ _ h => by cases h) (by rw [hw]; exact fun h => by cases h)
    have h2 : ¬ Retry { s with wakeup := false, worker := .write } :=
      not_retry (fun _ _ _ h => by cases h) (fun h => by cases h)
    simp [workerWeight, h1, h2, hw, hwake, Worker.rank]

/-- The worker at `switch (sat_pending)`. -/
theorem sat_conforms {b : Bot} {o : Outcome D} (h : Conforms dev b s) (hw : s.worker = .sat)
    (hs : work dev s o = some t) : Conforms dev b t ∧ remaining t < remaining s := by
  have hns : ¬ Retry s :=
    not_retry (by rw [hw]; exact fun _ _ _ h => by cases h) (by rw [hw]; exact fun h => by cases h)
  have hrank : s.worker.rank = 2 := by rw [hw]; rfl
  by_cases hp : s.satPending = .none
  · have ht : t = { s with worker := .waiting } := by simpa [work, hw, hp] using hs.symm
    have hq : Quiet s t := by
      subst ht
      exact ⟨rfl, rfl, rfl, rfl, rfl, rfl, rfl, rfl, rfl, rfl, rfl, rfl⟩
    have htw : t.worker = .waiting := by rw [ht]
    have hwake : t.wakeup = s.wakeup := by rw [ht]
    have hc : Cache dev t.readSector t.readCount t.worker := by
      subst ht
      exact h.cache.of_worker (fun _ _ _ h => by cases h)
    have hnt : ¬ Retry t := not_retry (fun _ _ _ h => by simp [htw] at h) (by simp [htw])
    refine ⟨hq.conforms h hc (by simp [hw]) (by simp [htw]) (fun hb => Or.inl ?_)
      (fun ho => hwake.trans (h.overrun_wakeup ho)) (fun h => absurd hp h), hq.remaining_lt
      (workerWeight_lt (by rw [hrank, htw]; exact Nat.zero_lt_two) (fun h => hwake ▸ h)
        (fun h => absurd h hnt))⟩
    cases h with
    | passive _ _ hi => exact absurd (hi.readBlocked.symm.trans hb) Bool.false_ne_true
    | overrun _ _ h => exact absurd (h.symm.trans hb) Bool.false_ne_true
    | satPending _ _ h => exact absurd (h.symm.trans hb) Bool.false_ne_true
    | satRunning _ _ h => exact absurd (h.symm.trans hb) Bool.false_ne_true
    | blocked _ _ _ _ _ _ _ _ _ _ hdue =>
      rw [hrank] at hdue
      exact hwake.trans (hdue.resolve_right (by omega))
  · cases h with
    | passive _ _ hi => exact absurd hi.satPending hp
    | blocked _ _ _ _ h => exact absurd h hp
    | overrun _ _ _ _ h => exact absurd h hp
    | satRunning _ _ _ _ h => exact absurd (hw.symm.trans h) (fun h => by cases h)
    | @satPending cbw m hb hh h1 h2 h3 h4 h5 =>
      generalize hp' : s.satPending = p at *
      have ht : t = { s with
          satPending := if p = .srst ∨ p = .hrst then .none else p, worker := .ata p } := by
        cases p with
        | none => exact absurd rfl hp
        | srst => simpa [work, hw, hp'] using hs.symm
        | hrst => simpa [work, hw, hp'] using hs.symm
        | cmd => simpa [work, hw, hp'] using hs.symm
        | readCdb => simpa [work, hw, hp'] using hs.symm
      have hc := hh.cache.of_worker (v := .ata p) (fun _ _ _ h => by cases h)
      have hnt : ¬ Retry t := by
        rw [ht]
        exact not_retry (fun _ _ _ h => by cases h) (fun h => by cases h)
      have hpw : phaseWeight t = phaseWeight s := by
        rw [ht]
        rfl
      refine ⟨?_, ?_⟩
      · subst ht
        exact .satRunning hb ⟨hc, hh.crashed, hh.tx, hh.rx, hh.tag, hh.account⟩ h1 h2 rfl h4
          (fun hreset => if_pos hreset)
      · have hlt := workerWeight_lt (s := s) (t := t) (by rw [hrank, ht]; exact Nat.lt_succ_self 1)
          (fun h => by rw [ht] at h; exact h) (fun h => absurd h hnt)
        simp only [remaining, hpw]
        omega

theorem work_conforms {b : Bot} {o : Outcome D} (h : Conforms dev b s)
    (hclear : Clear dev s (.work o)) (hs : work dev s o = some t) :
    Conforms dev b t ∧ remaining t < remaining s := by
  by_cases hr : 4 ≤ s.worker.rank
  · obtain ⟨hq, hc, hwake, h3, hlt, hretry⟩ := work_quiet h.cache hr hs
    have hata : ∀ w : Worker, 3 ≤ w.rank → ∀ p, w ≠ .ata p := by
      rintro w hw p rfl
      simp [Worker.rank] at hw
    exact ⟨hq.conforms h hc (hata _ (by omega)) (hata _ h3) (fun _ => Or.inr h3)
      (fun ho => hwake.trans (h.overrun_wakeup ho)) (fun _ => Or.inr (by omega)),
      hq.remaining_lt (workerWeight_lt hlt (fun h => hwake ▸ h) hretry)⟩
  · cases hw : s.worker with
    | write => simp [hw, Worker.rank] at hr
    | writing => simp [hw, Worker.rank] at hr
    | cache => simp [hw, Worker.rank] at hr
    | reading c b n => simp [hw, Worker.rank] at hr
    | waiting =>
      simp only [work, hw] at hs
      split at hs
      · rename_i hwake
        cases hs
        exact wake_conforms h hw hwake
      · cases hs
    | blocked =>
      simp only [work, hw, Option.some.injEq] at hs
      subst hs
      exact unblock_conforms h hw
    | sat => exact sat_conforms h hw hs
    | ata p =>
      simp only [work, hw, Option.some.injEq] at hs
      subst hs
      cases h with
      | passive _ _ hi => exact absurd hw (hi.worker p)
      | blocked _ _ _ _ _ h => exact absurd hw (h p)
      | overrun _ _ _ _ _ h => exact absurd hw (h p)
      | satPending _ _ _ _ h => exact absurd hw (h p)
      | @satRunning cbw m q hb hh h1 h2 h3 h4 h5 =>
        subst hb
        obtain rfl : p = q := by
          rw [hw] at h3
          cases h3
          rfl
        have hfin := finishAta_within (s := { s with worker := .waiting }) (o := o) (p := p)
          ⟨hh.cache.of_worker (fun _ _ _ h => by cases h), hh.crashed, hh.tx, hh.rx, hh.tag,
            hh.account⟩ h1 h2 (fun _ h => by cases h) h4 h5
          (fun hp => hclear (by rw [hw, hp]))
        have hpw : phaseWeight s = 3 := by simp [phaseWeight, hh.tx, hh.rx, h1, h2]
        exact ⟨hfin.1, remaining_lt (lt_of_le_of_lt hfin.2 (by omega))⟩

/-! ## Runs -/

theorem step_conforms {b : Bot} {e : Event D} {o : Signal D} (h : Conforms dev b s)
    (hr : Regular dev e) (hc : Clear dev s e) (hs : step dev s e = some (t, o)) :
    ∃ b', b.step o = some b' ∧ Conforms dev b' t ∧
      ((∃ cbw, o = .command cbw ∧ b = .waiting) ∨ remaining t < remaining s) := by
  have hcr : ¬ s.crashed = true := by simp [h.crashed]
  unfold step at hs
  rw [if_neg hcr] at hs
  cases e with
  | transmitted left =>
    obtain rfl : left = 0 := hr
    obtain ⟨tx, htx, he⟩ := Option.map_eq_some_iff.1 hs
    cases he
    obtain ⟨b', h1, h2, h3⟩ := transmitted_conforms h htx
    exact ⟨b', h1, h2, Or.inr (remaining_lt h3)⟩
  | command cbw left =>
    simp only at hs
    split at hs
    · rename_i hrx
      cases hs
      cases h with
      | blocked _ h => exact absurd hrx (by simp [h.rx])
      | overrun _ h => exact absurd hrx (by simp [h.rx])
      | satPending _ h => exact absurd hrx (by simp [h.rx])
      | satRunning _ h => exact absurd hrx (by simp [h.rx])
      | passive hcache hcr hi hp =>
        cases hp with
        | status _ _ _ h => exact absurd hrx (by simp [h])
        | replying _ _ _ _ h => exact absurd hrx (by simp [h])
        | sending _ _ _ h => exact absurd hrx (by simp [h])
        | receiving _ _ _ h => exact absurd hrx (by simp [h])
        | satReceiving _ _ _ h => exact absurd hrx (by simp [h])
        | listening hb hst htx _ =>
          refine ⟨.data cbw 0, by rw [hb]; rfl, ?_, Or.inl ⟨cbw, rfl, hb⟩⟩
          have he : outComplete dev { shorten s left with rx := none, cmdbuf := cbw } =
              handleScsi dev
                { shorten s left with rx := none, cmdbuf := cbw, state := .processing } cbw := by
            simp [outComplete, shorten, hst]
          rw [he]
          exact handleScsi_conforms hcache hcr (hi.congr rfl rfl rfl rfl) htx rfl hr.2 hc.1 hc.2
    · cases hs
  | data d left =>
    obtain rfl : left = 0 := hr
    obtain ⟨b', h1, h2, h3⟩ := receive_conforms h hc hs
    exact ⟨b', h1, h2, Or.inr (remaining_lt h3)⟩
  | work o' =>
    obtain ⟨u, hu, he⟩ := Option.map_eq_some_iff.1 hs
    cases he
    obtain ⟨h1, h2⟩ := work_conforms h hc hu
    refine ⟨b, ?_, h1, Or.inr h2⟩
    cases b <;> rfl

theorem Conforms.outstanding {b : Bot} (h : Conforms dev b s) : Outstanding s := by
  refine ⟨h.crashed, ?_⟩
  cases h with
  | passive _ _ _ hp =>
    cases hp with
    | listening _ _ _ h => exact Or.inr (Or.inl (by simp [h]))
    | status _ _ h => exact Or.inl (by simp [h])
    | replying _ _ h => exact Or.inl (by simp [h])
    | sending _ _ h => exact Or.inl (by simp [h])
    | receiving _ _ _ h => exact Or.inr (Or.inl (by simp [h]))
    | satReceiving _ _ _ h => exact Or.inr (Or.inl (by simp [h]))
  | overrun _ _ _ _ _ _ _ h => exact Or.inr (Or.inr (Or.inl h))
  | satRunning _ _ _ _ h => exact Or.inr (Or.inr (Or.inr (by simp [h])))
  | blocked _ _ _ _ _ _ _ _ _ _ h =>
    refine Or.inr (Or.inr (h.imp_right fun hr hw => ?_))
    simp [hw, Worker.rank] at hr
  | satPending _ _ _ _ _ _ h =>
    refine Or.inr (Or.inr (h.imp_right fun hr hw => ?_))
    simp [hw, Worker.rank] at hr

theorem Conforms.listening (h : Conforms dev .waiting s) :
    s.state = .waitingForCommand ∧ s.rx = some .cbw := by
  cases h with
  | passive _ _ _ hp =>
    cases hp with
    | listening _ hs _ hrx => exact ⟨hs, hrx⟩
    | status hb => cases hb
    | replying hb => cases hb
    | sending hb => cases hb
    | receiving hb => cases hb
    | satReceiving hb => cases hb
  | blocked hb => cases hb
  | overrun hb => cases hb
  | satPending hb => cases hb
  | satRunning hb => cases hb

def Signal.IsStatus : Signal D → Prop
  | .status _ _ _ => True
  | _ => False

/-- Only a status ends a command. -/
theorem Bot.step_data {b b' : Bot} {o : Signal D} (h : b.step o = some b') (hb : b ≠ .waiting)
    (ho : ¬ o.IsStatus) : b' ≠ .waiting := by
  cases b with
  | waiting => exact absurd rfl hb
  | data cbw m =>
    cases o with
    | status => exact absurd trivial ho
    | command => cases h
    | sent => cases h; exact fun h => by cases h
    | received => cases h; exact fun h => by cases h
    | internal => cases h; exact fun h => by cases h

/-- In every state that is reached from `s₀` by steps that meet `ok`: each wrapper so far, but for
the one that is being executed, had its one status, with its tag and what was not moved as residue;
without such a one the machine waits for the next wrapper; something is outstanding; and the
wrapper that is being executed gets its status, after a number of steps that is known. -/
def BulkOnly (dev : StorageInfo) (ok : State D → Event D → Prop) (s₀ : State D) : Prop :=
  ∀ es s, Lts.Runs (step dev) ok s₀ es s →
    ∃ b, Bot.run .waiting (es.map fun e => e.2.2) = some b ∧
      (b = .waiting → s.state = .waitingForCommand ∧ s.rx = some .cbw) ∧
      Outstanding s ∧
      (b ≠ .waiting → ∃ n, ∀ es' t, Lts.Runs (step dev) ok s es' t → n < es'.length →
        ∃ e ∈ es', e.2.2.IsStatus)

theorem Conforms.run {b : Bot} {es : List (State D × Event D × Signal D)} (h : Conforms dev b s)
    (hr : Lts.Runs (step dev) (fun s e => Regular dev e ∧ Clear dev s e) s es t) :
    ∃ b', Bot.run b (es.map fun e => e.2.2) = some b' ∧ Conforms dev b' t := by
  refine hr.invariant_trace (I := fun l x =>
    ∃ b', Bot.run b (l.map fun e => e.2.2) = some b' ∧ Conforms dev b' x) ⟨b, rfl, h⟩ ?_
  intro l x e y o hx hok hs
  obtain ⟨b', h1, h2⟩ := hx
  obtain ⟨b'', h3, h4, _⟩ := step_conforms h2 hok.1 hok.2 hs
  refine ⟨b'', ?_, h4⟩
  rw [List.map_append]
  exact Bot.run_concat h1 h3

/-- While a command goes on, each step leaves less to do. -/
theorem Conforms.bounded {b : Bot} {es : List (State D × Event D × Signal D)}
    (h : Conforms dev b s) (hb : b ≠ .waiting)
    (hr : Lts.Runs (step dev) (fun s e => Regular dev e ∧ Clear dev s e) s es t) :
    (∃ e ∈ es, e.2.2.IsStatus) ∨
      ∃ b', b' ≠ .waiting ∧ Conforms dev b' t ∧ remaining t + es.length ≤ remaining s := by
  refine hr.invariant_trace (I := fun l x => (∃ e ∈ l, e.2.2.IsStatus) ∨
    ∃ b', b' ≠ .waiting ∧ Conforms dev b' x ∧ remaining x + l.length ≤ remaining s)
    (Or.inr ⟨b, hb, h, le_rfl⟩) ?_
  intro l x e y o hx hok hs
  rcases hx with ⟨e', he', hst⟩ | ⟨b', hb', hx, hle⟩
  · exact Or.inl ⟨e', List.mem_append_left _ he', hst⟩
  · obtain ⟨b'', h1, h2, h3⟩ := step_conforms hx hok.1 hok.2 hs
    by_cases ho : o.IsStatus
    · exact Or.inl ⟨(x, e, o), List.mem_append_right _ List.mem_cons_self, ho⟩
    · refine Or.inr ⟨b'', Bot.step_data h1 hb' ho, h2, ?_⟩
      have hlt := h3.resolve_left fun ⟨_, _, hw⟩ => hb' hw
      rw [List.length_append, List.length_singleton]
      omega

theorem initial_conforms (medium : Nat → D) (readBuf writeBuf : Bool → Nat → D)
    (cmdbuf : CommandBlockWrapper) :
    Conforms dev .waiting (initial medium readBuf writeBuf cmdbuf) := by
  refine .passive ⟨fun _ => dev.num_pos, fun _ => Or.inl rfl, fun _ _ _ h => by cases h⟩ rfl
    ⟨rfl, rfl, rfl, fun _ h => by cases h⟩ (.listening rfl rfl rfl rfl)

/-- Disk mode is bulk-only transport, as long as none of its defects is reached. -/
theorem answered_once (dev : StorageInfo) (medium : Nat → D) (readBuf writeBuf : Bool → Nat → D)
    (cmdbuf : CommandBlockWrapper) :
    BulkOnly dev (fun s e => Regular dev e ∧ Clear dev s e)
      (initial medium readBuf writeBuf cmdbuf) := by
  intro es s hr
  obtain ⟨b, h1, h2⟩ := (initial_conforms medium readBuf writeBuf cmdbuf).run hr
  refine ⟨b, h1, fun hb => (hb ▸ h2).listening, h2.outstanding, fun hb => ⟨remaining s, ?_⟩⟩
  intro es' t hr' hlt
  rcases h2.bounded hb hr' with h | ⟨_, _, _, hle⟩
  · exact h
  · omega

/-- A classic with a sector size of 4096 bytes. -/
def someDevice : StorageInfo where
  sectorSize := 4096
  numSectors := 1000
  vendor := []
  product := []
  revision := []
  driverinfo := true
  platformId := 0x4c435049
  size_dvd := by decide
  size_ge := by decide
  size_le := by decide
  num_pos := by decide
  num_lt := by decide

/-- A wrapper with the command block `block`, padded with zeros. -/
def wrapper (length : UInt32) (flags : UInt8) (block : List UInt8) : CommandBlockWrapper where
  signature := 0x43425355
  tag := 1
  dataTransferLength := length
  flags
  commandBlock := fun i => block.getD i 0

/-- After WRITE BUFFER nothing is outstanding: the host waits for a status in vain. -/
theorem writeBuffer_hangs :
    ¬ ∀ (dev : StorageInfo) (medium : Nat → Unit) (readBuf writeBuf : Bool → Nat → Unit)
      (cmdbuf : CommandBlockWrapper),
      BulkOnly dev (fun _ e => Regular dev e) (initial medium readBuf writeBuf cmdbuf) := by
  intro h
  have h := h someDevice (fun _ => ()) (fun _ _ => ()) (fun _ _ => ()) (wrapper 0 0 [])
  have hok : Regular someDevice (.command (wrapper 0 0 [0x3b]) 0 : Event Unit) :=
    ⟨rfl, rfl, trivial⟩
  obtain ⟨b, _, _, hout, _⟩ := h _ _ (.single hok rfl)
  exact absurd hout (by decide)

end Ums
end Freemyipod
