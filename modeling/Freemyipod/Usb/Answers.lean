import Mathlib.Tactic.Common
import Freemyipod.Usb.Monitor

/-!
# Usb.Answers

The monitor's answers belong to the command they follow.

* `Outcome`: the status and the result words that a command should be answered with, which the
  ghost state `Latest` keeps for the last command.
* `Inv`: how the ghost state goes with the monitor's variables.
* `StatusPlaced`: the steps whose status does get into the buffer that is sent.
* `answers_iff`: every answer is right if and only if every step meets that.
-/

namespace Freemyipod
namespace Usb
namespace Monitor

/-! ## What a command should be answered with -/

/-- The status and the result words from word 1 on. -/
structure Outcome where
  status : U32
  results : List U32

def done : U32 := 1

def unsupported : U32 := 2

def busy : U32 := 3

/-- The words of a header that the outcome tells. -/
def Outcome.Heads (o : Outcome) (header : Block) : Prop :=
  header 0 = o.status ∧ ∀ i v, o.results[i]? = some v → header (i + 1) = v

/-- The commands that the thread executes on this platform. -/
def supported (m : Machine) (cmd : Nat) : Bool :=
  match cmd with
  | 3 | 12 | 13 | 14 | 21 | 24 | 52 | 53 | 54 | 55 | 56 | 57 => true
  | 8 | 9 => m.haveI2c
  | 22 | 23 => m.haveBootflash
  | 25 => m.haveHwkeyaes
  | 26 => m.haveHmacsha1
  | 27 | 28 | 29 | 30 | 31 | 32 | 33 | 34 | 35 | 36 | 37 | 38 | 39 | 40 | 41 | 42 | 43 | 44 | 45
  | 46 | 47 | 48 | 49 | 58 | 59 => m.haveStorage
  | 50 | 51 => m.haveStorage && m.haveHotswap
  | 60 | 61 => m.haveRtc
  | n => m.target ≠ .other && 0xffff0001 ≤ n && n ≤ 0xffff0004

/-- A request for NAND pages or blocks past the last one. -/
def NandOutOfRange (m : Machine) (buf : Block) : Prop :=
  m.target = .ipodnano2g ∧
    (((buf 0 = 0xffff0002 ∨ buf 0 = 0xffff0003) ∧ m.nandPages < buf 2 + buf 3) ∨
      (buf 0 = 0xffff0004 ∧ m.nandBlocks < buf 2 + buf 3))

/-- A command that the interrupt handler leaves to the thread. -/
def NeedsWorker (buf : Block) : Prop :=
  (buf 0).toNat ∉ [1, 4, 5, 10, 11, 15, 16, 17, 18, 19, 20]

instance (buf : Block) : Decidable (NeedsWorker buf) := by unfold NeedsWorker; infer_instance

/-- How many bytes one more packet of a WRITE CONSOLE brings. -/
def consoleBytes (s : Dbg) (bytesleft : U32) : Nat := (min (64 - bytesleft) s.dbgmemlen).toNat

/-- What a command should be answered with that the interrupt handler executes on its own. -/
def outcome (m : Machine) (s : Dbg) (x buf : Block) : Outcome :=
  match (buf 0).toNat with
  | 1 =>
    match (buf 1).toNat with
    | 0 => ⟨done, [m.revision, m.version, m.platformId]⟩
    | 1 => ⟨done, [m.poolstart, m.poolend]⟩
    | _ => ⟨unsupported, []⟩
  | 11 =>
    ⟨done, [UInt32.ofNat (consoleTotal s buf), UInt32.ofNat consoleSize,
      UInt32.ofInt (s.conReceive (min 48 (consoleTotal s buf))).conFree]⟩
  | 15 => ⟨done, [3, m.headThread]⟩
  | 16 => ⟨done, [x 1]⟩
  | 17 =>
    ⟨done, [if buf 1 ≠ 0 then if x 1 = alreadySuspended then 1 else 0
      else if x 1 = alreadyResumed then 0 else 1]⟩
  | 19 => ⟨done, [x 1]⟩
  | _ => ⟨done, []⟩

/-- The last command that the host sent. -/
inductive Latest
  /-- It was not received yet. -/
  | none
  /-- The thread has it. -/
  | pending (buf : Block)
  | known (o : Outcome)

/-- The monitor together with the last command. -/
structure Sys where
  dbg : Dbg
  latest : Latest

/-- After one more packet of a WRITE CONSOLE, less of the ring is free. -/
def Latest.withFree (free : Int) : Latest → Latest
  | .known ⟨status, total :: size :: _⟩ => .known ⟨status, [total, size, UInt32.ofInt free]⟩
  | l => l

/-- The last command after a step. -/
def latestAfter (m : Machine) (z : Sys) : Action → Latest
  | .setupOut => .none
  | .data x buf bytesleft =>
    match z.dbg.dbgstate with
    | .setup =>
      if NeedsWorker buf then if z.dbg.dbgbusy then .known ⟨busy, []⟩ else .pending buf
      else .known (outcome m z.dbg x buf)
    | .writeConsole =>
      z.latest.withFree (z.dbg.conReceive (consoleBytes z.dbg bytesleft)).conFree
    | _ => z.latest
  | .finish x =>
    match z.latest, z.dbg.worker with
    | .pending buf, some _ =>
      match work m x buf with
      | some r =>
        .known ⟨if supported m (buf 0).toNat then done else unsupported,
          [r.1 1, r.1 2, r.1 3]⟩
      | Option.none => .pending buf
    | l, _ => l
  | _ => z.latest

def sysStep (m : Machine) (z : Sys) (a : Action) : Option (Sys × Option Response) :=
  (step m z.dbg a).map fun r => (⟨r.1, latestAfter m z a⟩, r.2)

/-- Whenever an IN request is answered in this state, the header is that of the last command. -/
def Answers (m : Machine) (z : Sys) : Prop :=
  z.dbg.dbgstate = .respond → ∀ x wLength z' r,
    sysStep m z (.setupIn x wLength) = some (z', some r) →
      ∃ o, z.latest = .known o ∧ o.Heads r.header

/-- The command is not FLUSH CACHE and does not meet a busy thread, or the status that it should
set is in the buffer already; and the thread has no request for NAND that is not there. -/
def StatusPlaced (m : Machine) (z : Sys) : Action → Prop
  | .data _ buf _ => z.dbg.dbgstate = .setup →
    ((buf 0).toNat = 20 → z.dbg.dbgbuf 0 = done) ∧
      (NeedsWorker buf → z.dbg.dbgbusy = true → z.dbg.dbgbuf 0 = busy)
  | .finish _ => ∀ buf, z.dbg.worker = some buf → z.dbg.dbgstate = .async →
    ¬ NandOutOfRange m buf
  | _ => True

/-! ## Blocks -/

variable {m : Machine} {x buf dbgbuf : Block} {z z' : Sys} {a : Action} {o : Outcome}
  {r : Option Response} {s : Dbg}

@[simp] theorem Block.set_apply (b : Block) (i j : Nat) (v : U32) :
    b.set i v j = if j = i then v else b j := Function.update_apply b i v j

@[simp] theorem Block.status_apply (b : Block) (j : Nat) (v : U32) :
    b.status v j = if j = 0 then v else b j := Block.set_apply b 0 j v

/-! ## The thread's commands -/

theorem not_nandOutOfRange (h : (buf 0).toNat < 0xffff0001) : ¬ NandOutOfRange m buf := by
  rintro ⟨-, ⟨h0 | h0, -⟩ | ⟨h0, -⟩⟩ <;> rw [h0] at h <;> exact absurd h (by decide)

theorem calls_status : (calls buf).1 0 = done := by simp [calls, done]

theorem returns_status : (returns x buf).1 0 = done := by simp [returns, done]

theorem takesPath_status : (takesPath m x buf).1 0 = done := returns_status

theorem execimage_status : (execimage m x buf).1 0 = done := returns_status

theorem otherRequest_status (h : (buf 0).toNat < 0xffff0000) :
    (otherRequest m x buf).1 0 = unsupported := by
  have hlt : ¬ (0xffff0000 : U32) ≤ buf 0 := by
    rw [UInt32.le_iff_toNat_le]
    exact Nat.not_le.2 h
  simp [otherRequest, hlt, unsupported]

theorem compiled_status {b : Bool} {branch : Block × U32} (h : (buf 0).toNat < 0xffff0000)
    (hb : branch.1 0 = done) :
    (compiled m x buf b branch).1 0 = if b then done else unsupported := by
  unfold compiled
  cases b with
  | true => exact hb
  | false => exact otherRequest_status h

theorem supported_target {n : Nat} (h : 0xffff0000 ≤ n) :
    supported m n = (m.target ≠ .other && 0xffff0001 ≤ n && n ≤ 0xffff0004) := by
  unfold supported
  split <;> first | rfl | omega

/-- The numbers of the target's commands. -/
theorem target_range (v : U32) :
    (0xffff0001 ≤ v ∧ v ≤ 0xffff0004) ↔ 0xffff0001 ≤ v.toNat ∧ v.toNat ≤ 0xffff0004 := by
  rw [UInt32.le_iff_toNat_le, UInt32.le_iff_toNat_le]
  rfl

theorem target_cases {v : U32} (h : 0xffff0001 ≤ v ∧ v ≤ 0xffff0004) :
    v = 0xffff0001 ∨ v = 0xffff0002 ∨ v = 0xffff0003 ∨ v = 0xffff0004 := by
  rw [target_range] at h
  simp only [← UInt32.toNat_inj]
  have h1 : (0xffff0001 : U32).toNat = 0xffff0001 := rfl
  have h2 : (0xffff0002 : U32).toNat = 0xffff0002 := rfl
  have h3 : (0xffff0003 : U32).toNat = 0xffff0003 := rfl
  have h4 : (0xffff0004 : U32).toNat = 0xffff0004 := rfl
  omega

theorem classicRequest_status :
    (classicRequest x buf).1 0 =
      if 0xffff0001 ≤ buf 0 ∧ buf 0 ≤ 0xffff0004 then done else unsupported := by
  unfold classicRequest done unsupported
  by_cases h1 : buf 0 = 0xffff0001
  · simp [h1]
  · by_cases h2 : buf 0 = 0xffff0002
    · simp [h2]
    · by_cases h3 : buf 0 = 0xffff0003 ∨ buf 0 = 0xffff0004
      · rcases h3 with h3 | h3 <;> simp [h3]
      · have hout : ¬ (0xffff0001 ≤ buf 0 ∧ buf 0 ≤ 0xffff0004) := by
          intro hc
          rcases target_cases hc with hc | hc | hc | hc <;> simp [hc] at h1 h2 h3
        simp [h1, h2, h3, hout]

theorem nano2gRequest_status (hm : m.target = .ipodnano2g) :
    ((nano2gRequest m x buf).1 0 =
      if 0xffff0001 ≤ buf 0 ∧ buf 0 ≤ 0xffff0004 then done else unsupported) ↔
        ¬ NandOutOfRange m buf := by
  unfold nano2gRequest done unsupported NandOutOfRange
  by_cases h1 : buf 0 = 0xffff0001
  · simp [h1]
  · by_cases h2 : buf 0 = 0xffff0002 ∨ buf 0 = 0xffff0003
    · by_cases hp : m.nandPages < buf 2 + buf 3 <;> rcases h2 with h2 | h2 <;> simp [h2, hm, hp]
    · by_cases h4 : buf 0 = 0xffff0004
      · by_cases hp : m.nandBlocks < buf 2 + buf 3 <;> simp [h4, hm, hp]
      · have hout : ¬ (0xffff0001 ≤ buf 0 ∧ buf 0 ≤ 0xffff0004) := by
          intro hc
          rcases target_cases hc with hc | hc | hc | hc <;> simp [hc] at h1 h2 h4
        simp [h1, h2, h4, hout]

theorem otherRequest_status_iff (h : 0xffff0000 ≤ buf 0) :
    ((otherRequest m x buf).1 0 = if supported m (buf 0).toNat then done else unsupported) ↔
      ¬ NandOutOfRange m buf := by
  have hn : 0xffff0000 ≤ (buf 0).toNat := UInt32.le_iff_toNat_le.1 h
  rw [otherRequest, if_pos h, supported_target hn, targetRequest]
  cases hm : m.target with
  | other =>
    have hno : ¬ NandOutOfRange m buf := fun hc => by rw [hc.1] at hm; cases hm
    simp [hno, unsupported]
  | ipodclassic =>
    have hno : ¬ NandOutOfRange m buf := fun hc => by rw [hc.1] at hm; cases hm
    simp only [hno, not_false_eq_true, iff_true, classicRequest_status, target_range]
    simp
  | ipodnano2g =>
    rw [← nano2gRequest_status hm (x := x)]
    simp only [target_range]
    simp

/-- Each of the thread's commands puts its status into the buffer. -/
theorem work_status {q : Block × U32} (h : work m x buf = some q) :
    (q.1 0 = if supported m (buf 0).toNat then done else unsupported) ↔ ¬ NandOutOfRange m buf := by
  have small : ∀ n, (buf 0).toNat = n → n < 0xffff0000 →
      q.1 0 = (if supported m n then done else unsupported) →
      ((q.1 0 = if supported m (buf 0).toNat then done else unsupported) ↔
        ¬ NandOutOfRange m buf) := by
    intro n hn hlt hq
    rw [hn]
    exact ⟨fun _ => not_nandOutOfRange (by omega), fun _ => hq⟩
  unfold work at h
  split at h <;> simp only [Option.some.injEq, reduceCtorEq] at h <;> subst h
  all_goals rename_i hn
  -- a command that every platform has
  all_goals try exact small _ hn (by decide) calls_status
  all_goals try exact small _ hn (by decide) returns_status
  all_goals try exact small _ hn (by decide) rfl
  -- one that only some have
  all_goals try exact small _ hn (by decide) (compiled_status (by rw [hn]; decide) calls_status)
  all_goals try exact small _ hn (by decide) (compiled_status (by rw [hn]; decide) returns_status)
  all_goals try exact small _ hn (by decide) (compiled_status (by rw [hn]; decide) rfl)
  -- any other
  by_cases hbig : 0xffff0000 ≤ buf 0
  · exact otherRequest_status_iff hbig
  · have hlt : (buf 0).toNat < 0xffff0000 := by
      rw [UInt32.le_iff_toNat_le, Nat.not_le] at hbig
      exact hbig
    refine small _ rfl hlt ?_
    have hno : supported m (buf 0).toNat = false := by
      unfold supported
      split
      all_goals try contradiction
      simp only [Bool.and_eq_false_iff, decide_eq_false_iff_not]
      omega
    rw [hno]
    exact otherRequest_status hlt

/-! ## The invariant -/

/-- The result words in the buffer, without the status. -/
def Outcome.Results (o : Outcome) (header : Block) : Prop :=
  ∀ i v, o.results[i]? = some v → header (i + 1) = v

structure Inv (z : Sys) : Prop where
  receiving : z.dbg.receiving = true → z.dbg.dbgstate = .setup ∨ z.dbg.dbgstate = .writeMem ∨
    z.dbg.dbgstate = .writeConsole
  async : z.dbg.dbgstate = .async → z.dbg.dbgbusy = true ∧ ∃ buf, z.latest = .pending buf ∧
    (z.dbg.worker = none → z.dbg.dbgbuf = buf) ∧ ∀ b, z.dbg.worker = some b → b = buf
  worker : ∀ b, z.dbg.worker = some b → z.dbg.dbgbusy = true
  writeMem : z.dbg.dbgstate = .writeMem → z.latest = .known ⟨done, []⟩
  writeConsole : z.dbg.dbgstate = .writeConsole → ∃ total rest,
    z.latest = .known ⟨done, total :: UInt32.ofNat consoleSize :: rest⟩ ∧
      z.dbg.dbgbuf 0 = done ∧ z.dbg.dbgbuf 1 = total ∧ z.dbg.dbgbuf 2 = UInt32.ofNat consoleSize
  respond : z.dbg.dbgstate = .respond → ∃ o, z.latest = .known o ∧ o.Results z.dbg.dbgbuf

/-- If an answer is due, its header is that of the last command. -/
def HeaderOk (z : Sys) : Prop :=
  z.dbg.dbgstate = .respond → ∃ o, z.latest = .known o ∧ o.Heads z.dbg.dbgbuf

theorem answers_iff_headerOk : Answers m z ↔ HeaderOk z := by
  constructor
  · intro h hst
    refine h hst (fun _ => 0) 0
      ⟨(setupIn z.dbg (fun _ => 0) 0).1, z.latest⟩ ⟨z.dbg.dbgbuf, z.dbg.dbgmemaddr, min z.dbg.dbgmemlen (0 - 16)⟩ ?_
    simp only [sysStep, step, setupIn, hst, Option.map_some]
    rfl
  · intro h hst x wLength z' r hr
    simp only [sysStep, step, setupIn, hst, Option.map_some, Option.some.injEq, Prod.mk.injEq] at hr
    obtain ⟨o, ho, hh⟩ := h hst
    refine ⟨o, ho, ?_⟩
    rw [← hr.2]
    exact hh

theorem Outcome.heads_iff (o : Outcome) (header : Block) :
    o.Heads header ↔ header 0 = o.status ∧ o.Results header := Iff.rfl

theorem results_nil (v : U32) (header : Block) : Outcome.Results ⟨v, []⟩ header := by
  intro i w hw
  simp at hw

/-- With the results in place, the header is right if the status is. -/
theorem headerOk_iff (hl : z.latest = .known o) (hst : z.dbg.dbgstate = .respond)
    (hr : o.Results z.dbg.dbgbuf) : HeaderOk z ↔ z.dbg.dbgbuf 0 = o.status := by
  constructor
  · intro h
    obtain ⟨o', ho', hh⟩ := h hst
    rw [hl] at ho'
    cases ho'
    exact hh.1
  · intro h _
    exact ⟨o, hl, h, hr⟩

theorem headerOk_of_ne (h : z.dbg.dbgstate ≠ .respond) : HeaderOk z := fun hst => absurd hst h

/-- A command that the interrupt handler has executed. -/
theorem inv_respond {t : Dbg} (hr : t.receiving = false) (hst : t.dbgstate = .respond)
    (hw : ∀ b, t.worker = some b → t.dbgbusy = true) (hres : o.Results t.dbgbuf) :
    Inv ⟨t, .known o⟩ := by
  refine ⟨?_, ?_, hw, ?_, ?_, fun _ => ⟨o, rfl, hres⟩⟩
  · intro h
    rw [hr] at h
    cases h
  all_goals
    intro h
    rw [hst] at h
    cases h

theorem results_one {v a : U32} {header : Block} (ha : header 1 = a) :
    Outcome.Results ⟨v, [a]⟩ header := by
  intro i w hw
  rcases i with _ | i
  · rw [ha]
    simpa using hw
  · simp at hw

theorem results_two {v a b : U32} {header : Block} (ha : header 1 = a) (hb : header 2 = b) :
    Outcome.Results ⟨v, [a, b]⟩ header := by
  intro i w hw
  rcases i with _ | _ | i
  · rw [ha]
    simpa using hw
  · rw [hb]
    simpa using hw
  · simp at hw

theorem results_three {v a b c : U32} {header : Block} (ha : header 1 = a) (hb : header 2 = b)
    (hc : header 3 = c) : Outcome.Results ⟨v, [a, b, c]⟩ header := by
  intro i w hw
  rcases i with _ | _ | _ | i
  · rw [ha]
    simpa using hw
  · rw [hb]
    simpa using hw
  · rw [hc]
    simpa using hw
  · simp at hw

/-- The status of the command belongs into the buffer. -/
def CommandPlaced (s : Dbg) (buf : Block) : Prop :=
  ((buf 0).toNat = 20 → s.dbgbuf 0 = done) ∧
    (NeedsWorker buf → s.dbgbusy = true → s.dbgbuf 0 = busy)

theorem commandPlaced_of_ne (hw : ¬ NeedsWorker buf) (hne : (buf 0).toNat ≠ 20) :
    CommandPlaced s buf := ⟨fun h => absurd h hne, fun h => absurd h hw⟩

/-- A command that the interrupt handler executes and answers as it should. -/
theorem answered {t : Dbg} (hw : ¬ NeedsWorker buf) (hne : (buf 0).toNat ≠ 20)
    (hr : t.receiving = false) (hst : t.dbgstate = .respond)
    (hb : ∀ b, t.worker = some b → t.dbgbusy = true) (h0 : t.dbgbuf 0 = o.status)
    (hres : o.Results t.dbgbuf) :
    Inv ⟨t, .known o⟩ ∧ (HeaderOk ⟨t, .known o⟩ ↔ CommandPlaced s buf) :=
  ⟨inv_respond hr hst hb hres, fun _ => commandPlaced_of_ne hw hne,
    fun _ => (headerOk_iff (z := ⟨t, .known o⟩) rfl hst hres).2 h0⟩

/-- What becomes of the last command when the first packet of one arrives. -/
def latestCommand (m : Machine) (s : Dbg) (x buf : Block) : Latest :=
  if NeedsWorker buf then if s.dbgbusy then .known ⟨busy, []⟩ else .pending buf
  else .known (outcome m s x buf)

theorem handToWorker_spec (hn : NeedsWorker buf) (hr : s.receiving = false)
    (hb : ∀ b, s.worker = some b → s.dbgbusy = true) :
    Inv ⟨handToWorker s buf, latestCommand m s x buf⟩ ∧
      (HeaderOk ⟨handToWorker s buf, latestCommand m s x buf⟩ ↔ CommandPlaced s buf) := by
  have h20 : (buf 0).toNat ≠ 20 := by
    intro h
    unfold NeedsWorker at hn
    rw [h] at hn
    exact hn (by decide)
  rw [latestCommand, if_pos hn]
  unfold handToWorker
  cases hbusy : s.dbgbusy with
  | true =>
    simp only [↓reduceIte]
    have hinv : Inv ⟨s.respond, .known ⟨busy, []⟩⟩ :=
      inv_respond hr rfl (fun _ _ => hbusy) (results_nil _ _)
    refine ⟨hinv, ?_⟩
    rw [headerOk_iff (z := ⟨s.respond, .known ⟨busy, []⟩⟩) rfl rfl (results_nil _ _)]
    exact ⟨fun h => ⟨fun hc => absurd hc h20, fun _ _ => h⟩, fun h => h.2 hn hbusy⟩
  | false =>
    simp only [Bool.false_eq_true, ↓reduceIte]
    have hworker : s.worker = none := by
      cases hw : s.worker with
      | none => rfl
      | some b =>
        rw [hb b hw] at hbusy
        cases hbusy
    refine ⟨⟨fun h => ?_, fun _ => ⟨rfl, buf, rfl, fun _ => rfl, fun b hw => ?_⟩, fun _ _ => rfl,
      (fun h => by cases h), (fun h => by cases h), fun h => by cases h⟩, ?_⟩
    · rw [show s.receiving = true from h] at hr
      cases hr
    · rw [show s.worker = some b from hw] at hworker
      cases hworker
    · refine ⟨fun _ => ⟨fun hc => absurd hc h20, fun _ hc => ?_⟩, fun _ => headerOk_of_ne ?_⟩
      · rw [hbusy] at hc
        cases hc
      · exact DbgState.noConfusion

theorem writeMemory_spec (hw : ¬ NeedsWorker buf) (hne : (buf 0).toNat ≠ 20)
    (hr : s.receiving = false) (hb : ∀ b, s.worker = some b → s.dbgbusy = true) :
    Inv ⟨writeMemory s buf, .known ⟨done, []⟩⟩ ∧
      (HeaderOk ⟨writeMemory s buf, .known ⟨done, []⟩⟩ ↔ CommandPlaced s buf) := by
  unfold writeMemory
  dsimp only
  split
  · refine ⟨⟨fun _ => .inr (.inl rfl), (fun h => by cases h), hb, fun _ => rfl,
      (fun h => by cases h), fun h => by cases h⟩, fun _ => commandPlaced_of_ne hw hne,
      fun _ => headerOk_of_ne DbgState.noConfusion⟩
  · exact answered hw hne hr rfl hb rfl (results_nil _ _)

theorem writeConsole_spec (hw : ¬ NeedsWorker buf) (hne : (buf 0).toNat ≠ 20)
    (hr : s.receiving = false) (hb : ∀ b, s.worker = some b → s.dbgbusy = true)
    (ho : outcome m s x buf = ⟨done, [UInt32.ofNat (consoleTotal s buf), UInt32.ofNat consoleSize,
      UInt32.ofInt (s.conReceive (min 48 (consoleTotal s buf))).conFree]⟩) :
    Inv ⟨writeConsole s buf, .known (outcome m s x buf)⟩ ∧
      (HeaderOk ⟨writeConsole s buf, .known (outcome m s x buf)⟩ ↔ CommandPlaced s buf) := by
  rw [ho]
  unfold writeConsole
  dsimp only
  have hr : (s.conReceive (min 48 (consoleTotal s buf))).receiving = false := hr
  have hb : ∀ b, (s.conReceive (min 48 (consoleTotal s buf))).worker = some b →
      (s.conReceive (min 48 (consoleTotal s buf))).dbgbusy = true := hb
  generalize s.conReceive (min 48 (consoleTotal s buf)) = t at hr hb ⊢
  generalize UInt32.ofNat (consoleTotal s buf) = total
  generalize UInt32.ofInt t.conFree = free
  split
  · refine ⟨⟨fun _ => .inr (.inr rfl), (fun h => by cases h), hb, (fun h => by cases h),
      fun _ => ⟨total, [free], rfl, ?_, ?_, ?_⟩, fun h => by cases h⟩,
      fun _ => commandPlaced_of_ne hw hne, fun _ => headerOk_of_ne DbgState.noConfusion⟩
    all_goals simp [Dbg.receive, done]
  · refine answered hw hne hr rfl hb ?_ (results_three ?_ ?_ ?_)
    all_goals simp [Dbg.respond, done]

theorem command_spec {t : Dbg} (h : command m s x buf = some t) (hr : s.receiving = false)
    (hb : ∀ b, s.worker = some b → s.dbgbusy = true) :
    Inv ⟨t, latestCommand m s x buf⟩ ∧
      (HeaderOk ⟨t, latestCommand m s x buf⟩ ↔ CommandPlaced s buf) := by
  have hlatest : ∀ o, ¬ NeedsWorker buf → outcome m s x buf = o →
      latestCommand m s x buf = .known o := by
    intro o hw ho
    rw [latestCommand, if_neg hw, ho]
  unfold command at h
  split at h
  case h_1 hn => -- GET INFO
    cases h
    have hw : ¬ NeedsWorker buf := by simp [NeedsWorker, hn]
    unfold getInfo
    split
    · rename_i h1
      rw [hlatest ⟨done, [m.revision, m.version, m.platformId]⟩ hw (by simp [outcome, hn, h1])]
      exact answered hw (by omega) hr rfl hb rfl (results_three rfl rfl rfl)
    · rename_i h1
      rw [hlatest ⟨done, [m.poolstart, m.poolend]⟩ hw (by simp [outcome, hn, h1])]
      exact answered hw (by omega) hr rfl hb rfl (results_two rfl rfl)
    · rename_i h0 h1
      rw [hlatest ⟨unsupported, []⟩ hw (by simp only [outcome, hn])]
      exact answered hw (by omega) hr rfl hb rfl (results_nil _ _)
  case h_2 hn => -- READ MEMORY
    cases h
    have hw : ¬ NeedsWorker buf := by simp [NeedsWorker, hn]
    rw [hlatest ⟨done, []⟩ hw (by simp [outcome, hn])]
    exact answered hw (by omega) hr rfl hb rfl (results_nil _ _)
  case h_3 hn => -- WRITE MEMORY
    cases h
    have hw : ¬ NeedsWorker buf := by simp [NeedsWorker, hn]
    rw [hlatest ⟨done, []⟩ hw (by simp [outcome, hn])]
    exact writeMemory_spec hw (by omega) hr hb
  case h_4 hn => -- READ CONSOLE
    cases h
    have hw : ¬ NeedsWorker buf := by simp [NeedsWorker, hn]
    rw [hlatest ⟨done, []⟩ hw (by simp [outcome, hn])]
    refine ⟨⟨fun h => ?_, (fun h => by cases h), hb, (fun h => by cases h),
      (fun h => by cases h), fun h => by cases h⟩, fun _ => commandPlaced_of_ne hw (by omega),
      fun _ => headerOk_of_ne DbgState.noConfusion⟩
    rw [show s.receiving = true from h] at hr
    cases hr
  case h_5 hn => -- WRITE CONSOLE
    cases h
    have hw : ¬ NeedsWorker buf := by simp [NeedsWorker, hn]
    rw [hlatest _ hw rfl]
    exact writeConsole_spec hw (by omega) hr hb (by simp [outcome, hn])
  case h_6 hn => -- GET PROCESS INFO
    cases h
    have hw : ¬ NeedsWorker buf := by simp [NeedsWorker, hn]
    rw [hlatest ⟨done, [3, m.headThread]⟩ hw (by simp [outcome, hn])]
    exact answered hw (by omega) hr rfl hb rfl (results_two rfl rfl)
  case h_7 hn => -- FREEZE SCHEDULER
    cases h
    have hw : ¬ NeedsWorker buf := by simp [NeedsWorker, hn]
    rw [hlatest ⟨done, [x 1]⟩ hw (by simp [outcome, hn])]
    exact answered hw (by omega) hr rfl hb rfl (results_one rfl)
  case h_8 hn => -- SUSPEND THREAD
    cases h
    have hw : ¬ NeedsWorker buf := by simp [NeedsWorker, hn]
    rw [hlatest _ hw rfl]
    refine answered hw (by omega) hr rfl hb ?_ ?_
    · simp only [outcome, hn]
      rfl
    · simp only [outcome, hn]
      exact results_one rfl
  case h_9 hn => -- KILL THREAD
    cases h
    have hw : ¬ NeedsWorker buf := by simp [NeedsWorker, hn]
    rw [hlatest ⟨done, []⟩ hw (by simp [outcome, hn])]
    exact answered hw (by omega) hr rfl hb rfl (results_nil _ _)
  case h_10 hn => -- CREATE THREAD
    cases h
    have hw : ¬ NeedsWorker buf := by simp [NeedsWorker, hn]
    rw [hlatest ⟨done, [x 1]⟩ hw (by simp [outcome, hn])]
    exact answered hw (by omega) hr rfl hb rfl (results_one rfl)
  case h_11 hn => -- FLUSH CACHE
    cases h
    have hw : ¬ NeedsWorker buf := by simp [NeedsWorker, hn]
    rw [hlatest ⟨done, []⟩ hw (by simp [outcome, hn])]
    refine ⟨inv_respond hr rfl hb (results_nil _ _), ?_⟩
    rw [headerOk_iff (z := ⟨s.respond, .known ⟨done, []⟩⟩) rfl rfl (results_nil _ _)]
    exact ⟨fun h => ⟨fun _ => h, fun hc => absurd hc hw⟩, fun h => h.1 hn⟩
  case h_12 hn => -- RESET
    split at h
    · cases h
    · cases h
      exact handToWorker_spec (by simp [NeedsWorker, hn]) hr hb
  case h_13 => -- any other
    cases h
    refine handToWorker_spec ?_ hr hb
    simp only [NeedsWorker, List.mem_cons, List.not_mem_nil, or_false, not_or]
    refine ⟨?_, ?_, ?_, ?_, ?_, ?_, ?_, ?_, ?_, ?_, ?_⟩ <;> assumption

/-! ## One step -/

theorem continueMemory_spec (h : Inv z) (hst : z.dbg.dbgstate = .writeMem) (bytesleft : U32) :
    Inv ⟨continueMemory { z.dbg with receiving := false } bytesleft, z.latest⟩ ∧
      HeaderOk ⟨continueMemory { z.dbg with receiving := false } bytesleft, z.latest⟩ := by
  rw [h.writeMem hst]
  unfold continueMemory
  dsimp only
  split
  · exact ⟨⟨fun _ => .inr (.inl rfl), (fun h => by cases h), h.worker, fun _ => rfl,
      (fun h => by cases h), fun h => by cases h⟩, headerOk_of_ne DbgState.noConfusion⟩
  · exact ⟨inv_respond rfl rfl h.worker (results_nil _ _),
      (headerOk_iff rfl rfl (results_nil _ _)).2 rfl⟩

theorem continueConsole_spec (h : Inv z) (hst : z.dbg.dbgstate = .writeConsole)
    (bytesleft : U32) :
    Inv ⟨continueConsole { z.dbg with receiving := false } bytesleft,
        z.latest.withFree (z.dbg.conReceive (consoleBytes z.dbg bytesleft)).conFree⟩ ∧
      HeaderOk ⟨continueConsole { z.dbg with receiving := false } bytesleft,
        z.latest.withFree (z.dbg.conReceive (consoleBytes z.dbg bytesleft)).conFree⟩ := by
  obtain ⟨total, rest, hl, h0, h1, h2⟩ := h.writeConsole hst
  rw [hl]
  unfold continueConsole Latest.withFree consoleBytes
  dsimp only
  generalize (min (64 - bytesleft) z.dbg.dbgmemlen) = bytes
  have hfree : ∀ len, ({ ({ z.dbg with receiving := false } : Dbg).conReceive bytes.toNat with
      dbgmemlen := len } : Dbg).conFree = (z.dbg.conReceive bytes.toNat).conFree := fun _ => rfl
  have hbuf : (({ z.dbg with receiving := false } : Dbg).conReceive bytes.toNat).dbgbuf =
      z.dbg.dbgbuf := rfl
  have hr : (({ z.dbg with receiving := false } : Dbg).conReceive bytes.toNat).receiving =
      false := rfl
  have hw : ∀ b, (({ z.dbg with receiving := false } : Dbg).conReceive bytes.toNat).worker =
      some b → (({ z.dbg with receiving := false } : Dbg).conReceive bytes.toNat).dbgbusy =
        true := h.worker
  rw [hfree]
  generalize ({ z.dbg with receiving := false } : Dbg).conReceive bytes.toNat = t at hbuf hr hw ⊢
  generalize UInt32.ofInt (z.dbg.conReceive bytes.toNat).conFree = free
  split
  · rw [← hbuf] at h0 h1 h2
    exact ⟨⟨fun _ => .inr (.inr rfl), (fun h => by cases h), hw, (fun h => by cases h),
      fun _ => ⟨_, _, rfl, h0, h1, h2⟩, fun h => by cases h⟩,
      headerOk_of_ne DbgState.noConfusion⟩
  · rw [hbuf]
    have hres : Outcome.Results ⟨done, [total, UInt32.ofNat consoleSize, free]⟩
        (z.dbg.dbgbuf.set 3 free) :=
      results_three (by simpa using h1) (by simpa using h2) (by simp)
    refine ⟨inv_respond hr rfl hw hres, (headerOk_iff rfl rfl hres).2 ?_⟩
    show z.dbg.dbgbuf.set 3 free 0 = done
    rw [Block.set_apply, if_neg (by decide)]
    exact h0

/-- A step that leaves the state and the buffer alone. -/
theorem Inv.congr {t : Dbg} (h : Inv z) (hst : t.dbgstate = z.dbg.dbgstate)
    (hbuf : t.dbgbuf = z.dbg.dbgbuf)
    (hasync : z.dbg.dbgstate = .async → t.dbgbusy = z.dbg.dbgbusy ∧ t.worker = z.dbg.worker)
    (hw : ∀ b, t.worker = some b → t.dbgbusy = true)
    (hr : t.receiving = true → z.dbg.receiving = true) :
    Inv ⟨t, z.latest⟩ ∧ (HeaderOk z → HeaderOk ⟨t, z.latest⟩) := by
  refine ⟨⟨fun hc => ?_, fun hc => ?_, hw, fun hc => ?_, fun hc => ?_, fun hc => ?_⟩, fun hok hc => ?_⟩
  · have hc' := h.receiving (hr hc)
    rw [← hst] at hc'
    exact hc'
  · have hc : z.dbg.dbgstate = .async := hst.symm.trans hc
    obtain ⟨h1, h2⟩ := hasync hc
    have hc' := h.async hc
    rw [← h1, ← h2, ← hbuf] at hc'
    exact hc'
  · exact h.writeMem (hst.symm.trans hc)
  · have hc' := h.writeConsole (hst.symm.trans hc)
    rw [← hbuf] at hc'
    exact hc'
  · have hc' := h.respond (hst.symm.trans hc)
    rw [← hbuf] at hc'
    exact hc'
  · have hc' := hok (hst.symm.trans hc)
    rw [← hbuf] at hc'
    exact hc'

/-- A step to a state in which the monitor waits for the host. -/
theorem inv_waiting {t : Dbg} {l : Latest} (hr : t.receiving = true → t.dbgstate = .setup)
    (hw : ∀ b, t.worker = some b → t.dbgbusy = true)
    (hst : t.dbgstate = .idle ∨ t.dbgstate = .setup ∨ t.dbgstate = .readConsole) :
    Inv ⟨t, l⟩ ∧ HeaderOk ⟨t, l⟩ := by
  refine ⟨⟨fun h => .inl (hr h), ?_, hw, ?_, ?_, ?_⟩, headerOk_of_ne ?_⟩
  all_goals
    dsimp only
    intro h
    rcases hst with hst | hst | hst <;> rw [hst] at h <;> cases h

theorem setupIn_spec (h : Inv z) (x : Block) (wLength : U32) :
    Inv ⟨(setupIn z.dbg x wLength).1, z.latest⟩ ∧
      (HeaderOk z → HeaderOk ⟨(setupIn z.dbg x wLength).1, z.latest⟩) := by
  unfold setupIn
  dsimp only
  split
  · split
    · exact h.congr rfl rfl (fun _ => ⟨rfl, rfl⟩) h.worker fun hc => by cases hc
    · have hi := inv_waiting (l := z.latest) (t := { z.dbg with
        receiving := false
        dbgmemlen := min z.dbg.dbgmemlen (wLength - 16) -
          min 48 (min z.dbg.dbgmemlen (wLength - 16))
        dbgstate := .idle }) (fun hc => by cases hc) h.worker (.inl rfl)
      exact ⟨hi.1, fun _ => hi.2⟩
  · rename_i hst
    split
    · have hi := inv_waiting (l := z.latest) (t := { z.dbg with
        receiving := false
        dbgbuf := (Block.status x 1).set 2 4096
        dbgmemaddr := x 16
        dbgmemlen := x 17 }) (fun hc => by cases hc) h.worker (.inr (.inr hst))
      exact ⟨hi.1, fun _ => hi.2⟩
    · have hi := inv_waiting (l := z.latest) (t := { z.dbg with
        receiving := false
        dbgbuf := (Block.status x 1).set 2 4096
        dbgmemaddr := 0
        dbgmemlen := x 17
        dbgstate := .idle }) (fun hc => by cases hc) h.worker (.inl rfl)
      exact ⟨hi.1, fun _ => hi.2⟩
  · exact h.congr rfl rfl (fun _ => ⟨rfl, rfl⟩) h.worker fun hc => by cases hc

theorem takeCommand_spec (h : Inv z) (hw : z.dbg.worker = none) :
    Inv ⟨takeCommand z.dbg, z.latest⟩ ∧
      (HeaderOk z → HeaderOk ⟨takeCommand z.dbg, z.latest⟩) := by
  unfold takeCommand
  split
  · rename_i hst
    obtain ⟨hbusy, buf, hl, hbuf, -⟩ := h.async hst
    have hne : ∀ d, d ≠ DbgState.async → z.dbg.dbgstate ≠ d := by
      intro d hd hc
      rw [hst] at hc
      exact hd hc.symm
    refine ⟨⟨fun hc => h.receiving hc, fun _ => ⟨hbusy, buf, hl, (fun hc => by cases hc), fun b hb => ?_⟩,
      fun _ _ => hbusy, fun hc => absurd hc (hne _ DbgState.noConfusion),
      fun hc => absurd hc (hne _ DbgState.noConfusion),
      fun hc => absurd hc (hne _ DbgState.noConfusion)⟩,
      fun _ => headerOk_of_ne (hne _ DbgState.noConfusion)⟩
    cases hb
    exact hbuf hw
  · rename_i hst
    refine h.congr rfl rfl (fun hc => absurd hc hst) (fun b hb => ?_) fun hc => hc
    rw [show z.dbg.worker = some b from hb] at hw
    cases hw

theorem finishCommand_spec (h : Inv z) (hw : z.dbg.worker = some buf) {q : Block × U32}
    (hq : work m x buf = some q) :
    Inv ⟨finishCommand m z.dbg q.1 q.2, latestAfter m z (.finish x)⟩ ∧
      (HeaderOk z → (HeaderOk ⟨finishCommand m z.dbg q.1 q.2, latestAfter m z (.finish x)⟩ ↔
        StatusPlaced m z (.finish x))) := by
  by_cases hst : z.dbg.dbgstate = .async
  · -- the answer is due
    obtain ⟨-, buf', hl, -, hb⟩ := h.async hst
    have hbuf := hb buf hw
    subst hbuf
    have hlatest : latestAfter m z (.finish x) =
        .known ⟨if supported m (buf 0).toNat then done else unsupported,
          [q.1 1, q.1 2, q.1 3]⟩ := by
      simp only [latestAfter, hl, hw, hq]
    have hres : Outcome.Results ⟨if supported m (buf 0).toNat then done else unsupported,
        [q.1 1, q.1 2, q.1 3]⟩ (finishCommand m z.dbg q.1 q.2).dbgbuf := by
      simp only [finishCommand, hst, ↓reduceIte]
      exact results_three rfl rfl rfl
    have hrespond : (finishCommand m z.dbg q.1 q.2).dbgstate = .respond := by
      simp only [finishCommand, hst, ↓reduceIte]
    rw [hlatest]
    refine ⟨inv_respond ?_ hrespond ?_ hres, fun _ => ?_⟩
    · have hrec : z.dbg.receiving = false := by
        rw [← Bool.not_eq_true]
        intro hc
        rcases h.receiving hc with hc | hc | hc <;> rw [hst] at hc <;> cases hc
      simpa only [finishCommand, hst, ↓reduceIte] using hrec
    · simp only [finishCommand, hst, ↓reduceIte]
      intro b hb
      cases hb
    · rw [headerOk_iff rfl hrespond hres]
      have hstatus : (finishCommand m z.dbg q.1 q.2).dbgbuf 0 = q.1 0 := by
        simp only [finishCommand, hst, ↓reduceIte]
        rfl
      dsimp only
      rw [hstatus, work_status hq]
      constructor
      · intro hn b hb _
        rw [hw] at hb
        cases hb
        exact hn
      · intro hp
        exact hp buf hw hst
  · -- the host has gone on
    have hplaced : StatusPlaced m z (.finish x) := fun _ _ hc => absurd hc hst
    have hfin : finishCommand m z.dbg q.1 q.2 =
        { z.dbg with dbgbusy := false, worker := none } := by
      simp only [finishCommand, hst, ↓reduceIte]
    rw [hfin]
    by_cases hp : ∃ b, z.latest = .pending b
    · obtain ⟨b, hl⟩ := hp
      have hwait : z.dbg.dbgstate = .idle ∨ z.dbg.dbgstate = .setup ∨
          z.dbg.dbgstate = .readConsole := by
        cases hd : z.dbg.dbgstate with
        | idle => exact .inl rfl
        | setup => exact .inr (.inl rfl)
        | readConsole => exact .inr (.inr rfl)
        | async => exact absurd hd hst
        | writeMem =>
          have hc := h.writeMem hd
          rw [hl] at hc
          cases hc
        | writeConsole =>
          obtain ⟨_, _, hc, -⟩ := h.writeConsole hd
          rw [hl] at hc
          cases hc
        | respond =>
          obtain ⟨_, hc, -⟩ := h.respond hd
          rw [hl] at hc
          cases hc
      have hi := inv_waiting (l := latestAfter m z (.finish x))
        (t := { z.dbg with dbgbusy := false, worker := none }) (fun hc => ?_)
        (fun b hb => by cases hb) hwait
      · exact ⟨hi.1, fun _ => ⟨fun _ => hplaced, fun _ => hi.2⟩⟩
      · rcases h.receiving hc with hc' | hc' | hc'
        · exact hc'
        · rcases hwait with hd | hd | hd <;> rw [hd] at hc' <;> cases hc'
        · rcases hwait with hd | hd | hd <;> rw [hd] at hc' <;> cases hc'
    · have hl : latestAfter m z (.finish x) = z.latest := by
        simp only [latestAfter]
        split
        · rename_i b _ hb _
          exact absurd ⟨b, hb⟩ hp
        · rfl
      rw [hl]
      have hi := h.congr (t := { z.dbg with dbgbusy := false, worker := none }) rfl rfl
        (fun hc => absurd hc hst) (fun b hb => by cases hb) fun hc => hc
      exact ⟨hi.1, fun hok => ⟨fun _ => hplaced, fun _ => hi.2 hok⟩⟩

theorem sysStep_spec (h : Inv z) (hs : sysStep m z a = some (z', r)) :
    Inv z' ∧ (HeaderOk z → (HeaderOk z' ↔ StatusPlaced m z a)) := by
  simp only [sysStep, Option.map_eq_some_iff] at hs
  obtain ⟨⟨t, r'⟩, hs, hz⟩ := hs
  simp only [Prod.mk.injEq] at hz
  obtain ⟨rfl, rfl⟩ := hz
  cases a with
  | setupOut =>
    cases hs
    have hi := inv_waiting (t := setupOut z.dbg) (l := .none) (fun _ => rfl) h.worker
      (.inr (.inl rfl))
    exact ⟨hi.1, fun _ => ⟨fun _ => trivial, fun _ => hi.2⟩⟩
  | data x buf bytesleft =>
    simp only [step, Option.ite_none_right_eq_some, Option.map_eq_some_iff, Prod.mk.injEq] at hs
    obtain ⟨hrec, t', hs, rfl, -⟩ := hs
    unfold usbdebugHandleData at hs
    rcases h.receiving hrec with hst | hst | hst
    · simp only [hst] at hs
      have hi := command_spec hs rfl h.worker
      have hl : latestAfter m z (.data x buf bytesleft) =
          latestCommand m { z.dbg with receiving := false } x buf := by
        simp only [latestAfter, hst]
        rfl
      rw [hl]
      exact ⟨hi.1, fun _ => hi.2.trans ⟨fun hp _ => hp, fun hp => hp hst⟩⟩
    · simp only [hst, Option.some.injEq] at hs
      subst hs
      have hl : latestAfter m z (.data x buf bytesleft) = z.latest := by
        simp only [latestAfter, hst]
      rw [hl]
      have hi := continueMemory_spec h hst bytesleft
      refine ⟨hi.1, fun _ => ⟨fun _ hc => ?_, fun _ => hi.2⟩⟩
      rw [hst] at hc
      cases hc
    · simp only [hst, Option.some.injEq] at hs
      subst hs
      have hl : latestAfter m z (.data x buf bytesleft) =
          z.latest.withFree (z.dbg.conReceive (consoleBytes z.dbg bytesleft)).conFree := by
        simp only [latestAfter, hst]
      rw [hl]
      have hi := continueConsole_spec h hst bytesleft
      refine ⟨hi.1, fun _ => ⟨fun _ hc => ?_, fun _ => hi.2⟩⟩
      rw [hst] at hc
      cases hc
  | setupIn x wLength =>
    simp only [step, Option.some.injEq] at hs
    have ht : (setupIn z.dbg x wLength).1 = t := by rw [hs]
    subst ht
    have hi := setupIn_spec h x wLength
    exact ⟨hi.1, fun hok => ⟨fun _ => trivial, fun _ => hi.2 hok⟩⟩
  | readConsole x =>
    simp only [step, Option.ite_none_right_eq_some, Option.some.injEq, Prod.mk.injEq] at hs
    obtain ⟨hst, rfl, -⟩ := hs
    have hi := inv_waiting (t := { z.dbg with dbgbuf := x, dbgmemaddr := x 16, dbgmemlen := x 17 })
      (l := z.latest) (fun hr => ?_) h.worker (.inr (.inr hst))
    · exact ⟨hi.1, fun _ => ⟨fun _ => trivial, fun _ => hi.2⟩⟩
    · rcases h.receiving hr with hc | hc | hc <;> rw [hst] at hc <;> cases hc
  | other =>
    cases hs
    have hi := h.congr (t := { z.dbg with receiving := false }) rfl rfl (fun _ => ⟨rfl, rfl⟩)
      h.worker (fun hc => by cases hc)
    exact ⟨hi.1, fun hok => ⟨fun _ => trivial, fun _ => hi.2 hok⟩⟩
  | enable =>
    cases hs
    have hi := inv_waiting (t := { z.dbg with dbgstate := .idle, receiving := false })
      (l := z.latest) (fun hc => by cases hc) h.worker (.inl rfl)
    exact ⟨hi.1, fun _ => ⟨fun _ => trivial, fun _ => hi.2⟩⟩
  | readCharacters i =>
    simp only [step, Option.ite_none_right_eq_some, Option.some.injEq, Prod.mk.injEq] at hs
    obtain ⟨-, rfl, -⟩ := hs
    have hi := h.congr (t := { z.dbg with dbgconrecvreadidx := i }) rfl rfl (fun _ => ⟨rfl, rfl⟩)
      h.worker fun hc => hc
    exact ⟨hi.1, fun hok => ⟨fun _ => trivial, fun _ => hi.2 hok⟩⟩
  | wake =>
    simp only [step] at hs
    split at hs
    · cases hs
    · rename_i hw
      cases hs
      have hi := takeCommand_spec h hw
      exact ⟨hi.1, fun hok => ⟨fun _ => trivial, fun _ => hi.2 hok⟩⟩
  | finish x =>
    simp only [step] at hs
    split at hs
    · cases hs
    · rename_i buf hw
      simp only [Option.map_eq_some_iff, Prod.mk.injEq] at hs
      obtain ⟨q, hq, rfl, -⟩ := hs
      exact finishCommand_spec h hw hq

/-! ## Whole runs -/

/-- After `usbdebug_init`, whatever the other variables contain. -/
def sysInit (dbgbuf : Block) (dbgmemaddr dbgmemlen : U32) : Sys :=
  ⟨usbdebugInit dbgbuf dbgmemaddr dbgmemlen, .none⟩

/-- A packet of a command leaves the command alone that the thread executes. -/
theorem data_worker {bytesleft : U32}
    (hs : sysStep m z (.data x buf bytesleft) = some (z', r)) : z'.dbg.worker = z.dbg.worker := by
  simp only [sysStep, step, Option.map_eq_some_iff, Prod.mk.injEq] at hs
  obtain ⟨_, hs, rfl, -⟩ := hs
  simp only [Option.ite_none_right_eq_some, Option.map_eq_some_iff] at hs
  obtain ⟨-, t, hs, rfl⟩ := hs
  unfold usbdebugHandleData at hs
  dsimp only at hs
  split at hs
  · unfold command at hs
    split at hs
    case h_3 =>
      cases hs
      unfold writeMemory
      dsimp only
      split <;> rfl
    case h_5 =>
      cases hs
      unfold writeConsole
      dsimp only
      split <;> rfl
    case h_12 =>
      split at hs
      · cases hs
      · cases hs
        unfold handToWorker
        split <;> rfl
    case h_13 =>
      cases hs
      unfold handToWorker
      split <;> rfl
    all_goals
      cases hs
      rfl
  · cases hs
    unfold continueMemory
    dsimp only
    split <;> rfl
  · cases hs
    unfold continueConsole
    dsimp only
    split <;> rfl
  · cases hs
    rfl

/-- Every IN request in the run, and every one that could follow it, is answered for the last
command, and no command changes the one that the thread executes. -/
structure AnswersRight (m : Machine) (es : List (Sys × Action × Option Response)) (z : Sys) :
    Prop where
  answers : ∀ e ∈ es, Answers m e.1
  last : Answers m z
  worker : ∀ e ∈ es, ∀ x buf bytesleft, e.2.1 = .data x buf bytesleft → ∀ z' r,
    sysStep m e.1 e.2.1 = some (z', r) → z'.dbg.worker = e.1.dbg.worker

theorem answers_iff {dbgbuf : Block} {dbgmemaddr dbgmemlen : U32}
    {es : List (Sys × Action × Option Response)}
    (h : Lts.Runs (sysStep m) (fun _ _ => True) (sysInit dbgbuf dbgmemaddr dbgmemlen) es z) :
    AnswersRight m es z ↔ ∀ e ∈ es, StatusPlaced m e.1 e.2.1 := by
  have hinit := inv_waiting (t := usbdebugInit dbgbuf dbgmemaddr dbgmemlen) (l := .none)
    (fun hc => by cases hc) (fun b hb => by cases hb) (.inl rfl)
  have hall := h.forall_iff (I := Inv) (G := HeaderOk) (P := StatusPlaced m) hinit.1 hinit.2
    fun _ _ _ _ hx hs => sysStep_spec hx hs
  rw [← hall]
  constructor
  · intro hr
    exact ⟨fun e he => answers_iff_headerOk.1 (hr.answers e he), answers_iff_headerOk.1 hr.last⟩
  · rintro ⟨hes, hz⟩
    refine ⟨fun e he => answers_iff_headerOk.2 (hes e he), answers_iff_headerOk.2 hz, ?_⟩
    intro e _ x buf bytesleft ha z' r hs
    rw [ha] at hs
    exact data_worker hs

/-- A platform without a target of its own. -/
def bareMachine : Machine where
  target := .other
  haveI2c := false
  haveBootflash := false
  haveHwkeyaes := false
  haveHmacsha1 := false
  haveStorage := false
  haveHotswap := false
  haveRtc := false
  revision := 0
  version := 0
  platformId := 0
  poolstart := 0
  poolend := 0
  headThread := 0
  bufAddr := 0
  nandPages := 0
  nandBlocks := 0

/-- A command without arguments but `arg`. -/
def commandBlock (cmd arg : U32) : Block := fun i => if i = 0 then cmd else if i = 1 then arg else 0

/-- GET INFO with an unknown number is answered with status 2, and so is the FLUSH CACHE after
it. -/
def staleStatus : List Action :=
  [.setupOut, .data (fun _ => 0) (commandBlock 1 9) 0, .setupIn (fun _ => 0) 64,
    .setupOut, .data (fun _ => 0) (commandBlock 20 0) 0]

theorem staleStatus_wrong : ∃ es z, es.map (fun e => e.2.1) = staleStatus ∧
    Lts.Runs (sysStep bareMachine) (fun _ _ => True) (sysInit (fun _ => 0) 0 0) es z ∧
      ¬ AnswersRight bareMachine es z := by
  obtain ⟨z, hz, hst, hl, h2⟩ : ∃ z,
      Lts.exec (sysStep bareMachine) (sysInit (fun _ => 0) 0 0) staleStatus = some z ∧
        z.dbg.dbgstate = .respond ∧ z.latest = .known ⟨done, []⟩ ∧ z.dbg.dbgbuf 0 = unsupported :=
    ⟨_, rfl, rfl, rfl, rfl⟩
  obtain ⟨es, hes, hr⟩ := Lts.exec_runs hz
  refine ⟨es, z, hes, hr, fun h => ?_⟩
  obtain ⟨o, ho, hh⟩ := answers_iff_headerOk.1 h.last hst
  rw [hl] at ho
  cases ho
  have h1 := hh.1
  rw [h2] at h1
  exact absurd h1 (by decide)

/-- The answer to GET INFO is right. -/
theorem answers_iff_getInfo : ∃ es z,
    es.map (fun e => e.2.1) = [.setupOut, .data (fun _ => 0) (commandBlock 1 0) 0] ∧
      AnswersRight bareMachine es z := by
  obtain ⟨z, hz⟩ : ∃ z, Lts.exec (sysStep bareMachine) (sysInit (fun _ => 0) 0 0)
      [.setupOut, .data (fun _ => 0) (commandBlock 1 0) 0] = some z := ⟨_, rfl⟩
  obtain ⟨es, hes, hr⟩ := Lts.exec_runs hz
  refine ⟨es, z, hes, (answers_iff hr).2 fun e he => ?_⟩
  have hmem : e.2.1 ∈ [Action.setupOut, .data (fun _ => 0) (commandBlock 1 0) 0] := by
    rw [← hes]
    exact List.mem_map.2 ⟨e, he, rfl⟩
  simp only [List.mem_cons, List.not_mem_nil, or_false] at hmem
  rcases hmem with ha | ha
  · rw [ha]
    trivial
  · rw [ha]
    exact fun _ => ⟨fun hc => absurd hc (by decide), fun hc => absurd hc (by decide)⟩

end Monitor
end Usb
end Freemyipod
