import Mathlib.Algebra.Ring.Nat
import Mathlib.Data.Fintype.Basic
import Mathlib.Logic.Function.Basic
import Freemyipod.Lib.Runs

/-!
# Usb.TxFifo

Transmission without DMA (`emcore/usb/synopsysotg.c`): the driver writes the words of a buffer to the
FIFO itself. With one FIFO for all endpoints it does so when a transfer starts and in the interrupt
`nptxfempty`, else in the interrupt `emptyintr` of the endpoint. The controller tells the free space
each time it is read, and with each word four bytes less are to be transferred.

* `Valid`, `pushWords_valid`: what was written are the first words of the buffer.
* `tx_fifo_iff`: when no call writes more than there is space for.
-/

namespace Freemyipod
namespace Usb
namespace TxFifo

local instance sixteen_neZero : NeZero 16 := ⟨by decide⟩

/-- The registers of an IN endpoint, and the buffer and the index of the word that
`state->endpoints[ep].txaddr` points to. `size` and `fifo` note the size of the transfer at hand and the
words written for it. -/
structure Endpoint where
  epena : Bool
  usbactep : Bool
  stall : Bool
  naksts : Bool
  mps : Nat
  xfersize : Nat
  txbuf : Nat → UInt32
  txaddr : Nat
  size : Nat
  fifo : List UInt32

/-- `hnptxsts` -/
structure Space where
  nptxqspcavail : Nat
  nptxfspcavail : Nat
deriving DecidableEq

/-- Words written, and the number of words that there was space for when it was read. -/
structure Push where
  told : Nat
  written : Nat
deriving DecidableEq

structure State where
  /-- `shared_txfifo` -/
  shared : Bool
  eps : Fin 16 → Endpoint
  /-- `gintmsk.b.nptxfempty` -/
  nptxfempty : Bool
  /-- `diepempmsk.ep.in` -/
  diepempmsk : Fin 16 → Bool

/-- A transfer is started; the two interrupts, with what is read of the free space. -/
inductive Action
  | start (ep : Fin 16) (buf : Nat → UInt32) (size : Nat) (space : Space)
  | nptxfempty (spaces : Fin 16 → Space)
  | emptyintr (ep : Fin 16) (spaces : List Nat)

/-! ## The code -/

section Endpoint

variable (e : Endpoint)

/-- `data->core->dfifo[ep][0] = *state->endpoints[ep].txaddr++;` -/
def pushWord : Endpoint :=
  { e with
    fifo := e.fifo ++ [e.txbuf e.txaddr]
    txaddr := e.txaddr + 1
    xfersize := e.xfersize - 4 }

def pushWords : Nat → Endpoint → Endpoint
  | 0, e => e
  | words + 1, e => pushWords words (pushWord e)

def usable : Bool := e.epena && e.usbactep && !e.stall && !e.naksts

def maxpacket (ep : Fin 16) : Nat := if ep ≠ 0 then e.mps else 64

/-- `(MIN(maxpacket, bytesleft) + 3) >> 2` -/
def packetWords (ep : Fin 16) : Nat := (min (maxpacket e ep) e.xfersize + 3) / 4

/-- The condition under which a packet is written. -/
def Pushes (ep : Fin 16) (f : Space) : Prop :=
  f.nptxqspcavail ≠ 0 ∧ packetWords e ep ≤ f.nptxfspcavail * 4

instance (ep : Fin 16) (f : Space) : Decidable (Pushes e ep f) :=
  inferInstanceAs (Decidable (_ ∧ _))

/-- `synopsysotg_try_push` for its endpoint: whether the interrupt is enabled, and what is written. -/
def tryPush (ep : Fin 16) (f : Space) : Endpoint × Bool × List Push :=
  if usable e = false then (e, false, [])
  else if e.xfersize = 0 then (e, false, [])
  else if Pushes e ep f then
    -- `words` is -1 after the loop, and `!words` does not hold
    (pushWords (packetWords e ep) e, true, [⟨f.nptxfspcavail, packetWords e ep⟩])
  else if packetWords e ep = 0 ∧ e.xfersize ≤ maxpacket e ep then (e, false, [])
  else (e, true, [])

/-- The loop for `emptyintr`, with a value of `txfspcavail` for each time it is read. -/
@[grind =] def pushLoop : List Nat → Nat → Endpoint → Option (Endpoint × List Push)
  | _, 0, e => some (e, [])
  | [], _ + 1, _ => none
  | space :: spaces, left + 1, e =>
    let words := min space (left + 1)
    if words = 0 then some (e, [])
    else (pushLoop spaces (left + 1 - words) (pushWords words e)).map fun (e, ps) =>
      (e, ⟨space, words⟩ :: ps)

/-- The registers for a transfer; the field for its size has `bits` bits. -/
def setUp (bits : Nat) (buf : Nat → UInt32) (size : Nat) : Endpoint :=
  { e with
    epena := true
    naksts := false
    xfersize := size % 2 ^ bits
    txbuf := buf
    txaddr := 0
    size
    fifo := [] }

/-- The same for a packet without data on endpoint 0, where `txaddr` stays. -/
def setUpEmpty : Endpoint :=
  { e with
    epena := true
    naksts := false
    xfersize := 0
    size := 0
    fifo := [] }

end Endpoint

variable (s : State)

def synopsysotgTryPush (ep : Fin 16) (f : Space) : State × List Push :=
  let (e, enable, ps) := tryPush (s.eps ep) ep f
  ({ s with eps := Function.update s.eps ep e, nptxfempty := s.nptxfempty || enable }, ps)

/-- The end of `synopsysotg_start_tx` and `synopsysotg_ep0_start_tx`. -/
def startPush (ep : Fin 16) (size : Nat) (f : Space) : State × List Push :=
  if size ≠ 0 then
    if s.shared = true then synopsysotgTryPush s ep f
    else ({ s with diepempmsk := Function.update s.diepempmsk ep true }, [])
  else (s, [])

/-- `synopsysotg_start_tx`; the number of packets is a division by `mps`. -/
def synopsysotgStartTx (ep : Fin 16) (buf : Nat → UInt32) (size : Nat) (f : Space) :
    Option (State × List Push) :=
  if (s.eps ep).mps = 0 then none
  else
    some (startPush { s with eps := Function.update s.eps ep (setUp (s.eps ep) 19 buf size) } ep size f)

def synopsysotgEp0StartTx (buf : Nat → UInt32) (len : Nat) (f : Space) : State × List Push :=
  let e := if len ≠ 0 then setUp (s.eps 0) 7 buf len else setUpEmpty (s.eps 0)
  startPush { s with eps := Function.update s.eps 0 e } 0 len f

/-- `for (ep = 0; ep < 16; ep++) synopsysotg_try_push(instance, ep);` -/
def tryPushAll (spaces : Fin 16 → Space) : List (Fin 16) → State → State × List Push
  | [], s => (s, [])
  | ep :: eps, s =>
    let (s, ps) := synopsysotgTryPush s ep (spaces ep)
    let (s, qs) := tryPushAll spaces eps s
    (s, ps ++ qs)

/-- The part of `synopsysotg_irq` for `nptxfempty`. -/
def irqNptxfempty (spaces : Fin 16 → Space) : State × List Push :=
  tryPushAll spaces (List.finRange 16) { s with nptxfempty := false }

/-- The part of `synopsysotg_irq` for `emptyintr`. -/
def irqEmptyintr (ep : Fin 16) (spaces : List Nat) : Option (State × List Push) :=
  if (s.eps ep).xfersize = 0 then
    some ({ s with diepempmsk := Function.update s.diepempmsk ep false }, [])
  else
    (pushLoop spaces (((s.eps ep).xfersize + 3) / 4) (s.eps ep)).map fun (e, ps) =>
      ({ s with eps := Function.update s.eps ep e }, ps)

def step : Action → Option (State × List Push)
  | .start ep buf size f =>
    if ep = 0 then some (synopsysotgEp0StartTx s buf size f) else synopsysotgStartTx s ep buf size f
  | .nptxfempty spaces =>
    if s.shared = true ∧ s.nptxfempty = true then some (irqNptxfempty s spaces) else none
  | .emptyintr ep spaces => if s.shared = false then irqEmptyintr s ep spaces else none

/-- Nothing is to be transferred. -/
structure Initial : Prop where
  xfersize : ∀ ep, (s.eps ep).xfersize = 0
  size : ∀ ep, (s.eps ep).size = 0
  fifo : ∀ ep, (s.eps ep).fifo = []

/-! ## Words -/

/-- What was written are the first words of the buffer, and `xfersize` says how many bytes are left. -/
structure Valid (e : Endpoint) : Prop where
  words : e.fifo = (List.range e.fifo.length).map e.txbuf
  addr : e.xfersize ≠ 0 → e.txaddr = e.fifo.length
  left : e.xfersize = e.size - 4 * e.fifo.length
  count : e.fifo.length ≤ (e.size + 3) / 4

/-- What stays when words are written. -/
structure SameTransfer (e e' : Endpoint) : Prop where
  usable : usable e' = usable e
  xfersize : e'.xfersize ≤ e.xfersize

variable {s} {t : State} {a : Action} {o : List Push} {e e' : Endpoint} {ep : Fin 16} {f : Space}
  {n : Nat}

theorem SameTransfer.refl (e : Endpoint) : SameTransfer e e := ⟨rfl, Nat.le_refl _⟩

theorem SameTransfer.trans {e'' : Endpoint} (h : SameTransfer e e') (h' : SameTransfer e' e'') :
    SameTransfer e e'' := ⟨h'.usable.trans h.usable, Nat.le_trans h'.xfersize h.xfersize⟩

theorem pushWord_valid (h : Valid e) (hleft : e.xfersize ≠ 0) : Valid (pushWord e) := by
  have haddr := h.addr hleft
  have hsize := h.left
  have hlen : (pushWord e).fifo.length = e.fifo.length + 1 := by simp [pushWord]
  refine ⟨?_, fun _ => ?_, ?_, ?_⟩
  · rw [hlen, List.range_succ, List.map_append]
    show e.fifo ++ [e.txbuf e.txaddr] =
      (List.range e.fifo.length).map e.txbuf ++ [e.txbuf e.fifo.length]
    rw [haddr, ← h.words]
  · rw [hlen, ← haddr]
    rfl
  · rw [hlen]
    show e.xfersize - 4 = e.size - 4 * (e.fifo.length + 1)
    omega
  · rw [hlen]
    show e.fifo.length + 1 ≤ (e.size + 3) / 4
    omega

/-- No more words are written than there are left. -/
theorem pushWords_valid (h : Valid e) (hn : n ≤ (e.xfersize + 3) / 4) :
    Valid (pushWords n e) ∧ SameTransfer e (pushWords n e) := by
  induction n generalizing e with
  | zero => exact ⟨h, .refl e⟩
  | succ n ih =>
    have hleft : e.xfersize ≠ 0 := by omega
    have hnext : (pushWord e).xfersize = e.xfersize - 4 := rfl
    have hfirst : SameTransfer e (pushWord e) := ⟨rfl, by omega⟩
    obtain ⟨hvalid, hsame⟩ := ih (pushWord_valid h hleft) (by omega)
    exact ⟨hvalid, hfirst.trans hsame⟩

theorem packetWords_le : packetWords e ep ≤ (e.xfersize + 3) / 4 := by
  rw [packetWords]
  omega

/-- What a call of `synopsysotg_try_push` does. -/
theorem tryPush_spec (h : Valid e) : Valid (tryPush e ep f).1 ∧ SameTransfer e (tryPush e ep f).1 ∧
    (e.xfersize ≠ 0 → usable e = true → (tryPush e ep f).2.1 = true) := by
  rw [tryPush]
  split
  · rename_i huse
    exact ⟨h, .refl e, fun _ hu => by simp [huse] at hu⟩
  · split
    · rename_i hleft
      exact ⟨h, .refl e, fun hne => absurd hleft hne⟩
    · rename_i hleft
      split
      · obtain ⟨hvalid, hsame⟩ := pushWords_valid h packetWords_le
        exact ⟨hvalid, hsame, fun _ _ => rfl⟩
      · split
        · rename_i hdone
          have hdone := hdone
          rw [packetWords] at hdone
          omega
        · exact ⟨h, .refl e, fun _ _ => rfl⟩

/-- The packet that is written fits. -/
def Fit (e : Endpoint) (ep : Fin 16) (f : Space) : Prop :=
  usable e = true → e.xfersize ≠ 0 → Pushes e ep f → packetWords e ep ≤ f.nptxfspcavail

instance (e : Endpoint) (ep : Fin 16) (f : Space) : Decidable (Fit e ep f) :=
  inferInstanceAs (Decidable (_ → _ → _ → _))

theorem tryPush_fit_iff : (∀ p ∈ (tryPush e ep f).2.2, p.written ≤ p.told) ↔ Fit e ep f := by
  rw [tryPush, Fit]
  split
  · rename_i huse
    simp [huse]
  · rename_i huse
    split
    · rename_i hleft
      simp [hleft]
    · rename_i hleft
      split
      · rename_i hpush
        simp [huse, hleft, hpush]
      · rename_i hpush
        split <;> simp [hpush]

theorem pushWords_xfersize : (pushWords n e).xfersize = e.xfersize - 4 * n := by
  induction n generalizing e with
  | zero => rfl
  | succ n ih =>
    have hnext : (pushWord e).xfersize = e.xfersize - 4 := rfl
    rw [pushWords, ih, hnext]
    omega

@[simp] theorem length_pushWords : (pushWords n e).fifo.length = e.fifo.length + n := by
  induction n generalizing e with
  | zero => rfl
  | succ n ih =>
    rw [pushWords, ih]
    simp only [pushWord, List.length_append, List.length_singleton]
    omega

/-- With room for a packet, something is written. -/
theorem tryPush_progress (huse : usable e = true) (hleft : e.xfersize ≠ 0) (hpush : Pushes e ep f)
    (hmax : maxpacket e ep ≠ 0) : e.fifo.length < (tryPush e ep f).1.fifo.length := by
  have hpos : 0 < packetWords e ep := by
    rw [packetWords]
    omega
  rw [tryPush, if_neg (by simp [huse]), if_neg hleft, if_pos hpush]
  simpa using hpos

/-- With room for a word, something is written. -/
theorem pushLoop_progress {space : Nat} {spaces : List Nat} {left : Nat} {ps : List Push}
    (hspace : space ≠ 0) (hs : pushLoop (space :: spaces) (left + 1) e = some (e', ps)) :
    e.fifo.length < e'.fifo.length := by
  have hmono : ∀ (l : List Nat) (k : Nat) (x : Endpoint) (qs : List Push),
      pushLoop l k x = some (e', qs) → x.fifo.length ≤ e'.fifo.length := by
    intro l
    induction l with
    | nil =>
      intro k x qs h
      cases k with
      | zero =>
        cases h
        exact Nat.le_refl _
      | succ k => cases h
    | cons y l ih =>
      intro k x qs h
      cases k with
      | zero =>
        cases h
        exact Nat.le_refl _
      | succ k =>
        rw [pushLoop] at h
        split at h
        · cases h
          exact Nat.le_refl _
        · obtain ⟨⟨x', qs'⟩, hrest, heq⟩ := Option.map_eq_some_iff.1 h
          cases heq
          have hle := ih _ _ _ hrest
          rw [length_pushWords] at hle
          omega
  rw [pushLoop, if_neg (by omega)] at hs
  obtain ⟨⟨x, qs⟩, hrest, heq⟩ := Option.map_eq_some_iff.1 hs
  cases heq
  have hle := hmono _ _ _ _ hrest
  rw [length_pushWords] at hle
  omega

theorem pushLoop_valid {spaces : List Nat} {left : Nat} {ps : List Push} (h : Valid e)
    (hleft : left ≤ (e.xfersize + 3) / 4) (hs : pushLoop spaces left e = some (e', ps)) :
    Valid e' ∧ SameTransfer e e' := by
  induction spaces generalizing left e ps with
  | nil =>
    cases left with
    | zero =>
      cases hs
      exact ⟨h, .refl _⟩
    | succ left => cases hs
  | cons space spaces ih =>
    cases left with
    | zero =>
      cases hs
      exact ⟨h, .refl _⟩
    | succ left =>
      rw [pushLoop] at hs
      generalize hw : min space (left + 1) = words at hs
      split at hs
      · cases hs
        exact ⟨h, .refl _⟩
      · obtain ⟨⟨e₁, ps₁⟩, hrest, heq⟩ := Option.map_eq_some_iff.1 hs
        cases heq
        have hfits : words ≤ (e.xfersize + 3) / 4 := by omega
        obtain ⟨hvalid, hsame⟩ := pushWords_valid h hfits
        have hnext : left + 1 - words ≤ ((pushWords words e).xfersize + 3) / 4 := by
          rw [pushWords_xfersize]
          omega
        obtain ⟨hvalid', hsame'⟩ := ih hvalid hnext hrest
        exact ⟨hvalid', hsame.trans hsame'⟩

/-- The loop for `emptyintr` writes no more than it reads that there is space for. -/
theorem pushLoop_fit {spaces : List Nat} {left : Nat} {ps : List Push}
    (hs : pushLoop spaces left e = some (e', ps)) : ∀ p ∈ ps, p.written ≤ p.told := by
  induction spaces generalizing left e ps with
  | nil =>
    cases left with
    | zero =>
      cases hs
      simp
    | succ left => cases hs
  | cons space spaces ih =>
    cases left with
    | zero =>
      cases hs
      simp
    | succ left =>
      rw [pushLoop] at hs
      split at hs
      · cases hs
        simp
      · obtain ⟨⟨e₁, ps₁⟩, hrest, heq⟩ := Option.map_eq_some_iff.1 hs
        cases heq
        rw [List.forall_mem_cons]
        exact ⟨Nat.min_le_left _ _, ih hrest⟩

/-! ## The interrupts -/

/-- The interrupt by which the rest of a transfer is written is enabled. -/
def Enabled (s : State) (ep : Fin 16) : Prop :=
  (s.shared = true → s.nptxfempty = true) ∧ (s.shared = false → s.diepempmsk ep = true)

structure Inv (s : State) : Prop where
  valid : ∀ ep, Valid (s.eps ep)
  enabled : ∀ ep, (s.eps ep).xfersize ≠ 0 → usable (s.eps ep) = true ∧ Enabled s ep

theorem Initial.inv (h : Initial s) : Inv s where
  valid ep := by
    refine ⟨?_, fun hne => absurd (h.xfersize ep) hne, ?_, ?_⟩
    · rw [h.fifo]
      rfl
    · rw [h.xfersize, h.size, h.fifo]
      rfl
    · rw [h.size, h.fifo]
      decide
  enabled ep hne := absurd (h.xfersize ep) hne

/-- The calls of `synopsysotg_try_push` one after the other: each one for its own endpoint. -/
structure TriedAll (spaces : Fin 16 → Space) (l : List (Fin 16)) (s t : State) (o : List Push) :
    Prop where
  eps : ∀ ep, t.eps ep = if ep ∈ l then (tryPush (s.eps ep) ep (spaces ep)).1 else s.eps ep
  nptxfempty : t.nptxfempty = true ↔ s.nptxfempty = true ∨
    ∃ ep ∈ l, (tryPush (s.eps ep) ep (spaces ep)).2.1 = true
  pushes : ∀ p, p ∈ o ↔ ∃ ep ∈ l, p ∈ (tryPush (s.eps ep) ep (spaces ep)).2.2
  shared : t.shared = s.shared

theorem tryPushAll_spec {spaces : Fin 16 → Space} {l : List (Fin 16)} (hl : l.Nodup) :
    TriedAll spaces l s (tryPushAll spaces l s).1 (tryPushAll spaces l s).2 := by
  induction l generalizing s with
  | nil => exact ⟨by simp [tryPushAll], by simp [tryPushAll], by simp [tryPushAll], rfl⟩
  | cons ep l ih =>
    obtain ⟨hep, hl⟩ := List.nodup_cons.1 hl
    have hrest := ih (s := (synopsysotgTryPush s ep (spaces ep)).1) hl
    have hsame : ∀ x ∈ l, (synopsysotgTryPush s ep (spaces ep)).1.eps x = s.eps x := by
      intro x hx
      have hne : x ≠ ep := fun heq => hep (heq ▸ hx)
      exact Function.update_of_ne hne _ _
    have hself : (synopsysotgTryPush s ep (spaces ep)).1.eps ep =
        (tryPush (s.eps ep) ep (spaces ep)).1 := Function.update_self _ _ _
    refine ⟨fun x => ?_, ?_, fun p => ?_, hrest.shared⟩
    · rw [tryPushAll, hrest.eps]
      by_cases hx : x ∈ l
      · rw [if_pos hx, if_pos (List.mem_cons_of_mem _ hx), hsame x hx]
      · rw [if_neg hx]
        by_cases heq : x = ep
        · rw [heq, hself, if_pos List.mem_cons_self]
        · rw [if_neg (by simp [heq, hx])]
          exact Function.update_of_ne heq _ _
    · have hexists : (∃ x ∈ l, (tryPush ((synopsysotgTryPush s ep (spaces ep)).1.eps x) x
          (spaces x)).2.1 = true) ↔ ∃ x ∈ l, (tryPush (s.eps x) x (spaces x)).2.1 = true :=
        exists_congr fun x => and_congr_right fun hx => by rw [hsame x hx]
      rw [tryPushAll, hrest.nptxfempty, hexists]
      simp [synopsysotgTryPush, or_assoc]
    · have hexists : (∃ x ∈ l, p ∈ (tryPush ((synopsysotgTryPush s ep (spaces ep)).1.eps x) x
          (spaces x)).2.2) ↔ ∃ x ∈ l, p ∈ (tryPush (s.eps x) x (spaces x)).2.2 :=
        exists_congr fun x => and_congr_right fun hx => by rw [hsame x hx]
      rw [tryPushAll, List.mem_append, hrest.pushes, hexists]
      simp [synopsysotgTryPush]

theorem irqNptxfempty_spec (s : State) (spaces : Fin 16 → Space) :
    TriedAll spaces (List.finRange 16) { s with nptxfempty := false } (irqNptxfempty s spaces).1
      (irqNptxfempty s spaces).2 := tryPushAll_spec (List.nodup_finRange 16)

/-! ## Steps -/

/-- A transfer with data is started on an endpoint that is active and not stalled, and its size fits
into the register. -/
def Startable (s : State) : Action → Prop
  | .start ep _ size _ => size ≠ 0 →
      (s.eps ep).usbactep = true ∧ (s.eps ep).stall = false ∧ size < 2 ^ (if ep = 0 then 7 else 19)
  | _ => True

theorem setUp_valid {bits size : Nat} {buf : Nat → UInt32} (h : size < 2 ^ bits) :
    Valid (setUp e bits buf size) := by
  have hmod : size % 2 ^ bits = size := Nat.mod_eq_of_lt h
  refine ⟨rfl, fun _ => rfl, ?_, Nat.zero_le _⟩
  show size % 2 ^ bits = size - 4 * 0
  rw [hmod]
  rfl

theorem setUpEmpty_valid : Valid (setUpEmpty e) :=
  ⟨rfl, fun hne => absurd rfl hne, rfl, Nat.zero_le _⟩

/-- A step that changes one endpoint. -/
theorem Inv.update (h : Inv s) (ht : t.eps = Function.update s.eps ep e) (he : Valid e)
    (hself : e.xfersize ≠ 0 → usable e = true ∧ Enabled t ep)
    (hother : ∀ x, x ≠ ep → Enabled s x → Enabled t x) : Inv t := by
  refine ⟨fun x => ?_, fun x => ?_⟩
  · rw [ht]
    by_cases hx : x = ep
    · rw [hx, Function.update_self]
      exact he
    · rw [Function.update_of_ne hx]
      exact h.valid x
  · rw [ht]
    by_cases hx : x = ep
    · rw [hx, Function.update_self]
      exact hself
    · rw [Function.update_of_ne hx]
      intro hleft
      obtain ⟨huse, henabled⟩ := h.enabled x hleft
      exact ⟨huse, hother x hx henabled⟩

/-- One endpoint gets a new transfer, of which the first packet is written at once or in the endpoint's
interrupt. -/
theorem startPush_inv {size : Nat} (h : Inv s) (he : Valid e)
    (huse : e.xfersize ≠ 0 → size ≠ 0 ∧ usable e = true) :
    Inv (startPush { s with eps := Function.update s.eps ep e } ep size f).1 := by
  have hself : Function.update s.eps ep e ep = e := Function.update_self _ _ _
  rw [startPush]
  split
  · split
    · rename_i hshared
      obtain ⟨hvalid, hsame, henable⟩ := @tryPush_spec e ep f he
      have heps : (synopsysotgTryPush { s with eps := Function.update s.eps ep e } ep f).1.eps =
          Function.update s.eps ep (tryPush e ep f).1 := by
        simp only [synopsysotgTryPush, hself, Function.update_idem]
      refine h.update heps hvalid ?_ ?_
      · intro hleft
        have hxfer := hsame.xfersize
        have hleft' : e.xfersize ≠ 0 := by omega
        have huse' := (huse hleft').2
        refine ⟨hsame.usable.trans huse', fun _ => ?_, fun hno => ?_⟩
        · simp [synopsysotgTryPush, henable hleft' huse']
        · simp [synopsysotgTryPush, hshared] at hno
      · intro x _ henabled
        refine ⟨fun _ => ?_, fun hno => ?_⟩
        · simp [synopsysotgTryPush, henabled.1 hshared]
        · simp [synopsysotgTryPush, hshared] at hno
    · rename_i hshared
      refine h.update rfl he (fun hleft => ⟨(huse hleft).2, fun hyes => absurd hyes hshared, ?_⟩) ?_
      · intro _
        exact Function.update_self _ _ _
      · intro x hx henabled
        refine ⟨fun hyes => absurd hyes hshared, fun hno => ?_⟩
        show Function.update s.diepempmsk ep true x = true
        rw [Function.update_of_ne hx]
        exact henabled.2 hno
  · rename_i hsize
    exact h.update rfl he (fun hleft => absurd (huse hleft).1 hsize) fun _ _ henabled => henabled

theorem usable_setUp {bits size : Nat} {buf : Nat → UInt32} (hactive : e.usbactep = true)
    (hstall : e.stall = false) : usable (setUp e bits buf size) = true := by
  simp [usable, setUp, hactive, hstall]

theorem irqNptxfempty_inv (spaces : Fin 16 → Space) (h : Inv s) (hshared : s.shared = true) :
    Inv (irqNptxfempty s spaces).1 := by
  have hall := irqNptxfempty_spec s spaces
  have heps : ∀ ep, (irqNptxfempty s spaces).1.eps ep = (tryPush (s.eps ep) ep (spaces ep)).1 :=
    fun ep => (hall.eps ep).trans (if_pos (List.mem_finRange ep))
  refine ⟨fun ep => ?_, fun ep hleft => ?_⟩
  · rw [heps]
    exact (tryPush_spec (h.valid ep)).1
  · rw [heps] at hleft ⊢
    obtain ⟨-, hsame, henable⟩ := @tryPush_spec (s.eps ep) ep (spaces ep) (h.valid ep)
    have hxfer := hsame.xfersize
    have hleft' : (s.eps ep).xfersize ≠ 0 := by omega
    have huse := (h.enabled ep hleft').1
    refine ⟨hsame.usable.trans huse, fun _ => ?_, fun hno => ?_⟩
    · exact hall.nptxfempty.2 (Or.inr ⟨ep, List.mem_finRange ep, henable hleft' huse⟩)
    · have hyes : (irqNptxfempty s spaces).1.shared = true := hall.shared.trans hshared
      rw [hyes] at hno
      cases hno

theorem irqEmptyintr_inv {spaces : List Nat} (h : Inv s)
    (hs : irqEmptyintr s ep spaces = some (t, o)) : Inv t := by
  rw [irqEmptyintr] at hs
  split at hs
  · rename_i hdone
    cases hs
    have hid : s.eps = Function.update s.eps ep (s.eps ep) := (Function.update_eq_self _ _).symm
    refine h.update hid (h.valid ep) (fun hleft => absurd hdone hleft) ?_
    intro x hx henabled
    refine ⟨henabled.1, fun hno => ?_⟩
    show Function.update s.diepempmsk ep false x = true
    rw [Function.update_of_ne hx]
    exact henabled.2 hno
  · obtain ⟨⟨e, ps⟩, hloop, heq⟩ := Option.map_eq_some_iff.1 hs
    cases heq
    obtain ⟨hvalid, hsame⟩ := pushLoop_valid (h.valid ep) (Nat.le_refl _) hloop
    refine h.update rfl hvalid (fun hleft => ?_) fun _ _ henabled => henabled
    have hxfer := hsame.xfersize
    obtain ⟨huse, henabled⟩ := h.enabled ep (by omega)
    exact ⟨hsame.usable.trans huse, henabled⟩

/-- A transfer with data, in a register of `bits` bits. -/
theorem setUp_inv {bits size : Nat} (buf : Nat → UInt32) (f : Space) (h : Inv s) (hlt : size < 2 ^ bits)
    (huse : size ≠ 0 → (s.eps ep).usbactep = true ∧ (s.eps ep).stall = false) :
    Inv (startPush { s with eps := Function.update s.eps ep (setUp (s.eps ep) bits buf size) }
      ep size f).1 := by
  refine startPush_inv h (setUp_valid hlt) fun hleft => ?_
  have hsize : size ≠ 0 := by
    intro hzero
    rw [hzero] at hleft
    exact hleft (Nat.zero_mod _)
  exact ⟨hsize, usable_setUp (huse hsize).1 (huse hsize).2⟩

theorem start_inv {size : Nat} {buf : Nat → UInt32} (h : Inv s)
    (hstart : Startable s (.start ep buf size f)) (hs : step s (.start ep buf size f) = some (t, o)) :
    Inv t := by
  have huse : size ≠ 0 → (s.eps ep).usbactep = true ∧ (s.eps ep).stall = false :=
    fun hsize => ⟨(hstart hsize).1, (hstart hsize).2.1⟩
  rw [step] at hs
  by_cases hep : ep = 0
  · rw [if_pos hep, Option.some.injEq] at hs
    have hinv : Inv (synopsysotgEp0StartTx s buf size f).1 := by
      rw [synopsysotgEp0StartTx]
      split
      · rename_i hsize
        have hlt := (hstart hsize).2.2
        rw [if_pos hep] at hlt
        subst hep
        exact setUp_inv buf f h hlt huse
      · exact startPush_inv h setUpEmpty_valid fun hne => absurd rfl hne
    rw [hs] at hinv
    exact hinv
  · rw [if_neg hep, synopsysotgStartTx] at hs
    split at hs
    · cases hs
    · have hlt : size < 2 ^ 19 := by
        by_cases hsize : size = 0
        · omega
        · have hlt := (hstart hsize).2.2
          rwa [if_neg hep] at hlt
      have hinv := setUp_inv buf f h hlt huse
      rw [Option.some.inj hs] at hinv
      exact hinv

theorem step_inv (h : Inv s) (hstart : Startable s a) (hs : step s a = some (t, o)) : Inv t := by
  cases a with
  | start ep buf size f => exact start_inv h hstart hs
  | nptxfempty spaces =>
    rw [step] at hs
    split at hs
    · rename_i hon
      have heq := Option.some.inj hs
      have hinv := irqNptxfempty_inv spaces h hon.1
      rw [heq] at hinv
      exact hinv
    · cases hs
  | emptyintr ep spaces =>
    rw [step] at hs
    split at hs
    · exact irqEmptyintr_inv h hs
    · cases hs

/-! ## Runs -/

/-- The packets that the step writes fit into the space that is told. -/
def Fits (s : State) : Action → Prop
  | .start ep buf size f => s.shared = true → size ≠ 0 →
      Fit (setUp (s.eps ep) (if ep = 0 then 7 else 19) buf size) ep f
  | .nptxfempty spaces => ∀ ep, Fit (s.eps ep) ep (spaces ep)
  | .emptyintr _ _ => True

/-- No more words are written than there is space for. -/
def Right (o : List Push) : Prop := ∀ p ∈ o, p.written ≤ p.told

theorem startPush_right_iff {size : Nat} :
    Right (startPush { s with eps := Function.update s.eps ep e } ep size f).2 ↔
      (s.shared = true → size ≠ 0 → Fit e ep f) := by
  have hself : Function.update s.eps ep e ep = e := Function.update_self _ _ _
  rw [startPush]
  split
  · rename_i hsize
    split
    · rename_i hshared
      have hfit := @tryPush_fit_iff e ep f
      simp only [synopsysotgTryPush, hself, Right, hfit]
      have hyes : s.shared = true := hshared
      simp [hsize, hyes]
    · rename_i hshared
      have hno : s.shared ≠ true := hshared
      simp [Right, hno]
  · rename_i hsize
    simp [Right, not_not.1 hsize]

theorem step_right_iff (hs : step s a = some (t, o)) : Right o ↔ Fits s a := by
  cases a with
  | start ep buf size f =>
    rw [step] at hs
    by_cases hep : ep = 0
    · rw [if_pos hep, Option.some.injEq, synopsysotgEp0StartTx] at hs
      have hright := @startPush_right_iff s
        (if size ≠ 0 then setUp (s.eps 0) 7 buf size else setUpEmpty (s.eps 0)) 0 f size
      rw [hs] at hright
      rw [hright, hep, Fits, if_pos rfl]
      refine forall_congr' fun _ => forall_congr' fun hsize => ?_
      rw [if_pos hsize]
    · rw [if_neg hep, synopsysotgStartTx] at hs
      split at hs
      · cases hs
      · have hright := @startPush_right_iff s (setUp (s.eps ep) 19 buf size) ep f size
        rw [Option.some.inj hs] at hright
        rw [hright, Fits, if_neg hep]
  | nptxfempty spaces =>
    rw [step] at hs
    split at hs
    · have hall := irqNptxfempty_spec s spaces
      have heq : irqNptxfempty s spaces = (t, o) := Option.some.inj hs
      rw [heq] at hall
      constructor
      · intro hright ep
        exact tryPush_fit_iff.1 fun p hp =>
          hright p ((hall.pushes p).2 ⟨ep, List.mem_finRange ep, hp⟩)
      · intro hfits p hp
        obtain ⟨ep, -, hmem⟩ := (hall.pushes p).1 hp
        exact tryPush_fit_iff.2 (hfits ep) p hmem
    · cases hs
  | emptyintr ep spaces =>
    refine iff_of_true ?_ trivial
    rw [step] at hs
    split at hs
    · rw [irqEmptyintr] at hs
      split at hs
      · cases hs
        simp [Right]
      · obtain ⟨⟨e, ps⟩, hloop, heq⟩ := Option.map_eq_some_iff.1 hs
        cases heq
        exact pushLoop_fit hloop
    · cases hs

/-- What was written for the transfer at hand are the words of its buffer in order, all of them once
nothing is left in the register; as long as some are missing the interrupt is enabled. -/
structure Transmitted (s : State) (ep : Fin 16) : Prop where
  words : (s.eps ep).fifo = (List.range (s.eps ep).fifo.length).map (s.eps ep).txbuf
  count : (s.eps ep).fifo.length ≤ ((s.eps ep).size + 3) / 4
  done : (s.eps ep).xfersize = 0 → (s.eps ep).fifo.length = ((s.eps ep).size + 3) / 4
  enabled : 4 * (s.eps ep).fifo.length < (s.eps ep).size → Enabled s ep

theorem Inv.transmitted (h : Inv s) (ep : Fin 16) : Transmitted s ep := by
  obtain ⟨hwords, -, hleft, hcount⟩ := h.valid ep
  refine ⟨hwords, hcount, fun hdone => ?_, fun hmissing => ?_⟩
  · omega
  · exact (h.enabled ep (by omega)).2

open Lts

structure Transmits (es : List (State × Action × List Push)) (t : State) : Prop where
  transmitted : ∀ ep, Transmitted t ep
  right : ∀ e ∈ es, Right e.2.2

/-- For every run from a state without transfers. -/
theorem tx_fifo_iff {es : List (State × Action × List Push)} (h0 : Initial s)
    (h : Runs step Startable s es t) : Transmits es t ↔ ∀ e ∈ es, Fits e.1 e.2.1 := by
  have hinv : Inv t := h.invariant h0.inv fun x b y o hx hstart hs => step_inv hx hstart hs
  have hright := h.forall_entries_iff (I := fun _ => True) (G := fun _ => True)
    (R := fun e => Right e.2.2) (P := Fits) trivial trivial
    fun x b y o _ hs => ⟨trivial, fun _ => ⟨step_right_iff hs, fun _ => trivial⟩⟩
  rw [← hright]
  exact ⟨fun ht => ht.right, fun hr => ⟨hinv.transmitted, hr⟩⟩

/-! ## Two runs -/

def start (shared : Bool) : State where
  shared
  eps _ :=
    { epena := false, usbactep := true, stall := false, naksts := true, mps := 64, xfersize := 0,
      txbuf := fun _ => 0, txaddr := 0, size := 0, fifo := [] }
  nptxfempty := false
  diepempmsk _ := false

theorem start_initial (b : Bool) : Initial (start b) := ⟨fun _ => rfl, fun _ => rfl, fun _ => rfl⟩

instance (s : State) : (a : Action) → Decidable (Fits s a)
  | .start ep buf size f => inferInstanceAs (Decidable (s.shared = true → size ≠ 0 →
      Fit (setUp (s.eps ep) (if ep = 0 then 7 else 19) buf size) ep f))
  | .nptxfempty spaces => inferInstanceAs (Decidable (∀ ep, Fit (s.eps ep) ep (spaces ep)))
  | .emptyintr _ _ => .isTrue trivial

instance (s : State) : (a : Action) → Decidable (Startable s a)
  | .start ep _ size _ => inferInstanceAs (Decidable (size ≠ 0 → (s.eps ep).usbactep = true ∧
      (s.eps ep).stall = false ∧ size < 2 ^ (if ep = 0 then 7 else 19)))
  | .nptxfempty _ => .isTrue trivial
  | .emptyintr _ _ => .isTrue trivial

/-- 100 bytes in two packets. -/
theorem tx_fifo_hundred : ∃ es t, Runs step Startable (start true) es t ∧
    (t.eps 1).fifo.length = 25 ∧ Transmits es t := by
  have hall : (trace step (start true) [.start 1 (fun i => UInt32.ofNat i) 100 ⟨1, 16⟩,
      .nptxfempty fun _ => ⟨1, 9⟩]).map (fun q => ((q.2.eps 1).fifo.length,
        q.1.all fun e => decide (Startable e.1 e.2.1), q.1.all fun e => decide (Fits e.1 e.2.1))) =
          some (25, true, true) := by decide
  obtain ⟨⟨es, t⟩, ht, hq⟩ := Option.map_eq_some_iff.1 hall
  obtain ⟨hlen, hq⟩ := Prod.mk.inj hq
  obtain ⟨hstart, hfits⟩ := Prod.mk.inj hq
  have hany : Runs step (fun _ _ => True) (start true) es t := trace_runs ht fun _ _ _ => trivial
  have hruns : Runs step Startable (start true) es t :=
    hany.of_forall fun e he _ => of_decide_eq_true (List.all_eq_true.1 hstart e he)
  refine ⟨es, t, hruns, hlen, (tx_fifo_iff (start_initial true) hruns).2 fun e he => ?_⟩
  exact of_decide_eq_true (List.all_eq_true.1 hfits e he)

/-- Two words are written with space for one: the number of free words is taken four times. -/
theorem pushes_too_much : ¬ ∀ s es t, Initial s → Runs step (fun _ _ => True) s es t →
    Transmits es t := by
  intro h
  have hlast : (trace step (start true) [.start 1 (fun i => UInt32.ofNat i) 8 ⟨1, 1⟩]).map
      (fun q => q.1.map fun e => e.2.2) = some [[⟨1, 2⟩]] := by decide
  obtain ⟨⟨es, t⟩, ht, he⟩ := Option.map_eq_some_iff.1 hlast
  obtain ⟨x, rest, hes, hx, -⟩ := List.map_eq_cons_iff.1 he
  have hright := (h (start true) es t (start_initial true) (trace_runs ht fun _ _ _ => trivial)).right
    x (by rw [show es = x :: rest from hes]; exact List.mem_cons_self)
  rw [hx] at hright
  exact absurd (hright ⟨1, 2⟩ List.mem_cons_self) (by decide)

end TxFifo
end Usb
end Freemyipod
