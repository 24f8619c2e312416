import Mathlib
import Freemyipod.Button.Clickwheel

/-!
# Button.Motion

The wheel while it stays touched.

* `RightMove`: a packet reports the shortest way, and the acceleration starts again when the timeout has
  expired or the direction changes.
* `rightMove_iff`: when it does. The source compares the directions before it looks for the shorter way.
* `motion_iff`: the same for all runs, and that what was moved is what was sent and what is left.
-/

namespace Freemyipod
namespace Button
namespace Clickwheel

/-! ## What is to be sent -/

/-- `d` is the signed shortest way around the wheel. -/
def ShortestWay (oldpos newpos d : Int) : Prop := 96 ∣ newpos - oldpos - d ∧ -48 ≤ d ∧ d ≤ 48

/-- The timeout of the acceleration has expired. -/
def Expired (p : Packet) : Prop := 200000 < p.waited

instance (p : Packet) : Decidable (Expired p) := inferInstanceAs (Decidable (_ < _))

abbrev Entry := State × Packet × List Output

/-- The distance that the packet before reported. -/
def lastMoved (es : List Entry) : Int :=
  es.foldl (fun _ e => (sent .wheelMoved e.2.2).headD 0) 0

/-- The sum of `f` since the wheel was touched. -/
def sinceTouch (f : List Output → Int) (es : List Entry) : Int :=
  es.foldl (fun n e => if sent .wheelTouch e.2.2 = [] then n + f e.2.2 else f e.2.2) 0

def steps (o : List Output) : Int := (sent .wheelForward o).sum - (sent .wheelBackward o).sum

def accelerated (o : List Output) : Int := (sent .wheelMovedAccel o).sum

/-- A packet for a wheel that stays touched is right. -/
def RightMove (classic : Bool) (previous : Int) (s : State) (p : Packet) : Prop :=
  ∃ d, sent .wheelMoved (clickwheelThread s p classic).2 = [d] ∧ ShortestWay s.oldpos p.newpos d ∧
    sent .wheelMovedAccel (clickwheelThread s p classic).2 =
      [d * (clickwheelThread s p classic).1.packets] ∧
    (clickwheelThread s p classic).1.packets =
      if Expired p ∨ d * previous < 0 then 10 else min (s.packets + 1) 200

/-- A change packet with a position of the wheel. -/
def OnWheel (p : Packet) : Prop := p.IsChange ∧ p.newpos < 96

/-! ## A packet -/

/-- The timeout has expired, but the timer has come around since. -/
def Lapped (s : State) (p : Packet) : Prop :=
  Expired p ∧
    timeoutExpired (s.lastpacket + BitVec.ofNat 32 p.waited) s.lastpacket 200000 = false

/-- The code finds the direction that it is to find, or the counter is 10 either way: the timeout has
expired, or the wheel has passed the end of its positions for both distances or for none of them. -/
def Steady (s : State) (p : Packet) : Prop :=
  s.packets = 9 ∨
    (Lapped s p → s.lastdiff * distance s p < 0) ∧
      (¬ Lapped s p → Expired p ∨ s.lastdiff = 0 ∨ distance s p = 0 ∨
        (48 < |s.lastdiff| ↔ 48 < |distance s p|))

/-- The invariant of the thread. -/
structure Inv (s : State) : Prop where
  oldpos : 0 ≤ s.oldpos ∧ s.oldpos < 96
  lastdiff : -95 ≤ s.lastdiff ∧ s.lastdiff ≤ 95
  packets : 0 ≤ s.packets ∧ s.packets ≤ 200
  untouched : s.oldtouched = false → s.lastdiff = 0 ∧ s.collect = 0

variable {s : State} {p : Packet} {classic : Bool}

theorem timeoutExpired_waited {a : BitVec 32} :
    timeoutExpired (a + BitVec.ofNat 32 p.waited) a 200000 = true → Expired p := by
  intro h
  rw [Expired]
  by_contra hle
  have hsub : a + 200000 - (a + BitVec.ofNat 32 p.waited) = 200000 - BitVec.ofNat 32 p.waited := by
    bv_omega
  have hnonneg : 0 ≤ (200000 - BitVec.ofNat 32 p.waited : BitVec 32).toInt := by
    have hnat : (200000 - BitVec.ofNat 32 p.waited : BitVec 32).toNat = 200000 - p.waited := by
      bv_omega
    rw [BitVec.toInt_eq_toNat_of_lt] <;> omega
  rw [timeoutExpired, hsub] at h
  exact absurd (of_decide_eq_true h) (by omega)

theorem distance_bounds (h : Inv s) (hp : p.newpos < 96) :
    -95 ≤ distance s p ∧ distance s p ≤ 95 := by
  have hold := h.oldpos
  rw [distance]
  split <;> omega

theorem shortestWay_shorter (h : Inv s) (hp : p.newpos < 96) (ht : s.oldtouched = true) :
    ShortestWay s.oldpos p.newpos (shorter (distance s p)) := by
  have hb := distance_bounds h hp
  rw [distance, if_pos ht] at hb ⊢
  rw [shorter]
  refine ⟨?_, ?_, ?_⟩ <;> split_ifs <;> omega

/-- The shorter way has the other sign if the wheel has passed the end of its positions. -/
theorem shorter_neg_iff {d : Int} (hd : -95 ≤ d ∧ d ≤ 95) :
    shorter d < 0 ↔ d < 0 ∧ ¬ 48 < |d| ∨ 0 < d ∧ 48 < |d| := by
  rw [shorter, lt_abs]
  split_ifs <;> omega

theorem shorter_pos_iff {d : Int} (hd : -95 ≤ d ∧ d ≤ 95) :
    0 < shorter d ↔ 0 < d ∧ ¬ 48 < |d| ∨ d < 0 ∧ 48 < |d| := by
  rw [shorter, lt_abs]
  split_ifs <;> omega

theorem opposite_iff {d l : Int} (hd : -95 ≤ d ∧ d ≤ 95) (hl : -95 ≤ l ∧ l ≤ 95) :
    (l * d < 0 ↔ shorter d * shorter l < 0) ↔ l = 0 ∨ d = 0 ∨ (48 < |l| ↔ 48 < |d|) := by
  simp only [mul_neg_iff, shorter_neg_iff hd, shorter_neg_iff hl, shorter_pos_iff hd,
    shorter_pos_iff hl]
  by_cases h1 : 48 < |l| <;> by_cases h2 : 48 < |d|
  all_goals
    simp only [h1, h2, not_true_eq_false, not_false_eq_true, and_true, and_false, or_false, false_or,
      iff_true, iff_false, or_true]
    omega

/-- What is sent for a wheel that is touched. -/
theorem sent_touched {e : ButtonEvent} (hp : p.IsChange) (hn : p.newtouched = true)
    (he : e ≠ .buttonPress) (he' : e ≠ .buttonRelease) :
    sent e (clickwheelThread s p classic).2 = sent e (wheelTouched s p).2 := by
  rw [sent_clickwheelThread hp he he', wheel, if_pos hn]

theorem moved_touched (hp : p.IsChange) (hn : p.newtouched = true) :
    sent .wheelMoved (clickwheelThread s p classic).2 = [shorter (distance s p)] := by
  rw [sent_touched hp hn (by decide) (by decide), wheelTouched]
  split_ifs <;> simp

theorem packets_touched (hp : p.IsChange) (hn : p.newtouched = true) :
    (clickwheelThread s p classic).1.packets = newPackets s p := by
  simp only [clickwheelThread_change hp, wheel, if_pos hn, wheelTouched]

/-- The counter starts again at 10, or grows up to 200. -/
theorem newPackets_eq :
    newPackets s p =
      if timeoutExpired (s.lastpacket + BitVec.ofNat 32 p.waited) s.lastpacket 200000 = true ∨
        s.lastdiff * distance s p < 0 then 10 else min (s.packets + 1) 200 := by
  have hcap : ∀ n : Int, (if 200 < n then 200 else n) = min n 200 := by
    intro n
    rw [min_def]
    split_ifs <;> omega
  rw [newPackets, hcap]
  by_cases hexp : timeoutExpired (s.lastpacket + BitVec.ofNat 32 p.waited) s.lastpacket 200000 = true
  · simp only [hexp, if_true, true_or]
    decide
  · by_cases hopp : s.lastdiff * distance s p < 0
    · simp only [hexp, hopp, if_true, or_true, ite_self]
      decide
    · simp only [hexp, hopp, if_false, or_self, Bool.false_eq_true]

/-- Two decisions for 10, of which `E ∨ O` is made and `R ∨ I` is meant, have the same result. -/
theorem decision_iff {E R O I X : Prop} [Decidable E] [Decidable R] [Decidable O] [Decidable I]
    {n m : Int} (hm : m = 10 ↔ n = 9) (hE : E → R) (hX : (O ↔ I) ↔ X) :
    (if E ∨ O then (10 : Int) else m) = (if R ∨ I then 10 else m) ↔
      n = 9 ∨ (R ∧ ¬ E → O) ∧ (¬ (R ∧ ¬ E) → R ∨ X) := by
  rw [← hX, ← hm]
  by_cases h1 : E
  · simp [h1, hE h1]
  · by_cases h2 : R <;> by_cases h3 : O <;> by_cases h4 : I <;> simp [h1, h2, h3, h4, eq_comm]

/-- When a packet is right. -/
theorem rightMove_iff (h : Inv s) (hp : OnWheel p) (ht : s.oldtouched = true)
    (hn : p.newtouched = true) :
    RightMove classic (shorter s.lastdiff) s p ↔ Steady s p := by
  have haccel : sent .wheelMovedAccel (clickwheelThread s p classic).2 =
      [shorter (distance s p) * newPackets s p] := by
    rw [sent_touched hp.1 hn (by decide) (by decide), wheelTouched]
    split_ifs <;> simp
  have hway := shortestWay_shorter h hp.2 ht
  have hiff : RightMove classic (shorter s.lastdiff) s p ↔
      newPackets s p = if Expired p ∨ shorter (distance s p) * shorter s.lastdiff < 0 then 10
        else min (s.packets + 1) 200 := by
    rw [RightMove, packets_touched hp.1 hn, moved_touched hp.1 hn, haccel]
    constructor
    · rintro ⟨d, hd, -, -, hpackets⟩
      rw [List.singleton_inj] at hd
      rwa [← hd] at hpackets
    · intro hpackets
      exact ⟨_, rfl, hway, rfl, hpackets⟩
  have hopp := opposite_iff (distance_bounds h hp.2) h.lastdiff
  have htimer := timeoutExpired_waited (p := p) (a := s.lastpacket)
  have hle := h.packets
  have hmin : min (s.packets + 1) 200 = 10 ↔ s.packets = 9 := by omega
  rw [hiff, newPackets_eq, decision_iff hmin htimer hopp, Steady, Lapped, Bool.not_eq_true]

/-! ## Runs -/

/-- The wheel is touched before and after the packet. -/
def StaysTouched (s : State) (p : Packet) : Prop := s.oldtouched = true ∧ p.newtouched = true

/-- All packets are right, and what was moved is what was sent in steps, and what is left. -/
structure Motion (classic : Bool) (es : List Entry) (t : State) : Prop where
  right : ∀ pre s p o post, es = pre ++ (s, p, o) :: post → StaysTouched s p →
    RightMove classic (lastMoved pre) s p
  total : t.oldtouched = true → 128 * sinceTouch steps es + t.collect = sinceTouch accelerated es

@[simp] theorem lastMoved_append {es : List Entry} {o : List Output} :
    lastMoved (es ++ [(s, p, o)]) = (sent .wheelMoved o).headD 0 := by
  simp [lastMoved]

@[simp] theorem sinceTouch_append {f : List Output → Int} {es : List Entry} {o : List Output} :
    sinceTouch f (es ++ [(s, p, o)]) =
      if sent .wheelTouch o = [] then sinceTouch f es + f o else f o := by
  simp [sinceTouch]

theorem newPackets_bounds (h : Inv s) : 0 ≤ newPackets s p ∧ newPackets s p ≤ 200 := by
  have hle := h.packets
  rw [newPackets_eq]
  split <;> omega

theorem inv_init : Inv init := by
  constructor <;> simp [init]

theorem Inv.thread (h : Inv s) (hp : OnWheel p) : Inv (clickwheelThread s p classic).1 := by
  have hb := distance_bounds h hp.2
  have hpackets := newPackets_bounds (p := p) h
  have hpos := hp.2
  rw [clickwheelThread_change hp.1, wheel]
  by_cases hn : p.newtouched = true
  · rw [if_pos hn]
    refine ⟨by dsimp only; omega, by simpa only [wheelTouched] using hb,
      by simpa only [wheelTouched] using hpackets, fun hno => ?_⟩
    rw [hn] at hno
    cases hno
  · rw [if_neg hn]
    by_cases ht : s.oldtouched = true
    · rw [if_pos ht]
      exact ⟨by dsimp only; omega, by simp [wheelUntouched], by simp [wheelUntouched],
        fun _ => ⟨rfl, rfl⟩⟩
    · rw [if_neg ht]
      exact ⟨by dsimp only; omega, h.lastdiff, h.packets,
        fun _ => h.untouched (by simpa using ht)⟩

theorem lastdiff_thread (hp : p.IsChange) (hn : p.newtouched = true) :
    (clickwheelThread s p classic).1.lastdiff = distance s p := by
  simp only [clickwheelThread_change hp, wheel, if_pos hn, wheelTouched]

theorem collect_thread (hp : p.IsChange) (hn : p.newtouched = true) :
    (clickwheelThread s p classic).1.collect =
      (s.collect + shorter (distance s p) * newPackets s p).tmod 128 := by
  simp only [clickwheelThread_change hp, wheel, if_pos hn, wheelTouched]

/-- The steps are what is collected, without the rest. -/
theorem steps_touched (hp : p.IsChange) (hn : p.newtouched = true) :
    steps (clickwheelThread s p classic).2 =
      (s.collect + shorter (distance s p) * newPackets s p).tdiv 128 := by
  rw [steps, sent_touched hp hn (by decide) (by decide), sent_touched hp hn (by decide) (by decide),
    wheelTouched]
  generalize s.collect + shorter (distance s p) * newPackets s p = c
  by_cases hc : 0 < c
  · have hdiv : c.tdiv 128 = c / 128 := Int.tdiv_eq_ediv_of_nonneg (by omega)
    simp only [if_pos hc, hdiv]
    split_ifs with hold hzero hzero <;> simp_all
  · have hdiv : c.tdiv 128 = -(-c / 128) := by
      rw [← Int.tdiv_eq_ediv_of_nonneg (by omega : 0 ≤ -c), Int.neg_tdiv, Int.neg_neg]
    simp only [if_neg hc, hdiv]
    split_ifs with hold hzero hzero <;> simp_all

theorem accelerated_touched (hp : p.IsChange) (hn : p.newtouched = true) :
    accelerated (clickwheelThread s p classic).2 = shorter (distance s p) * newPackets s p := by
  rw [accelerated, sent_touched hp hn (by decide) (by decide), wheelTouched]
  split_ifs <;> simp

theorem touch_sent (hp : p.IsChange) (hn : p.newtouched = true) :
    sent .wheelTouch (clickwheelThread s p classic).2 = [] ↔ s.oldtouched = true := by
  rw [sent_touched hp hn (by decide) (by decide), wheelTouched]
  split_ifs <;> simp_all

/-- What a packet for a wheel that is not touched reports. -/
theorem moved_untouched (hp : p.IsChange) (hn : ¬ p.newtouched = true) :
    sent .wheelMoved (clickwheelThread s p classic).2 = [] := by
  rw [sent_clickwheelThread hp (by decide) (by decide), wheel, if_neg hn]
  split_ifs <;> simp [wheelUntouched]

/-- The invariant of the runs. -/
structure Tracked (es : List Entry) (s : State) : Prop where
  inv : Inv s
  last : lastMoved es = shorter s.lastdiff
  total : s.oldtouched = true → 128 * sinceTouch steps es + s.collect = sinceTouch accelerated es

theorem Tracked.thread {es : List Entry} (h : Tracked es s) (hp : OnWheel p) :
    Tracked (es ++ [(s, p, (clickwheelThread s p classic).2)]) (clickwheelThread s p classic).1 := by
  have hinv : Inv (clickwheelThread s p classic).1 := h.inv.thread hp
  refine ⟨hinv, ?_, fun ht => ?_⟩
  · rw [lastMoved_append]
    by_cases hn : p.newtouched = true
    · rw [moved_touched hp.1 hn, lastdiff_thread hp.1 hn]
      rfl
    · have huntouched : (clickwheelThread s p classic).1.oldtouched = false := by
        simpa [clickwheelThread_change hp.1] using hn
      rw [moved_untouched hp.1 hn, (hinv.untouched huntouched).1]
      rfl
  · have hn : p.newtouched = true := by
      simpa [clickwheelThread_change hp.1] using ht
    have hsum := Int.mul_tdiv_add_tmod (s.collect + shorter (distance s p) * newPackets s p) 128
    rw [sinceTouch_append, sinceTouch_append, steps_touched hp.1 hn, accelerated_touched hp.1 hn,
      collect_thread hp.1 hn]
    by_cases hold : s.oldtouched = true
    · have htotal := h.total hold
      rw [if_pos ((touch_sent hp.1 hn).2 hold), if_pos ((touch_sent hp.1 hn).2 hold)]
      omega
    · have hcollect := (h.inv.untouched (by simpa using hold)).2
      have hno : ¬ sent .wheelTouch (clickwheelThread s p classic).2 = [] :=
        mt (touch_sent hp.1 hn).1 hold
      rw [if_neg hno, if_neg hno]
      omega

/-- For every run of the wheel's packets. -/
theorem motion_iff {es : List Entry} {t : State}
    (h : Lts.Runs (step classic) (fun _ p => OnWheel p) init es t) :
    Motion classic es t ↔ ∀ e ∈ es, StaysTouched e.1 e.2.1 → Steady e.1 e.2.1 := by
  have htracked : Tracked es t := by
    refine h.invariant_trace (I := Tracked) ⟨inv_init, rfl, fun ht => by cases ht⟩ ?_
    rintro l s p t o hl hp hstep
    cases hstep
    exact hl.thread hp
  have hentry : ∀ pre s p o post, es = pre ++ (s, p, o) :: post →
      OnWheel p ∧ Tracked pre s := by
    intro pre s p o post heq
    obtain ⟨hpre, hp, -⟩ := h.split heq
    refine ⟨hp, hpre.invariant_trace (I := Tracked) ⟨inv_init, rfl, fun ht => by cases ht⟩ ?_⟩
    rintro l s p t o hl hp hstep
    cases hstep
    exact hl.thread hp
  constructor
  · rintro hmotion ⟨s, p, o⟩ hmem hstays
    obtain ⟨pre, post, heq⟩ := List.append_of_mem hmem
    obtain ⟨hp, hpre⟩ := hentry pre s p o post heq
    have hright := hmotion.right pre s p o post heq hstays
    rw [hpre.last] at hright
    exact (rightMove_iff hpre.inv hp hstays.1 hstays.2).1 hright
  · intro hall
    refine ⟨fun pre s p o post heq hstays => ?_, htracked.total⟩
    obtain ⟨hp, hpre⟩ := hentry pre s p o post heq
    have hmem : (s, p, o) ∈ es := by
      rw [heq]
      exact List.mem_append_right _ List.mem_cons_self
    rw [hpre.last]
    exact (rightMove_iff hpre.inv hp hstays.1 hstays.2).2 (hall _ hmem hstays)

/-- The wheel is touched at a position, 10 milliseconds after the last packet. -/
def touchAt (pos : Nat) : Packet where
  data := 0xc000001a ||| BitVec.ofNat 32 (pos <<< 16)
  waited := 10000
  busy := 0

instance (p : Packet) : Decidable (OnWheel p) := inferInstanceAs (Decidable (_ ∧ _))

instance (s : State) (p : Packet) : Decidable (Lapped s p) := inferInstanceAs (Decidable (_ ∧ _))

instance (s : State) (p : Packet) : Decidable (Steady s p) := inferInstanceAs (Decidable (_ ∨ _))

instance (s : State) (p : Packet) : Decidable (StaysTouched s p) :=
  inferInstanceAs (Decidable (_ ∧ _))

theorem motion_three : ∃ es t, Lts.Runs (step false) (fun _ p => OnWheel p) init es t ∧
    es.length = 3 ∧ Motion false es t := by
  have htrace : (Lts.trace (step false) init [touchAt 10, touchAt 14, touchAt 20]).map (fun r =>
      (r.1.length, r.1.all fun e => decide (Steady e.1 e.2.1))) = some (3, true) := by decide +kernel
  obtain ⟨⟨es, t⟩, hr, hall⟩ := Option.map_eq_some_iff.1 htrace
  obtain ⟨hlen, hsteady⟩ := Prod.mk.inj hall
  have hrun : Lts.Runs (step false) (fun _ p => OnWheel p) init es t := by
    refine Lts.trace_runs hr fun x p hp => ?_
    simp only [List.mem_cons, List.not_mem_nil, or_false] at hp
    rcases hp with rfl | rfl | rfl <;> decide
  refine ⟨es, t, hrun, hlen, (motion_iff hrun).2 fun e he _ => ?_⟩
  exact of_decide_eq_true (List.all_eq_true.1 hsteady e he)

/-- From position 94 by 4 to 2, and by 4 to 6: the direction is taken for another. -/
theorem turns_at_zero : ¬ ∀ es t, Lts.Runs (step false) (fun _ p => OnWheel p) init es t →
    Motion false es t := by
  intro h
  have htrace : (Lts.trace (step false) init [touchAt 94, touchAt 2, touchAt 6]).map (fun r =>
      (lastMoved (r.1.take 2), (r.1.drop 2).map fun e =>
        decide (StaysTouched e.1 e.2.1 ∧
          sent .wheelMoved (clickwheelThread e.1 e.2.1 false).2 = [4] ∧
          (clickwheelThread e.1 e.2.1 false).1.packets = 10 ∧ ¬ Expired e.2.1 ∧
          e.1.packets = 2))) = some (4, [true]) := by decide +kernel
  obtain ⟨⟨es, t⟩, hr, hall⟩ := Option.map_eq_some_iff.1 htrace
  obtain ⟨hlast, hdrop⟩ := Prod.mk.inj hall
  obtain ⟨⟨s, p, o⟩, hes, he⟩ := List.map_eq_singleton_iff.1 hdrop
  obtain ⟨hstays, hsent, hafter, hexp, hbefore⟩ := of_decide_eq_true he
  have hrun : Lts.Runs (step false) (fun _ p => OnWheel p) init es t := by
    refine Lts.trace_runs hr fun x p hp => ?_
    simp only [List.mem_cons, List.not_mem_nil, or_false] at hp
    rcases hp with rfl | rfl | rfl <;> decide
  have hsplit : es = es.take 2 ++ (s, p, o) :: [] := by
    rw [← hes, List.take_append_drop]
  obtain ⟨d, hd, -, -, hpackets⟩ := (h es t hrun).right _ s p o [] hsplit hstays
  rw [hsent, List.singleton_inj] at hd
  rw [hafter, hbefore, hlast, ← hd, if_neg (by simp [hexp])] at hpackets
  exact absurd hpackets (by decide)

end Clickwheel
end Button
end Freemyipod
