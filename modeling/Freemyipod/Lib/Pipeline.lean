import Mathlib.Data.List.Flatten
import Mathlib.Data.List.Range

/-!
# Lib.Pipeline

Numbered jobs on several lanes. Each job is started and later collected; a start or a collect
that fails is followed by a check of its job.

* `Log failed width s c tr`: the jobs below `s` have been started and those below `c` collected,
  in order and with at most `width` of them under way. `failed` tells from the events up to now
  whether the last of them failed.
* `Log.starts`, `Log.onLane`: each job is started once, and where the jobs under way are on
  different lanes, each lane sees its jobs started and collected one after the other.
* `Log.check_follows`, `Log.failed_checked`: the checks are those of the jobs that failed, each
  right after the event that failed.
-/

namespace Pipeline

/-- What happens to job `k`. -/
inductive Event where
  | start (k : Nat)
  | collect (k : Nat)
  | check (k : Nat)

namespace Event

/-- The job that an event starts. -/
def started : Event → Option Nat
  | start k => some k
  | collect _ => none
  | check _ => none

/-- The event starts or collects a job of lane `b`. -/
def onLane (lane : Nat → Nat) (b : Nat) : Event → Bool
  | start k => lane k == b
  | collect k => lane k == b
  | check _ => false

/-- The event starts or collects job `k`. -/
def WorksOn (k : Nat) (e : Event) : Prop := e = start k ∨ e = collect k

end Event

open Event

/-- The events after `e`, which is about job `k`. -/
@[grind =] def report (failed : List Event → Bool) (tr : List Event) (e : Event) (k : Nat) : List Event :=
  if failed (tr ++ [e]) then tr ++ [e] ++ [check k] else tr ++ [e]

/-- The jobs below `s` have been started and those below `c` collected. -/
inductive Log (failed : List Event → Bool) (width : Nat) : Nat → Nat → List Event → Prop
  | nil : Log failed width 0 0 []
  | start {s c : Nat} {tr : List Event} : Log failed width s c tr → s < c + width →
      Log failed width (s + 1) c (report failed tr (.start s) s)
  | collect {s c : Nat} {tr : List Event} : Log failed width s c tr → c < s →
      Log failed width s (c + 1) (report failed tr (.collect c) c)

variable {failed : List Event → Bool} {width s c k b : Nat} {tr pre post : List Event}
  {e x y : Event} {lane : Nat → Nat}

/-- Where an entry of a list can be that was added to at its end. -/
theorem concat_split (h : tr ++ [x] = pre ++ y :: post) :
    (post = [] ∧ pre = tr ∧ y = x) ∨ ∃ rest, post = rest ++ [x] ∧ tr = pre ++ y :: rest := by
  rcases List.eq_nil_or_concat post with hnil | ⟨rest, z, hpost⟩
  · subst hnil
    have heq := List.append_inj' h rfl
    exact .inl ⟨rfl, heq.1.symm, (List.cons.inj heq.2).1.symm⟩
  · rw [List.concat_eq_append] at hpost
    subst hpost
    have h' : tr ++ [x] = (pre ++ y :: rest) ++ [z] := by
      rw [h, List.append_assoc, List.cons_append]
    have heq := List.append_inj' h' rfl
    exact .inr ⟨rest, by rw [(List.cons.inj heq.2).1], heq.1⟩

theorem report_filterMap : (report failed tr e k).filterMap started =
    tr.filterMap started ++ e.started.toList := by
  rw [report]
  split
  · cases e <;> simp [started]
  · cases e <;> simp [started]

theorem report_filter : (report failed tr e k).filter (onLane lane b) =
    tr.filter (onLane lane b) ++ if e.onLane lane b then [e] else [] := by
  have hone : ∀ x : Event, [x].filter (onLane lane b) = if x.onLane lane b then [x] else [] :=
    fun x => List.filter_cons
  rw [report]
  split
  · rw [List.filter_append, List.filter_append, hone, hone]
    exact List.append_nil _
  · rw [List.filter_append, hone]

namespace Log

theorem le (h : Log failed width s c tr) : c ≤ s ∧ s ≤ c + width := by
  induction h with
  | nil => exact ⟨Nat.le_refl 0, Nat.zero_le _⟩
  | start _ hlt ih => omega
  | collect _ hlt ih => omega

/-- Each job is started once, in order. -/
theorem starts (h : Log failed width s c tr) : tr.filterMap started = List.range s := by
  induction h with
  | nil => rfl
  | start _ _ ih => rw [report_filterMap, ih, List.range_succ]; rfl
  | collect _ _ ih => rw [report_filterMap, ih]; exact List.append_nil _

/-! ## Lanes -/

/-- What a lane has seen of job `k`. -/
def seen (c k : Nat) : List Event := if k < c then [.start k, .collect k] else [.start k]

theorem seen_congr {l : List Nat} (h : ∀ k ∈ l, k ≠ c) :
    l.flatMap (seen (c + 1)) = l.flatMap (seen c) := by
  refine List.flatMap_congr fun k hk => ?_
  have hne := h k hk
  have hiff : k < c + 1 ↔ k < c := by omega
  rw [seen, seen, if_congr hiff rfl rfl]

/-- The jobs of a lane, when it has seen the last of them started and now sees it collected. -/
theorem seen_collect (hdist : ∀ i j, i < j → j < i + width → j < s → lane i ≠ lane j)
    (hcs : c < s) (hsw : s ≤ c + width) :
    ((List.range s).filter (lane · == lane c)).flatMap (seen (c + 1)) =
      ((List.range s).filter (lane · == lane c)).flatMap (seen c) ++ [.collect c] := by
  have hrange : List.range s = List.range c ++ c :: List.range' (c + 1) (s - (c + 1)) := by
    rw [List.range_eq_range', List.range_eq_range', ← List.range'_succ]
    have happ := @List.range'_append_1 0 c (s - (c + 1) + 1)
    rw [Nat.zero_add] at happ
    rw [happ]
    congr 1
    omega
  have hlate : (List.range' (c + 1) (s - (c + 1))).filter (lane · == lane c) = [] := by
    rw [List.filter_eq_nil_iff]
    intro j hj heq
    rw [List.mem_range'_1] at hj
    exact hdist c j (by omega) (by omega) (by omega) (beq_iff_eq.1 heq).symm
  have hearly : ∀ k ∈ (List.range c).filter (lane · == lane c), k ≠ c := by
    intro k hk
    have := List.mem_range.1 (List.mem_filter.1 hk).1
    omega
  rw [hrange, List.filter_append, List.filter_cons_of_pos (by simp), hlate, List.flatMap_append,
    List.flatMap_append, seen_congr hearly]
  simp [seen]

theorem seen_other (hne : lane c ≠ b) :
    ((List.range s).filter (lane · == b)).flatMap (seen (c + 1)) =
      ((List.range s).filter (lane · == b)).flatMap (seen c) := by
  refine seen_congr fun k hk heq => hne ?_
  rw [← heq]
  exact beq_iff_eq.1 (List.mem_filter.1 hk).2

/-- A lane sees its jobs one after the other: each is collected before the next is started. -/
theorem onLane (h : Log failed width s c tr)
    (hdist : ∀ i j, i < j → j < i + width → j < s → lane i ≠ lane j) (b : Nat) :
    tr.filter (Event.onLane lane b) =
      ((List.range s).filter (lane · == b)).flatMap (seen c) := by
  induction h with
  | nil => rfl
  | @start s c tr hlog _ ih =>
    have hle := hlog.le.1
    have hseen := ih fun i j hij hjw hjs => hdist i j hij hjw (by omega)
    rw [report_filter, hseen, List.range_succ, List.filter_append, List.flatMap_append]
    congr 1
    by_cases hb : lane s = b
    · simp [Event.onLane, hb, seen, Nat.not_lt.2 hle]
    · simp [Event.onLane, hb]
  | @collect s c tr hlog hlt ih =>
    rw [report_filter, ih hdist]
    by_cases hb : lane c = b
    · subst hb
      rw [seen_collect hdist hlt hlog.le.2]
      simp [Event.onLane]
    · rw [seen_other hb]
      simp [Event.onLane, hb]

/-! ## Checks -/

/-- A check follows the event that failed. -/
theorem check_follows (h : Log failed width s c tr) :
    ∀ pre k post, tr = pre ++ check k :: post →
      ∃ before e, pre = before ++ [e] ∧ e.WorksOn k ∧ failed pre = true := by
  have step : ∀ {tr e k}, e.WorksOn k →
      (∀ pre k post, tr = pre ++ check k :: post →
        ∃ before e, pre = before ++ [e] ∧ e.WorksOn k ∧ failed pre = true) →
      ∀ pre j post, report failed tr e k = pre ++ check j :: post →
        ∃ before e, pre = before ++ [e] ∧ e.WorksOn j ∧ failed pre = true := by
    intro tr e k he ih pre j post heq
    have hearlier : ∀ post, tr ++ [e] = pre ++ check j :: post →
        ∃ before e, pre = before ++ [e] ∧ e.WorksOn j ∧ failed pre = true := by
      intro post heq
      rcases concat_split heq with ⟨-, -, hx⟩ | ⟨rest, -, htr⟩
      · subst hx
        rcases he with h | h <;> cases h
      · exact ih pre j rest htr
    rw [report] at heq
    split at heq
    case isTrue hf =>
      rcases concat_split heq with ⟨-, hpre, hx⟩ | ⟨rest, -, htr⟩
      · cases hx
        exact ⟨tr, e, hpre, he, by rw [hpre]; exact hf⟩
      · exact hearlier rest htr
    case isFalse => exact hearlier post heq
  induction h with
  | nil => exact fun pre k post h => by simp at h
  | start _ _ ih => exact step (.inl rfl) ih
  | collect _ _ ih => exact step (.inr rfl) ih

/-- An event that fails is followed by a check of its job. -/
theorem failed_checked (h : Log failed width s c tr) :
    ∀ pre e k post, tr = pre ++ e :: post → e.WorksOn k → failed (pre ++ [e]) = true →
      ∃ rest, post = check k :: rest := by
  have step : ∀ {tr x k}, x.WorksOn k →
      (∀ pre e k post, tr = pre ++ e :: post → e.WorksOn k → failed (pre ++ [e]) = true →
        ∃ rest, post = check k :: rest) →
      ∀ pre e j post, report failed tr x k = pre ++ e :: post → e.WorksOn j →
        failed (pre ++ [e]) = true → ∃ rest, post = check j :: rest := by
    intro tr x k hx ih pre e j post heq he hf
    rw [report] at heq
    split at heq
    case isTrue =>
      rcases concat_split heq with ⟨-, -, hlast⟩ | ⟨rest, hpost, htr⟩
      · subst hlast
        rcases he with h | h <;> cases h
      · rcases concat_split htr with ⟨hrest, -, hlast⟩ | ⟨rest', hrest, htr'⟩
        · subst hrest hlast
          refine ⟨[], ?_⟩
          rw [hpost]
          rcases he with h | h <;> rcases hx with h' | h' <;> rw [h] at h' <;> cases h' <;> rfl
        · obtain ⟨later, hlater⟩ := ih pre e j rest' htr' he hf
          exact ⟨later ++ [x] ++ [check k], by rw [hpost, hrest, hlater]; rfl⟩
    case isFalse hok =>
      rcases concat_split heq with ⟨-, hpre, hlast⟩ | ⟨rest, hpost, htr⟩
      · subst hpre hlast
        exact absurd hf hok
      · obtain ⟨later, hlater⟩ := ih pre e j rest htr he hf
        exact ⟨later ++ [x], by rw [hpost, hlater]; rfl⟩
  induction h with
  | nil => exact fun pre e k post h => by simp at h
  | start _ _ ih => exact step (.inl rfl) ih
  | collect _ _ ih => exact step (.inr rfl) ih

end Log

end Pipeline
