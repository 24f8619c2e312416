import Freemyipod.Execimage.Model
import Mathlib.Data.List.Count

/-!
# Execimage.Ownership

Who frees the blocks of the allocator. An image that is handed over must be freed once or end up with
the thread or the library, and so must each block that was asked for on the way.

* `place_loads`, `place_fails`: the blocks after the image has been placed.
* `start_thread`, `start_library`: what becomes of the block it is run in.
* `handled_iff`: the exact condition.
-/

namespace Freemyipod
namespace Execimage

open Effect Memory

@[grind =] def Event.block : Event → Nat
  | .alloc b => b
  | .free b => b
  | .own b _ => b

/-- The block is freed once, and nobody gets it. -/
def Released (es : List Event) (b : Nat) : Prop :=
  es.count (.free b) = 1 ∧ ∀ o, .own b o ∉ es

/-- The block is not freed, and the owner gets it. -/
def Owned (es : List Event) (b : Nat) (o : Owner) : Prop := .free b ∉ es ∧ .own b o ∈ es

/-- After a call that returns `r`, the block is freed or with what was started. -/
def Settled (es : List Event) (r : Option Handle) (b : Nat) : Prop :=
  Released es b ∨ ∃ o ∈ r.map Handle.owner, Owned es b o

/-- What `execimage` should do to the blocks: the image is its own to free if it is not to be copied,
and not to be touched if it is. -/
structure Handled (image : Nat) (copy : Bool) (r : Option Handle) (es : List Event) : Prop where
  given : copy = false → Settled es r image
  kept : copy = true → ∀ e ∈ es, e.block ≠ image
  blocks : ∀ b, .alloc b ∈ es → Settled es r b

variable (env : Env) (h : Header) (args : List Arg) (image : Nat) (copy : Bool)

/-- The image is run where it lies. -/
def InPlace : Prop :=
  h.compressed = false ∧ copy = false ∧ misaligned env (env.addr image) = false

instance : Decidable (InPlace env h image copy) := instDecidableAnd

/-- The image is decompressed or moved, and memory is found for it. -/
def Loads (w : World) : Prop :=
  if InPlace env h image copy then
    h.tempsize args + 4 ≠ 0 ∧ env.resize image (h.tempsize args) ≠ .failed
  else env.serves w.blocks (h.tempsize args) = true ∧
    (h.compressed = true → (env.decompress w.mem (env.addr image + h.textstart) h.datasize
      (env.addr w.blocks)).2 = h.datasize)

/-- The block that a loaded image is run in. -/
def placedBlock (w : World) : Nat :=
  if InPlace env h image copy ∧ env.resize image (h.tempsize args) = .kept then image else w.blocks

/-- The memory once the image is placed. -/
def placedMem (w : World) : Mem 32 :=
  if h.compressed then
    (env.decompress w.mem (env.addr image + h.textstart) h.datasize (env.addr w.blocks)).1
  else if InPlace env h image copy then
    let m := store w.mem (env.addr image) (load w.mem (env.addr image + h.textstart) h.datasize.toNat)
    if env.resize image (h.tempsize args) = .kept then m
    else store m (env.addr w.blocks)
      (load m (env.addr image) (min (env.blockSize image) (h.tempsize args + 4).toNat))
  else store w.mem (env.addr w.blocks) (load w.mem (env.addr image + h.textstart) h.datasize.toNat)

/-- The state from which a loaded image is relocated, but for the events. -/
def placed (w : World) : World :=
  { w with
    mem := placedMem env h args image copy w
    blocks := if InPlace env h image copy ∧ env.resize image (h.tempsize args) = .kept then w.blocks
      else w.blocks + 1 }

/-- The memory in which an image in `b` is launched. -/
def launchMem (b : Nat) (m : Mem 32) : Mem 32 :=
  (copyArgs h (env.addr b) args (clearBss h (env.addr b) m)).1

/-- The thread that an image in `b` is launched as. -/
def launched (b : Nat) (m : Mem 32) : Thread where
  image := b
  entry := env.addr b + h.entrypoint
  stack := (copyArgs h (env.addr b) args (clearBss h (env.addr b) m)).2
  stacksize := h.stacksize
  argc := args.length
  argv := argvCopy h (env.addr b)

/-- The memory with the relocations of the image in `b`. -/
def relocated (b : Nat) (m : Mem 32) : Mem 32 :=
  relocate m (env.addr b) h.reloccount.toNat h.relocs

/-- `library_register` refuses the image in `b`. -/
def Refused (b : Nat) (w : World) : Prop :=
  refuses env w.libs (launchMem env h args b (relocated env h b w.mem)) (env.addr b + h.entrypoint)
    args = true

/-- The block that is left to the thread or the library stays allocated when it is shrunk, and a
library is registered. When the block is freed, then that is the only time if it is a library that is
refused. -/
def StartSound (b : Nat) (w : World) : Prop :=
  if h.tempsize args ≠ h.finalsize args ∧ h.finalsize args + 4 = 0 then
    h.lib = true ∧ Refused env h args b w
  else (h.tempsize args ≠ h.finalsize args → env.resize b (h.finalsize args) ≠ .moved) ∧
    (h.lib = true → ¬ Refused env h args b w ∧ env.serves w.blocks handleSize = true)

/-- The blocks are handled properly in a call for this image. -/
def Sound (w : World) : Prop :=
  (InPlace env h image copy → h.tempsize args + 4 ≠ 0) ∧
    (Loads env h args image copy w →
      StartSound env h args (placedBlock env h args image copy w) (placed env h args image copy w))

variable {env h args image copy} {w : World}

/-! ## The allocator -/

theorem wp_free {b : Nat} {Q : Unit → World → Prop} : Wp (free b) w Q ↔ Q () (w.free b) :=
  wp_modify _ _ _

theorem wp_reownalloc {b : Nat} {o : Owner} {Q : Unit → World → Prop} :
    Wp (reownalloc b o) w Q ↔ Q () (w.own b o) := wp_modify _ _ _

theorem wp_memcpy {dst src size : BitVec 32} {Q : Unit → World → Prop} :
    Wp (memcpy dst src size) w Q ↔
      Q () (w.setMem (store w.mem dst (load w.mem src size.toNat))) := wp_modify _ _ _

/-- The events of `discard`. -/
def discarded (image : Nat) (copy : Bool) : List Event := if copy then [] else [.free image]

@[simp] theorem discarded_false : discarded image false = [.free image] := rfl

@[simp] theorem discarded_true : discarded image true = [] := rfl

def World.log (w : World) (es : List Event) : World := { w with heap := w.heap ++ es }

theorem wp_discard {Q : Unit → World → Prop} :
    Wp (discard copy image) w Q ↔ Q () (w.log (discarded image copy)) := by
  unfold discard
  cases copy with
  | false => exact wp_free
  | true =>
    have hw : w.log (discarded image true) = w := by
      simp [World.log, discarded]
    rw [hw]
    exact wp_pure _ _ _

theorem wp_memalign {size : BitVec 32} {Q : Option Nat → World → Prop} :
    Wp (memalign env size) w Q ↔
      if env.serves w.blocks size then Q (some w.blocks) w.alloc else Q none w := by
  unfold memalign
  rw [wp_bind, wp_get]
  split
  · rw [wp_bind, wp_set, wp_pure]
  · rw [wp_pure]

/-- A request of no bytes frees the block. -/
theorem wp_realign_zero {b : Nat} {size : BitVec 32} {Q : Option Nat → World → Prop}
    (hz : size + 4 = 0) : Wp (realign env b size) w Q ↔ Q none (w.free b) := by
  rw [realign, if_pos hz, wp_bind, wp_free, wp_pure]

theorem wp_realign_kept {b : Nat} {size : BitVec 32} {Q : Option Nat → World → Prop}
    (hz : size + 4 ≠ 0) (hr : env.resize b size = .kept) :
    Wp (realign env b size) w Q ↔ Q (some b) w := by
  simp only [realign, if_neg hz, hr, wp_pure]

theorem wp_realign_failed {b : Nat} {size : BitVec 32} {Q : Option Nat → World → Prop}
    (hz : size + 4 ≠ 0) (hr : env.resize b size = .failed) :
    Wp (realign env b size) w Q ↔ Q none w := by
  simp only [realign, if_neg hz, hr, wp_pure]

theorem wp_realign_moved {b : Nat} {size : BitVec 32} {Q : Option Nat → World → Prop}
    (hz : size + 4 ≠ 0) (hr : env.resize b size = .moved) :
    Wp (realign env b size) w Q ↔ Q (some w.blocks) ((w.alloc.setMem (store w.mem (env.addr w.blocks)
      (load w.mem (env.addr b) (min (env.blockSize b) (size + 4).toNat)))).free b) := by
  simp only [realign, if_neg hz, hr, wp_bind, wp_get, wp_set, wp_free, wp_pure]

/-! ## The image is placed -/

/-- The events up to the place where the image, in the block `b`, is relocated. -/
structure Live (image : Nat) (copy : Bool) (b : Nat) (es : List Event) : Prop where
  free : ∀ x, .free x ∈ es → x = image ∧ x ≠ b
  own : ∀ x o, .own x o ∉ es
  given : copy = false → b ≠ image → es.count (.free image) = 1
  kept : copy = true → b ≠ image ∧ ∀ e ∈ es, e.block ≠ image
  alloc : b ≠ image → .alloc b ∈ es
  blocks : ∀ x, .alloc x ∈ es → x = b


theorem moves (hcomp : ¬ h.compressed = true) (hin : ¬ InPlace env h image copy) :
    (copy || misaligned env (env.addr image)) = true := by
  by_contra hc
  rw [Bool.not_eq_true, Bool.or_eq_false_iff] at hc
  exact hin ⟨Bool.not_eq_true _ ▸ hcomp, hc⟩

/-- The events where the image is given up for a new block. -/
theorem live_discard {n : Nat} (hi : image < n) :
    Live image copy n (.alloc n :: discarded image copy) := by
  have hne : n ≠ image := hi.ne'
  cases copy with
  | false =>
    refine ⟨?_, by simp, fun _ _ => by simp, fun hc => (by cases hc), by simp, by simp⟩
    intro x hx
    obtain rfl : x = image := by simpa using hx
    exact ⟨rfl, hne.symm⟩
  | true =>
    refine ⟨by simp, by simp, fun hc => (by cases hc), fun _ => ⟨hne, ?_⟩, by simp, by simp⟩
    intro e he
    obtain rfl := List.mem_singleton.1 he
    exact hne

theorem place_loads (hi : image < w.blocks) (hl : Loads env h args image copy w) :
    Wp (place env h args image copy) w fun r w1 => r = some (placedBlock env h args image copy w) ∧
      ∃ es, w1 = (placed env h args image copy w).log es ∧
        Live image copy (placedBlock env h args image copy w) es := by
  unfold Loads at hl
  by_cases hin : InPlace env h image copy
  · obtain ⟨hcomp, hcopy, halign⟩ := hin
    rw [if_pos ⟨hcomp, hcopy, halign⟩] at hl
    obtain ⟨hz, hr⟩ := hl
    rw [place, if_neg (by simp [hcomp]), if_neg (by simp [hcopy, halign]), wp_bind, wp_memcpy,
      wp_bind]
    cases hres : env.resize image (h.tempsize args) with
    | failed => exact absurd hres hr
    | kept =>
      have hb : placedBlock env h args image copy w = image := if_pos ⟨⟨hcomp, hcopy, halign⟩, hres⟩
      rw [wp_realign_kept hz hres, hb]
      refine (wp_pure _ _ _).2 ⟨rfl, [], World.ext ?_ ?_ (List.append_nil _).symm rfl, ?_⟩
      · change _ = placedMem env h args image copy w
        rw [placedMem, if_neg (by simp [hcomp]), if_pos ⟨hcomp, hcopy, halign⟩]
        exact (if_pos hres).symm
      · exact (if_pos ⟨⟨hcomp, hcopy, halign⟩, hres⟩).symm
      · refine ⟨by simp, by simp, fun _ hne => absurd rfl hne, fun hc => ?_, fun hne => absurd rfl hne,
          by simp⟩
        rw [hcopy] at hc
        cases hc
    | moved =>
      have hnew : ¬ (InPlace env h image copy ∧ env.resize image (h.tempsize args) = .kept) := by
        rw [hres]
        exact fun hk => by cases hk.2
      have hb : placedBlock env h args image copy w = w.blocks := if_neg hnew
      rw [wp_realign_moved hz hres, hb]
      refine (wp_pure _ _ _).2 ⟨rfl, [.alloc w.blocks, .free image],
        World.ext ?_ (if_neg hnew).symm (List.append_assoc _ _ _) rfl, ?_⟩
      · change _ = placedMem env h args image copy w
        rw [placedMem, if_neg (by simp [hcomp]), if_pos ⟨hcomp, hcopy, halign⟩]
        simp only [hres, reduceCtorEq, if_false]
        rfl
      · have hlive : Live image copy w.blocks (.alloc w.blocks :: discarded image copy) :=
          live_discard hi
        rw [hcopy] at hlive ⊢
        exact hlive
  · rw [if_neg hin] at hl
    obtain ⟨hserves, hsize⟩ := hl
    have hnew : ¬ (InPlace env h image copy ∧ env.resize image (h.tempsize args) = .kept) :=
      fun hk => hin hk.1
    have hb : placedBlock env h args image copy w = w.blocks := if_neg hnew
    rw [hb]
    by_cases hcomp : h.compressed = true
    · have hsame := hsize hcomp
      rw [place, if_pos hcomp, wp_bind, wp_memalign, if_pos hserves]
      simp only [wp_bind, wp_get, wp_set, wp_discard]
      refine wp_ite.2 ⟨fun hne => absurd hsame.symm hne, fun _ => (wp_pure _ _ _).2 ⟨rfl, _, ?_,
        live_discard hi⟩⟩
      refine World.ext ?_ (if_neg hnew).symm (List.append_assoc _ _ _) rfl
      change _ = placedMem env h args image copy w
      rw [placedMem, if_pos hcomp]
      rfl
    · rw [place, if_neg hcomp, if_pos (moves hcomp hin), wp_bind, wp_memalign, if_pos hserves]
      simp only [wp_bind, wp_memcpy, wp_discard, wp_pure]
      refine ⟨trivial, _, World.ext ?_ (if_neg hnew).symm (List.append_assoc _ _ _) rfl,
        live_discard hi⟩
      change _ = placedMem env h args image copy w
      rw [placedMem, if_neg hcomp, if_neg hin]
      rfl

theorem released_image : Released [.free image] image :=
  ⟨List.count_singleton_self, by simp⟩

/-- Nothing is left behind where the image could not be placed. -/
theorem handled_discarded : Handled image copy none (discarded image copy) := by
  cases copy with
  | false => exact ⟨fun _ => .inl released_image, fun hc => (by cases hc), by simp⟩
  | true => exact ⟨fun hc => (by cases hc), fun _ => by simp, by simp⟩

theorem handled_discarded_free {n : Nat} (hi : image < n) :
    Handled image copy none (.alloc n :: discarded image copy ++ [.free n]) := by
  have hne : n ≠ image := hi.ne'
  cases copy with
  | false =>
    refine ⟨fun _ => .inl ⟨?_, by simp⟩, fun hc => (by cases hc), fun b hb => .inl ⟨?_, by simp⟩⟩
    · simp [hne]
    · obtain rfl : b = n := by simpa using hb
      simp [hne.symm]
  | true =>
    refine ⟨fun hc => (by cases hc), fun _ => ?_, fun b hb => .inl ⟨?_, by simp⟩⟩
    · simp [Event.block, hne]
    · obtain rfl : b = n := by simpa using hb
      simp

theorem place_fails (hi : image < w.blocks) (hl : ¬ Loads env h args image copy w) :
    Wp (place env h args image copy) w fun r w1 => r = none ∧ ∃ es, w1.heap = w.heap ++ es ∧
      (Handled image copy none es ↔
        (InPlace env h image copy → h.tempsize args + 4 ≠ 0)) := by
  unfold Loads at hl
  by_cases hin : InPlace env h image copy
  · obtain ⟨hcomp, hcopy, halign⟩ := hin
    rw [if_pos ⟨hcomp, hcopy, halign⟩, not_and, not_not] at hl
    subst hcopy
    rw [place, if_neg (by simp [hcomp]), if_neg (by simp [halign]), wp_bind, wp_memcpy, wp_bind]
    by_cases hz : h.tempsize args + 4 = 0
    · rw [wp_realign_zero hz]
      simp only [wp_bind, wp_free, wp_pure]
      refine ⟨trivial, [.free image, .free image], List.append_assoc _ _ _, iff_of_false ?_ ?_⟩
      · -- the image has been freed before
        intro hh
        rcases hh.given rfl with hr | ⟨o, ho, -⟩
        · simpa using hr.1
        · cases ho
      · exact fun hne => hne ⟨hcomp, rfl, halign⟩ hz
    · rw [wp_realign_failed hz (hl hz)]
      simp only [wp_bind, wp_free, wp_pure]
      exact ⟨trivial, [.free image], rfl, iff_of_true handled_discarded fun _ => hz⟩
  · rw [if_neg hin] at hl
    have hcond : InPlace env h image copy → h.tempsize args + 4 ≠ 0 := fun hp => absurd hp hin
    by_cases hserves : env.serves w.blocks (h.tempsize args) = true
    · have hcomp : h.compressed = true := by
        by_contra hc
        exact hl ⟨hserves, fun hc' => absurd hc' hc⟩
      have hsame : (env.decompress w.mem (env.addr image + h.textstart) h.datasize
          (env.addr w.blocks)).2 ≠ h.datasize := fun hs => hl ⟨hserves, fun _ => hs⟩
      rw [place, if_pos hcomp, wp_bind, wp_memalign, if_pos hserves]
      simp only [wp_bind, wp_get, wp_set, wp_discard]
      refine wp_ite.2 ⟨fun _ => ?_, fun he => absurd (not_not.1 he).symm hsame⟩
      rw [wp_bind, wp_free, wp_pure]
      refine ⟨rfl, _, ?_, iff_of_true (handled_discarded_free hi) hcond⟩
      change w.heap ++ [_] ++ _ ++ [_] = _
      rw [List.append_assoc, List.append_assoc]
      rfl
    · by_cases hcomp : h.compressed = true
      · rw [place, if_pos hcomp, wp_bind, wp_memalign, if_neg hserves]
        simp only [wp_bind, wp_discard, wp_pure]
        exact ⟨trivial, _, rfl, iff_of_true handled_discarded hcond⟩
      · rw [place, if_neg hcomp, if_pos (moves hcomp hin), wp_bind, wp_memalign, if_neg hserves]
        simp only [wp_bind, wp_discard, wp_pure]
        exact ⟨trivial, _, rfl, iff_of_true handled_discarded hcond⟩

/-! ## The image is started -/

theorem shrink_kept {b : Nat} {Q : Unit → World → Prop}
    (hk : h.tempsize args ≠ h.finalsize args → h.finalsize args + 4 ≠ 0 ∧
      env.resize b (h.finalsize args) ≠ .moved) :
    Wp (shrink env h args b) w Q ↔ Q () w := by
  unfold shrink
  by_cases hs : h.tempsize args ≠ h.finalsize args
  · obtain ⟨hz, hm⟩ := hk hs
    rw [if_pos hs, wp_bind]
    cases hr : env.resize b (h.finalsize args) with
    | kept => rw [wp_realign_kept hz hr, wp_pure]
    | failed => rw [wp_realign_failed hz hr, wp_pure]
    | moved => exact absurd hr hm
  · rw [if_neg hs, wp_pure]

theorem shrink_freed {b : Nat} {Q : Unit → World → Prop}
    (hs : h.tempsize args ≠ h.finalsize args) (hz : h.finalsize args + 4 = 0) :
    Wp (shrink env h args b) w Q ↔ Q () (w.free b) := by
  rw [shrink, if_pos hs, wp_bind, wp_realign_zero hz, wp_pure]

theorem shrink_moved {b : Nat} {Q : Unit → World → Prop}
    (hs : h.tempsize args ≠ h.finalsize args) (hz : h.finalsize args + 4 ≠ 0)
    (hr : env.resize b (h.finalsize args) = .moved) :
    Wp (shrink env h args b) w Q ↔ ∃ m, Q () ((w.alloc.setMem m).free b) ∧ m =
      store w.mem (env.addr w.blocks)
        (load w.mem (env.addr b) (min (env.blockSize b) (h.finalsize args + 4).toNat)) := by
  rw [shrink, if_pos hs, wp_bind, wp_realign_moved hz hr, wp_pure, exists_eq_right]

/-- The state after a library has been registered. -/
def World.register (w : World) (b : Nat) (l : Library) : World :=
  { ((w.alloc.own w.blocks .library).own b .library) with libs := l :: w.libs }

theorem wp_libraryRegister {b : Nat} {header : BitVec 32} {Q : Option Handle → World → Prop} :
    Wp (libraryRegister env b header args) w Q ↔
      (refuses env w.libs w.mem header args = true → Q none w) ∧
        (¬ refuses env w.libs w.mem header args = true → env.serves w.blocks handleSize = true ∧
          Q (some .library)
            (w.register b ⟨load32 w.mem (header + 4), load32 w.mem (header + 8)⟩)) := by
  unfold libraryRegister
  rw [wp_bind, wp_get, wp_ite, wp_pure, wp_bind, wp_memalign]
  refine and_congr_right fun _ => imp_congr_right fun _ => ?_
  by_cases hs : env.serves w.blocks handleSize = true
  · rw [if_pos hs, wp_bind, wp_reownalloc, wp_bind, wp_reownalloc, wp_bind, wp_modify, wp_pure]
    exact (and_iff_right hs).symm
  · rw [if_neg hs]
    exact iff_of_false (wp_throw _ _ _) fun hq => hs hq.1

theorem wp_launch {b : Nat} {Q : Option Handle → World → Prop} :
    Wp (launch env h args b) w Q ↔
      if h.lib then Wp (libraryRegister env b (env.addr b + h.entrypoint) args)
        (w.setMem (launchMem env h args b w.mem)) Q
      else if env.threadCreate then Q (some (.thread (launched env h args b w.mem)))
        ((w.setMem (launchMem env h args b w.mem)).own b .thread)
      else Q none ((w.setMem (launchMem env h args b w.mem)).free b) := by
  unfold launch
  rw [wp_bind, wp_get, wp_bind, wp_set]
  split
  · rfl
  · split
    · rw [wp_bind, wp_reownalloc, wp_pure]
      rfl
    · rw [wp_bind, wp_free, wp_pure]
      rfl

/-! ## What is settled -/

section

variable {r : Option Handle} {es : List Event} {b : Nat}

theorem Handled.settled (hh : Handled image copy r es)
    (hb : copy = false ∧ b = image ∨ .alloc b ∈ es) : Settled es r b := by
  rcases hb with ⟨hc, rfl⟩ | hb
  · exact hh.given hc
  · exact hh.blocks b hb

theorem not_settled_free_own {o : Owner} (hf : .free b ∈ es) (ho : .own b o ∈ es) :
    ¬ Settled es r b := by
  rintro (⟨-, hno⟩ | ⟨o', -, hno, -⟩)
  · exact hno o ho
  · exact hno hf

theorem not_settled_lost (hf : .free b ∉ es) : ¬ Settled es none b := by
  rintro (⟨hone, -⟩ | ⟨o, ho, -⟩)
  · rw [List.count_eq_zero.2 hf] at hone
    cases hone
  · cases ho

theorem not_settled_twice (hf : es.count (.free b) = 2) : ¬ Settled es none b := by
  rintro (⟨hone, -⟩ | ⟨o, ho, -⟩)
  · omega
  · cases ho

end

/-- The block that the image is run in has to be settled. -/
theorem Live.open {b : Nat} {es : List Event} (h : Live image copy b es) (es' : List Event) :
    copy = false ∧ b = image ∨ .alloc b ∈ es ++ es' := by
  by_cases hb : b = image
  · left
    cases copy with
    | false => exact ⟨rfl, hb⟩
    | true => exact absurd hb (h.kept rfl).1
  · exact .inr (List.mem_append_left _ (h.alloc hb))

theorem Live.count {b : Nat} {es : List Event} (h : Live image copy b es) :
    es.count (.free b) = 0 := List.count_eq_zero.2 fun hf => (h.free b hf).2 rfl

/-- The image is freed at the end. -/
theorem Live.handled_free {b : Nat} {es : List Event} (h : Live image copy b es)
    (r : Option Handle) : Handled image copy r (es ++ [.free b]) := by
  have hown : ∀ x o, Event.own x o ∉ es ++ [Event.free b] := by
    intro x o hx
    rcases List.mem_append.1 hx with hx | hx
    · exact h.own x o hx
    · cases List.mem_singleton.1 hx
  have hb : Settled (es ++ [Event.free b]) r b := by
    refine .inl ⟨?_, hown b⟩
    rw [List.count_append, h.count]
    simp
  refine ⟨fun hc => ?_, fun hc e he => ?_, fun x hx => ?_⟩
  · by_cases hbi : b = image
    · rw [← hbi]
      exact hb
    · refine .inl ⟨?_, hown image⟩
      rw [List.count_append, h.given hc hbi]
      simp [hbi]
  · rcases List.mem_append.1 he with he | he
    · exact (h.kept hc).2 e he
    · rw [List.mem_singleton.1 he]
      exact (h.kept hc).1
  · rcases List.mem_append.1 hx with hx | hx
    · rw [h.blocks x hx]
      exact hb
    · cases List.mem_singleton.1 hx

/-- The image belongs to what has been started. The events after `es` are about other blocks than the
given one, and free nothing. -/
theorem Live.handled_own {b : Nat} {es es' : List Event} {t : Handle} (h : Live image copy b es)
    (hown : .own b t.owner ∈ es') (hfree : ∀ x, .free x ∉ es')
    (hother : ∀ e ∈ es', e.block = b ∨ e.block ≠ image ∧ .own e.block t.owner ∈ es') :
    Handled image copy (some t) (es ++ es') := by
  have hb : Settled (es ++ es') (some t) b := by
    refine .inr ⟨_, rfl, fun hf => ?_, List.mem_append_right _ hown⟩
    rcases List.mem_append.1 hf with hf | hf
    · exact (h.free b hf).2 rfl
    · exact hfree b hf
  refine ⟨fun hc => ?_, fun hc e he => ?_, fun x hx => ?_⟩
  · by_cases hbi : b = image
    · rw [← hbi]
      exact hb
    · refine .inl ⟨?_, fun o ho => ?_⟩
      · rw [List.count_append, h.given hc hbi, List.count_eq_zero.2 (hfree image)]
      · rcases List.mem_append.1 ho with ho | ho
        · exact h.own image o ho
        · rcases hother _ ho with he | he
          · exact hbi he.symm
          · exact he.1 rfl
  · rcases List.mem_append.1 he with he | he
    · exact (h.kept hc).2 e he
    · rcases hother e he with he | he
      · rw [he]
        exact (h.kept hc).1
      · exact he.1
  · by_cases hxb : x = b
    · rw [hxb]
      exact hb
    · rcases List.mem_append.1 hx with hx | hx
      · exact absurd (h.blocks x hx) hxb
      · rcases hother _ hx with he | ⟨hne, he⟩
        · exact absurd he hxb
        · refine .inr ⟨_, rfl, fun hf => ?_, List.mem_append_right _ he⟩
          rcases List.mem_append.1 hf with hf | hf
          · exact hne (h.free x hf).1
          · exact hfree x hf

/-- After the call, the blocks of this call have been handled. -/
def HandledIn (w : World) (image : Nat) (copy : Bool) (r : Option Handle) (w' : World) : Prop :=
  ∃ es, w'.heap = w.heap ++ es ∧ Handled image copy r es

theorem handledIn_iff {r : Option Handle} {w' : World} {es : List Event}
    (hheap : w'.heap = w.heap ++ es) : HandledIn w image copy r w' ↔ Handled image copy r es := by
  constructor
  · rintro ⟨es', hes', hh⟩
    obtain rfl := List.append_cancel_left (hes'.symm.trans hheap)
    exact hh
  · exact fun hh => ⟨es, hheap, hh⟩

/-- The image is launched in a block that has not been freed. -/
theorem launch_live {b : Nat} {w1 : World} {es : List Event} (hl : Live image copy b es)
    (hheap : w1.heap = w.heap ++ es) (hi : image < w1.blocks) :
    Wp (launch env h args b) w1 (HandledIn w image copy) ↔
      (h.lib = true → ¬ refuses env w1.libs (launchMem env h args b w1.mem)
        (env.addr b + h.entrypoint) args = true ∧ env.serves w1.blocks handleSize = true) := by
  rw [wp_launch]
  by_cases hlib : h.lib = true
  · rw [if_pos hlib, wp_libraryRegister, imp_iff_right hlib]
    have hnone : ∀ m, ¬ HandledIn w image copy none (w1.setMem m) := by
      intro m hh
      have hset := ((handledIn_iff hheap).1 hh).settled (List.append_nil es ▸ hl.open [])
      exact not_settled_lost (fun hf => (hl.free b hf).2 rfl) hset
    have hsome : ∀ m l, HandledIn w image copy (some .library) ((w1.setMem m).register b l) := by
      intro m l
      refine ⟨es ++ [Event.alloc w1.blocks, Event.own w1.blocks .library, Event.own b .library], ?_, ?_⟩
      · change w1.heap ++ _ ++ _ ++ _ = _
        rw [hheap]
        simp
      · refine hl.handled_own (by simp [Handle.owner]) (by simp) fun e he => ?_
        have hblock : e.block = w1.blocks ∨ e.block = b := by
          simp only [List.mem_cons, List.not_mem_nil, or_false] at he
          rcases he with rfl | rfl | rfl
          · exact .inl rfl
          · exact .inl rfl
          · exact .inr rfl
        rcases hblock with hn | hn
        · rw [hn]
          exact .inr ⟨hi.ne', by simp [Handle.owner]⟩
        · exact .inl hn
    constructor
    · rintro ⟨hrefused, hok⟩
      by_cases hr : refuses env w1.libs (launchMem env h args b w1.mem) (env.addr b + h.entrypoint)
          args = true
      · exact absurd (hrefused hr) (hnone _)
      · exact ⟨hr, (hok hr).1⟩
    · rintro ⟨hr, hserves⟩
      exact ⟨fun hrefused => absurd hrefused hr, fun _ => ⟨hserves, hsome _ _⟩⟩
  · rw [if_neg hlib]
    refine iff_of_true ?_ fun hc => absurd hc hlib
    split
    · refine ⟨es ++ [Event.own b .thread], ?_, ?_⟩
      · change w1.heap ++ _ = _
        rw [hheap, List.append_assoc]
      · exact hl.handled_own (by simp [Handle.owner]) (by simp) (by simp [Event.block])
    · refine ⟨es ++ [Event.free b], ?_, hl.handled_free none⟩
      change w1.heap ++ _ = _
      rw [hheap, List.append_assoc]

/-- The image is launched in a block that has been freed: only a library that is refused does not make
it worse. -/
theorem launch_dead {b : Nat} {w1 : World} {es : List Event} (hheap : w1.heap = w.heap ++ es)
    (hopen : ∀ es', copy = false ∧ b = image ∨ .alloc b ∈ es ++ es')
    (hfree : es.count (.free b) = 1) :
    Wp (launch env h args b) w1 (HandledIn w image copy) ↔
      h.lib = true ∧ refuses env w1.libs (launchMem env h args b w1.mem)
        (env.addr b + h.entrypoint) args = true ∧ Handled image copy none es := by
  have hmem : .free b ∈ es := List.one_le_count_iff.1 hfree.ge
  have howned : ∀ r w' es' o, w'.heap = w1.heap ++ es' → .own b o ∈ es' →
      ¬ HandledIn w image copy r w' := by
    intro r w' es' o hw' ho hh
    rw [hheap, List.append_assoc] at hw'
    exact not_settled_free_own (List.mem_append_left _ hmem) (List.mem_append_right _ ho)
      (((handledIn_iff hw').1 hh).settled (hopen es'))
  rw [wp_launch]
  by_cases hlib : h.lib = true
  · rw [if_pos hlib, wp_libraryRegister, and_iff_right hlib]
    constructor
    · rintro ⟨hrefused, hok⟩
      by_cases hr : refuses env w1.libs (launchMem env h args b w1.mem) (env.addr b + h.entrypoint)
          args = true
      · exact ⟨hr, (handledIn_iff hheap).1 (hrefused hr)⟩
      · refine absurd (hok hr).2 (howned _ _ [.alloc w1.blocks, .own w1.blocks .library,
          .own b .library] .library ?_ (by simp))
        change w1.heap ++ _ ++ _ ++ _ = _
        simp
    · rintro ⟨hr, hh⟩
      exact ⟨fun _ => (handledIn_iff hheap).2 hh, fun hno => absurd hr hno⟩
  · rw [if_neg hlib]
    refine iff_of_false ?_ fun hc => hlib hc.1
    split
    · exact howned _ _ _ .thread rfl (List.mem_singleton.2 rfl)
    · intro hh
      have hw' : ((w1.setMem (launchMem env h args b w1.mem)).free b).heap =
          w.heap ++ (es ++ [Event.free b]) := by
        change w1.heap ++ _ = _
        rw [hheap, List.append_assoc]
      refine not_settled_twice ?_ (((handledIn_iff hw').1 hh).settled (hopen _))
      rw [List.count_append, hfree]
      simp

/-- The block is moved when it is shrunk, and the new one is lost. -/
theorem launch_moved {b : Nat} {w1 : World} {es : List Event} {n : Nat} (hl : Live image copy b es)
    (hheap : w1.heap = w.heap ++ (es ++ [.alloc n, .free b])) (hi : image < n) (hb : b < n) :
    ¬ Wp (launch env h args b) w1 (HandledIn w image copy) := by
  have hcount : (es ++ [Event.alloc n, Event.free b]).count (Event.free b) = 1 := by
    rw [List.count_append, hl.count]
    simp
  rw [launch_dead hheap (fun es' => List.append_assoc es _ _ ▸ hl.open _) hcount]
  rintro ⟨-, -, hh⟩
  refine not_settled_lost (fun hf => ?_) (hh.blocks n (by simp))
  rcases List.mem_append.1 hf with hf | hf
  · exact hi.ne' (hl.free n hf).1
  · simp only [List.mem_cons, reduceCtorEq, Event.free.injEq, List.not_mem_nil, or_false,
      false_or] at hf
    exact hb.ne' hf

theorem start_iff {b : Nat} {w1 : World} {es : List Event} (hl : Live image copy b es)
    (hheap : w1.heap = w.heap ++ es) (hi : image < w1.blocks) (hb : b < w1.blocks) :
    Wp (start env h args b) w1 (HandledIn w image copy) ↔ StartSound env h args b w1 := by
  rw [start, wp_bind, wp_modify, wp_bind]
  unfold StartSound
  by_cases hfreed : h.tempsize args ≠ h.finalsize args ∧ h.finalsize args + 4 = 0
  · obtain ⟨hs, hz⟩ := hfreed
    have hcount : (es ++ [Event.free b]).count (Event.free b) = 1 := by
      rw [List.count_append, hl.count]
      simp
    have hheap' : ((w1.setMem (relocated env h b w1.mem)).free b).heap =
        w.heap ++ (es ++ [Event.free b]) := by
      change w1.heap ++ _ = _
      rw [hheap, List.append_assoc]
    rw [shrink_freed hs hz, if_pos ⟨hs, hz⟩]
    refine (launch_dead hheap' (fun es' => List.append_assoc es _ _ ▸ hl.open _) hcount).trans ?_
    exact and_congr_right fun _ => and_iff_left_of_imp fun _ => hl.handled_free none
  · rw [if_neg hfreed]
    by_cases hmoved : h.tempsize args ≠ h.finalsize args ∧ env.resize b (h.finalsize args) = .moved
    · obtain ⟨hs, hm⟩ := hmoved
      refine iff_of_false (fun hwp => ?_) fun hc => hc.1 hs hm
      obtain ⟨m, hwp, -⟩ := (shrink_moved hs (fun hz => hfreed ⟨hs, hz⟩) hm).1 hwp
      refine launch_moved hl ?_ hi hb hwp
      change w1.heap ++ _ ++ _ = _
      rw [hheap, List.append_assoc, List.append_assoc]
      rfl
    · have hkept : h.tempsize args ≠ h.finalsize args → h.finalsize args + 4 ≠ 0 ∧
          env.resize b (h.finalsize args) ≠ .moved :=
        fun hs => ⟨fun hz => hfreed ⟨hs, hz⟩, fun hm => hmoved ⟨hs, hm⟩⟩
      rw [shrink_kept hkept, and_iff_right fun hs => (hkept hs).2]
      exact launch_live hl hheap hi

theorem placedBlock_lt (hi : image < w.blocks) :
    placedBlock env h args image copy w < (placed env h args image copy w).blocks ∧
      image < (placed env h args image copy w).blocks := by
  unfold placedBlock placed
  dsimp only
  split
  · exact ⟨hi, hi⟩
  · exact ⟨Nat.lt_succ_self _, Nat.lt_succ_of_lt hi⟩

/-- What the header is checked for. -/
def Accepted (h : Header) : Prop := h.signature = signature ∧ h.version = 1

/-- The image, if it is handed over, and every block that is asked for on the way is freed once, or
with the thread or the library in the end, if and only if no request of zero bytes gets in between, and
a library is registered. -/
theorem handled_iff {argv : Option (List Arg)} (hi : image < w.blocks) :
    Wp (execimage env image copy argv) w (HandledIn w image copy) ↔
      (Accepted (Header.read w.mem (env.addr image)) →
        Sound env (Header.read w.mem (env.addr image)) (argv.getD []) image copy w) := by
  rw [execimage, wp_bind, wp_get]
  dsimp only
  generalize Header.read w.mem (env.addr image) = h
  generalize argv.getD [] = args
  by_cases hacc : Accepted h
  · rw [if_neg (by unfold Accepted at hacc; tauto), imp_iff_right hacc, wp_bind]
    unfold Sound
    by_cases hl : Loads env h args image copy w
    · have hz : InPlace env h image copy → h.tempsize args + 4 ≠ 0 := by
        intro hin
        rw [Loads, if_pos hin] at hl
        exact hl.1
      have hplace := place_loads hi hl
      have hlt : placedBlock env h args image copy w < (placed env h args image copy w).blocks ∧
          image < (placed env h args image copy w).blocks := placedBlock_lt hi
      rw [and_iff_right hz, imp_iff_right hl]
      have hstart : ∀ es, Live image copy (placedBlock env h args image copy w) es →
          (Wp (start env h args (placedBlock env h args image copy w))
            ((placed env h args image copy w).log es) (HandledIn w image copy) ↔
          StartSound env h args (placedBlock env h args image copy w)
            (placed env h args image copy w)) := fun es hlive =>
        start_iff hlive rfl hlt.2 hlt.1
      constructor
      · intro hwp
        obtain ⟨r, w1, -, hq, rfl, es, rfl, hlive⟩ := hwp.and hplace
        exact (hstart es hlive).1 hq
      · rintro hs
        refine hplace.mono fun r w1 hr => ?_
        obtain ⟨rfl, es, rfl, hlive⟩ := hr
        exact (hstart es hlive).2 hs
    · have hplace := place_fails hi hl
      rw [and_iff_left fun hl' => absurd hl' hl]
      constructor
      · intro hwp
        obtain ⟨r, w1, -, hq, rfl, es, hheap, hh⟩ := hwp.and hplace
        rw [wp_pure] at hq
        exact hh.1 ((handledIn_iff hheap).1 hq)
      · intro hz
        refine hplace.mono fun r w1 hr => ?_
        obtain ⟨rfl, es, hheap, hh⟩ := hr
        exact (wp_pure _ _ _).2 ⟨es, hheap, hh.2 hz⟩
  · rw [if_pos (by unfold Accepted at hacc; tauto), wp_bind, wp_discard, wp_pure]
    exact iff_of_true ⟨_, rfl, handled_discarded⟩ fun ha => absurd ha hacc

/-! ## A library that is there already -/

/-- An image of 32 bytes of text in block 0, without relocations. -/
def imageOf (flags : BitVec 32) : Mem 32 :=
  store (fun _ => 0) 0x1000
    (signature ++ ([1, 48, 32, 0, 64, 0, 80, 0, flags, 0] : List (BitVec 32)).flatMap word)

/-- Memory for every request, and every call succeeds. -/
def roomy : Env where
  addr b := 0x1000 + 0x1000 * BitVec.ofNat 32 b
  cachealignBits := 4
  serves _ _ := true
  resize _ _ := .kept
  blockSize _ := 256
  decompress m _ size _ := (m, size)
  threadCreate := true
  setup _ _ := 0
  init _ _ _ := 0

/-- The image is handed over, and a library without a name is registered. -/
def handedOver (flags : BitVec 32) : World where
  mem := imageOf flags
  blocks := 1
  heap := []
  libs := [⟨0, 0⟩]

theorem handled_executable :
    Wp (execimage roomy 0 false none) (handedOver 0) (HandledIn (handedOver 0) 0 false) := by
  rw [handled_iff (by decide)]
  have hlib : (Header.read (handedOver 0).mem (roomy.addr 0)).lib = false := by decide
  have htemp : (Header.read (handedOver 0).mem (roomy.addr 0)).tempsize (Option.getD none []) = 96 := by
    decide
  have hfinal : (Header.read (handedOver 0).mem (roomy.addr 0)).finalsize (Option.getD none []) =
      96 := by decide
  refine fun _ => ⟨fun _ => ?_, fun _ => ?_⟩
  · rw [htemp]
    decide
  · rw [StartSound, htemp, hfinal, hlib]
    exact ⟨fun hs => absurd rfl hs, fun hl => by cases hl⟩

/-- The image of a library that is there already is left behind. -/
theorem duplicate_lost :
    ¬ Wp (execimage roomy 0 false none) (handedOver 2) (HandledIn (handedOver 2) 0 false) := by
  rintro ⟨r, w', hrun, es, hheap, hh⟩
  have hlog : ((execimage roomy 0 false none).run (handedOver 2)).map
      (fun r => (r.1.isNone, r.2.heap)) = .ok (true, []) := by decide
  rw [hrun] at hlog
  obtain ⟨hr, hnil⟩ := Prod.ext_iff.1 (Except.ok.inj hlog)
  obtain rfl : es = [] := hheap.symm.trans hnil
  obtain rfl : r = none := Option.isNone_iff_eq_none.1 hr
  exact not_settled_lost List.not_mem_nil (hh.given rfl)

end Execimage
end Freemyipod
