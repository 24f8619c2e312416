import Freemyipod.Execimage.Ownership

/-!
# Execimage.Arguments

What a program that has been started finds behind its bss: its arguments, and its stack.

* `started`: the memory and the thread at the end of a call that starts one.
* `argsPassed_iff`: they are as they should be only where there are no arguments.
-/

namespace Freemyipod
namespace Execimage

open Effect Memory

/-- The end of the text, the data and the bss of an image at `base`. -/
def Header.bssEnd (h : Header) (base : Nat) : Nat := base + h.textsize.toNat + h.bsssize.toNat

/-- `n` bytes from `p` lie in the image at `base`, behind the bss. -/
def Behind (h : Header) (args : List Arg) (base p n : Nat) : Prop :=
  h.bssEnd base ≤ p ∧ p + n ≤ base + (h.finalsize args).toNat

/-- The arguments are passed to the thread, and all that it is given lies where it may. The block that
the image is in has the owner's word behind it. -/
structure ArgsPassed (h : Header) (args : List Arg) (base : Nat) (t : Thread) (m : Mem 32) :
    Prop where
  block : base + (h.finalsize args).toNat + 4 ≤ 2 ^ 32
  argc : t.argc = args.length
  strings : ∀ i (hi : i < args.length),
    load m (load32 m (t.argv + BitVec.ofNat 32 (4 * i))) (args[i].text.length + 1) =
        args[i].text ++ [0] ∧
      Behind h args base (load32 m (t.argv + BitVec.ofNat 32 (4 * i))).toNat (args[i].text.length + 1)
  vector : Behind h args base t.argv.toNat (4 * args.length + (args.map fun a => a.text.length).sum)
  stack : Behind h args base t.stack.toNat t.stacksize.toNat
  aligned : 4 ∣ t.argv.toNat ∧ 4 ∣ t.stack.toNat ∧ 4 ∣ t.stacksize.toNat

/-- There are no arguments, text and bss end on a word, and so does the stack; and all of it fits. -/
structure Plain (h : Header) (args : List Arg) (base : Nat) : Prop where
  args : args = []
  bss : 4 ∣ h.textsize.toNat + h.bsssize.toNat
  stack : 4 ∣ h.stacksize.toNat
  size : h.textsize.toNat + h.bsssize.toNat + h.stacksize.toNat < 2 ^ 32
  block : h.bssEnd base + h.stacksize.toNat + 4 ≤ 2 ^ 32

variable {env : Env} {h : Header} {args : List Arg} {image : Nat} {copy : Bool} {w : World}

/-! ## Words -/

theorem and_three {x : BitVec 32} (hx : 4 ∣ x.toNat) : x &&& 3 = 0 := by
  apply BitVec.eq_of_toNat_eq
  change x.toNat &&& (2 ^ 2 - 1) = 0
  rw [Nat.and_two_pow_sub_one_eq_mod]
  exact Nat.mod_eq_zero_of_dvd hx

theorem alignUp_of_dvd {x : BitVec 32} (hx : 4 ∣ x.toNat) : alignUp x = x := by
  have h3 := and_three hx
  unfold alignUp
  rw [BitVec.add_eq_or_of_and_eq_zero _ _ h3]
  ext i hi
  have hbit : (x &&& 3)[i] = false := by
    rw [h3]
    exact BitVec.getElem_zero hi
  simp only [BitVec.getElem_and, BitVec.getElem_or, BitVec.getElem_not] at hbit ⊢
  cases hxi : x[i]
  · simp
  · rw [hxi] at hbit
    simpa using hbit

theorem dvd_of_aligned {a : BitVec 32} (hbits : env.cachealignBits = 4 ∨ env.cachealignBits = 5)
    (ha : misaligned env a = false) : 4 ∣ a.toNat := by
  unfold misaligned at ha
  rw [decide_eq_false_iff_not, not_not] at ha
  have hnat := congrArg BitVec.toNat ha
  rcases hbits with hb | hb
  · rw [hb] at hnat
    change a.toNat &&& (2 ^ 4 - 1) = 0 at hnat
    rw [Nat.and_two_pow_sub_one_eq_mod] at hnat
    omega
  · rw [hb] at hnat
    change a.toNat &&& (2 ^ 5 - 1) = 0 at hnat
    rw [Nat.and_two_pow_sub_one_eq_mod] at hnat
    omega

/-! ## The thread that is started -/

theorem ends_true {α : Type} (p : Prog α) : Ends (fun _ => True) p w fun _ _ => True :=
  ⟨fun _ _ _ => trivial, fun _ _ => trivial⟩

/-- The image is run in a new block, or where it lies if it is aligned. -/
theorem place_block (hi : image < w.blocks) :
    Ends (fun _ => True) (place env h args image copy) w fun r _ =>
      ∀ b, r = some b → b = image ∧ misaligned env (env.addr image) = false ∨ w.blocks ≤ b := by
  by_cases hl : Loads env h args image copy w
  · refine (place_loads hi hl).ends.mono fun r w1 hr b hb => ?_
    rw [hr.1] at hb
    cases hb
    unfold placedBlock
    split
    · next hin => exact .inl ⟨rfl, hin.1.2.2⟩
    · exact .inr le_rfl
  · refine (place_fails hi hl).ends.mono fun r w1 hr b hb => ?_
    rw [hr.1] at hb
    cases hb

/-- The end of a call that starts a thread. -/
structure Started (env : Env) (h : Header) (args : List Arg) (image : Nat) (w : World) (t : Thread)
    (w' : World) : Prop where
  executable : h.lib = false
  block : t.image = image ∧ misaligned env (env.addr image) = false ∨ w.blocks ≤ t.image
  launched : ∃ m, t = launched env h args t.image m ∧ w'.mem = launchMem env h args t.image m

theorem start_thread {b : Nat} :
    Ends (fun _ => True) (start env h args b) w fun r w' => ∀ t, r = some (.thread t) →
      h.lib = false ∧ t.image = b ∧ ∃ m, t = launched env h args b m ∧
        w'.mem = launchMem env h args b m := by
  rw [start, ends_bind, ends_modify, ends_bind]
  refine (ends_true _).mono fun _ w1 _ => ?_
  unfold launch
  rw [ends_bind, ends_get, ends_bind, ends_set, ends_ite]
  refine ⟨fun _ => ?_, fun hlib => ?_⟩
  · unfold libraryRegister
    rw [ends_bind, ends_get, ends_ite, ends_pure, ends_bind]
    refine ⟨fun _ t ht => (by cases ht), fun _ => (ends_true _).mono fun r w2 _ => ?_⟩
    cases r with
    | none => exact ends_throw.2 trivial
    | some n =>
      simp only [ends_bind]
      refine (ends_true _).mono fun _ w3 _ => (ends_true _).mono fun _ w4 _ =>
        (ends_true _).mono fun _ w5 _ => ?_
      exact (ends_pure _).2 fun t ht => by cases ht
  · rw [ends_ite]
    refine ⟨fun _ => ?_, fun _ => ?_⟩
    · rw [reownalloc, ends_bind, ends_modify, ends_pure]
      rintro t ht
      cases ht
      exact ⟨Bool.not_eq_true _ ▸ hlib, rfl, w1.mem, rfl, rfl⟩
    · rw [free, ends_bind, ends_modify, ends_pure]
      rintro t ht
      cases ht

theorem started (hi : image < w.blocks) {argv : Option (List Arg)} {t : Thread} {w' : World}
    (hrun : (execimage env image copy argv).run w = .ok (some (.thread t), w')) :
    Started env (Header.read w.mem (env.addr image)) (argv.getD []) image w t w' := by
  have hends : Ends (fun _ => True) (execimage env image copy argv) w fun r w' =>
      ∀ t, r = some (.thread t) →
        Started env (Header.read w.mem (env.addr image)) (argv.getD []) image w t w' := by
    rw [execimage, ends_bind, ends_get]
    dsimp only
    rw [ends_ite, ends_bind]
    refine ⟨fun _ => (ends_true _).mono fun _ w1 _ => (ends_pure _).2 fun t ht => (by cases ht),
      fun _ => ?_⟩
    rw [ends_bind]
    refine (place_block hi).mono fun r w1 hblock => ?_
    cases r with
    | none => exact (ends_pure _).2 fun t ht => by cases ht
    | some b =>
      refine start_thread.mono fun r w2 hstart t ht => ?_
      obtain ⟨hlib, rfl, hm⟩ := hstart t ht
      exact ⟨hlib, hblock _ rfl, hm⟩
  exact hends.ok hrun t rfl

/-! ## The copies -/

theorem toNat_add_of_lt {p : BitVec 32} {n : Nat} (h : p.toNat + n < 2 ^ 32) :
    (p + BitVec.ofNat 32 n).toNat = p.toNat + n := by
  rw [BitVec.toNat_add, BitVec.toNat_ofNat, Nat.mod_eq_of_lt (show n < 2 ^ 32 by omega),
    Nat.mod_eq_of_lt h]

/-- The strings are written from `p` on, and the memory before it stays as it was. -/
theorem load_copyStrings {m : Mem 32} {p b : BitVec 32} {n : Nat} (hb : b.toNat + n ≤ p.toNat)
    (hfit : p.toNat + (args.map fun a => a.text.length).sum < 2 ^ 32) :
    load (copyStrings m p args).1 b n = load m b n := by
  induction args generalizing m p with
  | nil => rfl
  | cons a args ih =>
    rw [List.map_cons, List.sum_cons] at hfit
    have hp : (p + a.len).toNat = p.toNat + a.text.length := toNat_add_of_lt (by omega)
    rw [copyStrings, ih (by omega) (by omega)]
    exact load_store_disjoint (.inl hb) (by omega) (by omega)

/-- The vector holds the pointer that the caller gave. -/
theorem load32_vector {base : BitVec 32} {a : Arg} (m : Mem 32)
    (hfit : (argvCopy h base).toNat + (4 * (a :: args).length +
      ((a :: args).map fun a => a.text.length).sum) < 2 ^ 32) :
    load32 (copyArgs h base (a :: args) m).1 (argvCopy h base) = a.ptr := by
  have hlen : (BitVec.ofNat 32 ((a :: args).length * 4)) = BitVec.ofNat 32 (4 * (a :: args).length) := by
    rw [Nat.mul_comm]
  have hp : (argvCopy h base + BitVec.ofNat 32 (4 * (a :: args).length)).toNat =
      (argvCopy h base).toNat + 4 * (a :: args).length := toNat_add_of_lt (by omega)
  have hload : load (copyArgs h base (a :: args) m).1 (argvCopy h base) 4 = word a.ptr := by
    unfold copyArgs
    dsimp only
    rw [hlen, load_copyStrings (by rw [hp, List.length_cons]; omega) (by rw [hp]; omega)]
    have hwords : ((a :: args).flatMap fun a => word a.ptr).length = 4 * (a :: args).length := by
      rw [List.length_flatMap]
      simp only [length_word, List.map_const', List.sum_replicate_nat]
      exact Nat.mul_comm _ _
    rw [load_store_take (by rw [hwords, List.length_cons]; omega) (by rw [hwords]; omega)]
    rfl
  rw [load32, hload, ofBytes_word]

theorem argvCopy_toNat (h : Header) (base : BitVec 32) :
    (argvCopy h base).toNat = h.bssEnd base.toNat % 2 ^ 32 := by
  unfold argvCopy Header.bssEnd
  rw [BitVec.toNat_add, BitVec.toNat_add, Nat.mod_add_mod]

theorem finalsize_toNat (hlib : h.lib = false) : (h.finalsize []).toNat =
    (h.textsize.toNat + h.bsssize.toNat + h.stacksize.toNat) % 2 ^ 32 := by
  have hargs : argsize [] = 0 := by decide
  unfold Header.finalsize
  rw [if_neg (by simp [hlib]), hargs, show h.textsize + h.bsssize + 0 = h.textsize + h.bsssize from
    BitVec.add_zero _, BitVec.toNat_add, BitVec.toNat_add,
    Nat.mod_add_mod]

/-- With an argument, the vector points to the string of the caller. -/
theorem not_passed_cons {a : Arg} {base : BitVec 32} {t : Thread} {m : Mem 32}
    (hargv : t.argv = argvCopy h base)
    (houtside : a.ptr.toNat < base.toNat ∨ base.toNat + (h.finalsize (a :: args)).toNat ≤ a.ptr.toNat) :
    ¬ ArgsPassed h (a :: args) base.toNat t (copyArgs h base (a :: args) m).1 := by
  intro hp
  obtain ⟨-, hto⟩ := hp.vector
  have hblock := hp.block
  have hfirst := (hp.strings 0 (Nat.zero_lt_succ _)).2
  rw [hargv] at hto hfirst
  rw [show argvCopy h base + BitVec.ofNat 32 (4 * 0) = argvCopy h base from BitVec.add_zero _,
    load32_vector m (by omega)] at hfirst
  obtain ⟨hlow, hhigh⟩ := hfirst
  unfold Header.bssEnd at hlow
  omega

/-- Without arguments only the stack matters. -/
theorem passed_nil_iff (hlib : h.lib = false) {base : BitVec 32} (hbase : 4 ∣ base.toNat) {t : Thread}
    {m : Mem 32} (hargc : t.argc = 0) (hargv : t.argv = argvCopy h base)
    (hstack : t.stack = alignUp (argvCopy h base)) (hsize : t.stacksize = h.stacksize) :
    ArgsPassed h [] base.toNat t m ↔ Plain h [] base.toNat := by
  have hargvNat := argvCopy_toNat h base
  have hfinal := finalsize_toNat hlib
  have hS := h.stacksize.isLt
  constructor
  · intro hp
    obtain ⟨hfrom, -⟩ := hp.vector
    obtain ⟨hsfrom, hsto⟩ := hp.stack
    obtain ⟨hal, hals, halS⟩ := hp.aligned
    have hblock := hp.block
    rw [hargv] at hfrom hal
    rw [hsize] at hsto halS
    unfold Header.bssEnd at *
    refine ⟨rfl, ?_, halS, ?_, ?_⟩
    · omega
    · omega
    · unfold Header.bssEnd
      omega
  · intro hp
    have hbss := hp.bss
    have hblock := hp.block
    have hsum := hp.size
    have hstk := hp.stack
    have hA : (argvCopy h base).toNat = h.bssEnd base.toNat := by
      unfold Header.bssEnd at *
      omega
    have hdvd : 4 ∣ (argvCopy h base).toNat := by
      unfold Header.bssEnd at *
      omega
    rw [alignUp_of_dvd hdvd] at hstack
    unfold Header.bssEnd at *
    refine ⟨by omega, hargc, fun i hi => absurd hi (Nat.not_lt_zero i), ?_, ?_, ?_⟩
    · rw [hargv]
      unfold Behind Header.bssEnd
      simp only [List.length_nil, List.map_nil, List.sum_nil]
      omega
    · rw [hstack, hsize]
      unfold Behind Header.bssEnd
      omega
    · rw [hargv, hstack, hsize]
      exact ⟨hdvd, hdvd, hstk⟩

/-- The thread is given its arguments as it should be, and a stack in its image, if and only if there
are no arguments and the sizes of its parts are multiples of a word. -/
theorem argsPassed_iff {argv : Option (List Arg)} {t : Thread} {w' : World} (hi : image < w.blocks)
    (hbits : env.cachealignBits = 4 ∨ env.cachealignBits = 5)
    (haligned : ∀ b, w.blocks ≤ b → 4 ∣ (env.addr b).toNat)
    (hrun : (execimage env image copy argv).run w = .ok (some (.thread t), w'))
    (houtside : ∀ a ∈ argv.getD [], a.ptr.toNat < (env.addr t.image).toNat ∨
      (env.addr t.image).toNat + ((Header.read w.mem (env.addr image)).finalsize (argv.getD [])).toNat
        ≤ a.ptr.toNat) :
    ArgsPassed (Header.read w.mem (env.addr image)) (argv.getD []) (env.addr t.image).toNat t w'.mem ↔
      Plain (Header.read w.mem (env.addr image)) (argv.getD []) (env.addr t.image).toNat := by
  obtain ⟨hlib, hblock, m, ht, hmem⟩ := started hi hrun
  generalize Header.read w.mem (env.addr image) = h at *
  generalize argv.getD [] = args at *
  have hbase : 4 ∣ (env.addr t.image).toNat := by
    rcases hblock with ⟨he, hal⟩ | hnew
    · rw [he]
      exact dvd_of_aligned hbits hal
    · exact haligned _ hnew
  have hargv : t.argv = argvCopy h (env.addr t.image) := by
    rw [ht]
    rfl
  cases args with
  | nil =>
    refine passed_nil_iff hlib hbase ?_ hargv ?_ ?_
    · rw [ht]
      rfl
    · rw [ht]
      exact congrArg alignUp (BitVec.add_zero _)
    · rw [ht]
      rfl
  | cons a args =>
    refine iff_of_false ?_ fun hp => by cases hp.args
    rw [hmem]
    exact not_passed_cons hargv (houtside a List.mem_cons_self)

/-! ## An image without, and with an argument -/

def Handle.block : Handle → Option Nat
  | .thread t => some t.image
  | .library => none

/-- A call of `execimage` that starts the image in block 0. -/
theorem runs_of_block {argv : Option (List Arg)} {flags : BitVec 32}
    (h : ((execimage roomy 0 false argv).run (handedOver flags)).map
      (fun r => r.1.bind Handle.block) = .ok (some 0)) :
    ∃ t w', (execimage roomy 0 false argv).run (handedOver flags) = .ok (some (.thread t), w') ∧
      t.image = 0 := by
  cases hrun : (execimage roomy 0 false argv).run (handedOver flags) with
  | error e =>
    rw [hrun] at h
    cases h
  | ok r =>
    obtain ⟨r, w'⟩ := r
    rw [hrun] at h
    have hr : r.bind Handle.block = some 0 := Except.ok.inj h
    obtain ⟨t, rfl, ht⟩ := Option.bind_eq_some_iff.1 hr
    cases t with
    | thread t => exact ⟨t, w', rfl, Option.some.inj ht⟩
    | library => cases ht

theorem argsPassed_executable :
    ∃ t w', (execimage roomy 0 false none).run (handedOver 0) = .ok (some (.thread t), w') ∧
      ArgsPassed (Header.read (handedOver 0).mem 0x1000) [] 0x1000 t w'.mem := by
  have hblock : ((execimage roomy 0 false none).run (handedOver 0)).map
      (fun r => r.1.bind Handle.block) = .ok (some 0) := by decide
  obtain ⟨t, w', hrun, ht⟩ := runs_of_block hblock
  refine ⟨t, w', hrun, ?_⟩
  have hiff := argsPassed_iff (by decide) (.inl rfl) (fun b _ => ?_) hrun (fun a ha => by cases ha)
  · rw [ht] at hiff
    refine hiff.2 ⟨rfl, ?_, ?_, ?_, ?_⟩
    · decide
    · decide
    · decide
    · decide
  · change 4 ∣ ((0x1000 + 0x1000 * BitVec.ofNat 32 b : BitVec 32)).toNat
    rw [BitVec.toNat_add, BitVec.toNat_mul, BitVec.toNat_ofNat]
    change 4 ∣ (4096 + 4096 * (b % 2 ^ 32) % 2 ^ 32) % 2 ^ 32
    omega

/-- The string `"A"`, elsewhere in memory. -/
def someArg : Arg := ⟨0x8000, [0x41]⟩

/-- The program gets the pointer of the caller. -/
theorem someArg_not_passed :
    ∃ t w', (execimage roomy 0 false (some [someArg])).run (handedOver 0) =
        .ok (some (.thread t), w') ∧
      ¬ ArgsPassed (Header.read (handedOver 0).mem 0x1000) [someArg] 0x1000 t w'.mem := by
  have hblock : ((execimage roomy 0 false (some [someArg])).run (handedOver 0)).map
      (fun r => r.1.bind Handle.block) = .ok (some 0) := by decide
  obtain ⟨t, w', hrun, ht⟩ := runs_of_block hblock
  refine ⟨t, w', hrun, ?_⟩
  obtain ⟨-, -, m, he, hmem⟩ := started (by decide) hrun
  rw [ht] at he hmem
  have hargv : t.argv = argvCopy (Header.read (handedOver 0).mem (roomy.addr 0)) (roomy.addr 0) := by
    rw [he]
    rfl
  have houtside : (roomy.addr 0).toNat +
      ((Header.read (handedOver 0).mem (roomy.addr 0)).finalsize [someArg]).toNat ≤
        someArg.ptr.toNat := by decide
  rw [hmem]
  exact not_passed_cons hargv (.inr houtside)

end Execimage
end Freemyipod
