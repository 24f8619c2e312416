import Freemyipod.Lib.Runs
import Freemyipod.Malloc.Tlsf

/-!
# Malloc.Owners

The functions of `emcore/malloc.c`, which keep the owner of a block in its last word.

* `malloc`, `memalign`, `realign`, `reownalloc`, `free`, `freeAllOfThread`: the functions. What the ones
  of the allocator that have to find a block answer is a parameter.
* `walk_spec`: the walk frees the blocks of the owner and no others.
* `step`, `Legal`: the calls, and what is promised by the callers and by the allocator.
* `Matches`: the blocks and their owner words against a ledger of what was asked for by whom.
* `ownership`: they match in every state, as long as the sizes do not overflow.
-/

namespace Freemyipod
namespace Malloc

/-- `ptr + size - 4` -/
def ownerWord (ptr size : Nat) : Nat := (ptr + size + 4294967292) % 4294967296

/-- `size + 4` -/
def request (size : Nat) : Nat := (size + 4) % 4294967296

/-- A pointer, 0 if it is null, and the memory. -/
structure Answer where
  ptr : Nat
  mem : Memory

/-- The owner is written into the last word. -/
def Answer.own (a : Answer) (owner : Nat) : Answer :=
  if a.ptr ≠ 0 then
    ⟨a.ptr, Function.update a.mem (ownerWord a.ptr (tlsfBlockSize a.mem a.ptr)) owner⟩
  else a

def malloc (tlsfMalloc : Nat → Answer) (currentThread size : Nat) : Answer :=
  (tlsfMalloc (request size)).own currentThread

def memalign (tlsfMemalign : Nat → Nat → Answer) (currentThread align size : Nat) : Answer :=
  (tlsfMemalign align (request size)).own currentThread

def realign (tlsfRealign : Nat → Nat → Nat → Answer) (mem : Memory) (ptr align size : Nat) :
    Answer :=
  -- the block size of the null pointer is 0
  let owner := mem (ownerWord ptr (tlsfBlockSize mem ptr))
  (tlsfRealign ptr align (request size)).own owner

def realloc (tlsfRealign : Nat → Nat → Nat → Answer) (mem : Memory) (ptr size : Nat) : Answer :=
  realign tlsfRealign mem ptr 4 size

def reownalloc (mem : Memory) (ptr owner : Nat) : Memory :=
  Function.update mem (ownerWord ptr (tlsfBlockSize mem ptr)) owner

def free (mem : Memory) (ptr : Nat) : Memory := tlsfFree mem ptr

def freeIfThread (owner : Nat) (mem : Memory) (ptr size : Nat) : Memory :=
  if mem (ownerWord ptr size) = owner then free mem ptr else mem

/-- `free_all_of_thread`. No pool has as many blocks as there are addresses. -/
def freeAllOfThread (first : Nat) (mem : Memory) (owner : Nat) : Option Memory :=
  tlsfWalkHeap (freeIfThread owner) 4294967296 mem first

/-! ## Used blocks -/

variable {mem mem' : Memory} {first a c n p x owner : Nat} {before : Option Nat}
  {bs bs' rest done : List Block}

theorem ownerWord_eq (h4 : 4 ≤ n) (h : p + n ≤ 4294967296) : ownerWord p n = p + n - 4 := by
  rw [ownerWord]
  omega

theorem Chain.unique {before' : Option Nat} (h : Chain mem before a bs)
    (h' : Chain mem before' a bs') : bs = bs' := by
  induction bs generalizing a before before' bs' with
  | nil =>
    cases bs' with
    | nil => rfl
    | cons b bs' =>
      have hzero := h.2.size_eq (Nat.dvd_zero 4)
      rw [h'.2.1.size_eq h'.1.2] at hzero
      have hlen := h'.1.1
      omega
  | cons b bs ih =>
    cases bs' with
    | nil =>
      have hzero := h'.2.size_eq (Nat.dvd_zero 4)
      rw [h.2.1.size_eq h.1.2] at hzero
      have hlen := h.1.1
      omega
    | cons b' bs' =>
      have hsize : b.size = b'.size := by
        rw [← h.2.1.size_eq h.1.2, h'.2.1.size_eq h'.1.2]
      have hfree : b.free = b'.free := by
        rw [← h.2.1.free_eq h.1.2, h'.2.1.free_eq h'.1.2]
      have hb : b = b' := by
        cases b
        cases b'
        simp_all
      subst hb
      rw [ih h.2.2 h'.2.2]

theorem Chain.block (h : Chain mem before a bs) (hp : (p, n) ∈ used a bs) :
    12 ≤ n ∧ 4 ∣ n ∧ tlsfBlockSize mem p = n ∧ ownerWord p n = p + n - 4 ∧ a + 8 ≤ p := by
  have hrange := used_range hp
  have hstop := h.stop_le
  obtain ⟨pre, post, rfl, rfl⟩ := used_split hp
  obtain ⟨-, hsize, htag, -⟩ := chain_append.1 h
  refine ⟨hsize.1, hsize.2, ?_, ownerWord_eq (by have := hsize.1; dsimp only at this; omega)
    (by omega), hrange.1⟩
  rw [tlsfBlockSize, if_neg (by omega), Nat.add_sub_cancel]
  exact htag.size_eq hsize.2

/-- Two used blocks are the same or apart. -/
theorem Chain.apart {q k : Nat} (h : Chain mem before a bs) (hp : (p, n) ∈ used a bs)
    (hq : (q, k) ∈ used a bs) : (p = q ∧ n = k) ∨ p + n ≤ q ∨ q + k ≤ p := by
  induction bs generalizing a before with
  | nil => cases hp
  | cons b bs ih =>
    cases hb : b.free with
    | true =>
      simp only [used, hb, if_true] at hp hq
      exact ih h.2.2 hp hq
    | false =>
      simp only [used, hb, Bool.false_eq_true, if_false, List.mem_cons, Prod.mk.injEq] at hp hq
      rcases hp with ⟨rfl, rfl⟩ | hp
      · rcases hq with ⟨rfl, rfl⟩ | hq
        · exact .inl ⟨rfl, rfl⟩
        · have hrange := used_range hq
          omega
      · rcases hq with ⟨rfl, rfl⟩ | hq
        · have hrange := used_range hp
          omega
        · exact ih h.2.2 hp hq

theorem Chain.size_unique {k : Nat} (h : Chain mem before a bs) (hp : (p, n) ∈ used a bs)
    (hk : (p, k) ∈ used a bs) : n = k := by
  have hlen := (h.block hp).1
  have hlen' := (h.block hk).1
  rcases h.apart hp hk with heq | happart
  · exact heq.2
  · omega

/-- A write into a used block leaves the headers alone. -/
theorem Chain.store {v : Nat} (h : Chain mem before a bs) (hp : (p, n) ∈ used a bs) (hge : p ≤ x)
    (hlt : x < p + n) : Chain (Function.update mem x v) before a bs := by
  obtain ⟨pre, post, rfl, rfl⟩ := used_split hp
  obtain ⟨hseg, hsize, htag, hpost⟩ := chain_append.1 h
  dsimp only at hpost
  have hne : ∀ y, y ≠ x → Function.update mem x v y = mem y := fun y hy =>
    Function.update_of_ne hy v mem
  refine chain_append.2 ⟨hseg.congr fun y _ hy => hne y (by omega), hsize,
    htag.congr (hne _ (by omega)) (hne _ (by omega)), ?_⟩
  refine hpost.retag (fun y hy => hne y (by omega)) fun k f hk htag' => ⟨?_, fun q hq => ?_⟩
  · rw [hne _ (by omega)]
    exact htag'.word
  · cases hq

/-! ## The walk -/

theorem length_le_stop (h : Seg mem before a bs) : a + 16 * bs.length ≤ stop a bs := by
  induction bs generalizing a before with
  | nil => simp [stop]
  | cons b bs ih =>
    have hle := ih h.2.2
    have hsize := h.1.1
    simp only [stop, List.length_cons]
    omega

theorem Chain.not_last {b : Block} (h : Chain mem before c (b :: rest)) (hc : 0 < c) :
    ¬ (c = 0 ∨ blockSize mem c = 0) := by
  have hsize := h.2.1.size_eq h.1.2
  have hlen := h.1.1
  omega

/-- The last word of a free block is the address of its header. -/
theorem Chain.first_word (h : Chain mem (some p) c rest) : mem c = p := by
  cases rest with
  | nil => exact h.2.prev p rfl
  | cons b rest => exact h.2.1.prev p rfl

theorem Chain.last_word {b : Block} (h : Chain mem before c (b :: rest)) (hb : b.free = true) :
    mem (c + 4 + b.size) = c := by
  have hbehind := h.2.2
  rw [markOf, if_pos hb] at hbehind
  exact hbehind.first_word

theorem Chain.owner_word {b : Block} (h : Chain mem before c (b :: rest)) :
    ownerWord (c + 8) b.size = c + 4 + b.size := by
  have hstop := h.stop_le
  have hge : c + 4 + b.size ≤ stop c (b :: rest) := stop_ge
  have hlen := h.1.1
  rw [ownerWord_eq (by omega) (by omega)]
  omega

theorem walk_nil {fuel : Nat} {walker : Memory → Nat → Nat → Memory} (h : Chain mem before c [])
    (hfuel : 0 < fuel) : tlsfWalkHeap walker fuel mem c = some mem := by
  obtain ⟨fuel, rfl⟩ := Nat.exists_eq_succ_of_ne_zero (Nat.ne_zero_of_lt hfuel)
  rw [tlsfWalkHeap, if_pos (.inr (h.2.size_eq (Nat.dvd_zero 4)))]

/-- The walker leaves a block alone that has another owner. -/
theorem walk_skip {b : Block} {fuel : Nat} (h : Chain mem before c (b :: rest)) (hc : 0 < c)
    (hother : mem (c + 4 + b.size) ≠ owner) :
    tlsfWalkHeap (freeIfThread owner) (fuel + 1) mem c =
      tlsfWalkHeap (freeIfThread owner) fuel mem (c + 4 + b.size) := by
  rw [tlsfWalkHeap, if_neg (h.not_last hc)]
  dsimp only
  rw [h.2.1.size_eq h.1.2, freeIfThread, h.owner_word, if_neg hother, h.2.1.next_eq h.1.2]

/-- The blocks that the walk has to have left, from those done on. -/
def WalksTo (owner first : Nat) (done rest : List Block) (mem : Memory) (mem' : Option Memory) :
    Prop :=
  ∃ m bs, mem' = some m ∧ Chain m none first bs ∧
    used first bs = used first done ++ (used (stop first done) rest).filter
      (fun b => mem (b.1 + b.2 - 4) ≠ owner) ∧
    ∀ b ∈ used first bs, ∀ x, b.1 ≤ x → x < b.1 + b.2 → m x = mem x

theorem Freed.tail_used {post tail done' : List Block}
    (h : Freed mem mem' first done n post done' tail) :
    used (stop first done') tail = used (stop first done + 4 + n) post := by
  rcases h.behind with ⟨rfl, hstop⟩ | ⟨k, rfl, hstop⟩ <;> simp [used, hstop]

theorem Freed.same_tail {post tail done' : List Block} {b : Nat × Nat}
    (h : Freed mem mem' first done n post done' tail) (hb : b ∈ used (stop first done') tail)
    (x : Nat) (hx : b.1 ≤ x) : mem' x = mem x := by
  have hrange := used_range hb
  exact h.same_behind x (by omega)

/-- A walk goes on behind a block that has been freed. -/
theorem Freed.walksTo {post tail done' : List Block} {m : Option Memory}
    (h : Freed mem mem' first done n post done' tail) (hn : 12 ≤ n)
    (howner : mem (stop first done + 4 + n) = owner) (hw : WalksTo owner first done' tail mem' m) :
    WalksTo owner first done (⟨n, false⟩ :: post) mem m := by
  obtain ⟨m, bs, rfl, hchain, hused, hsame⟩ := hw
  have hword : stop first done + 8 + n - 4 = stop first done + 4 + n := by omega
  have hlast : ∀ b ∈ used (stop first done') tail,
      mem' (b.1 + b.2 - 4) = mem (b.1 + b.2 - 4) := by
    intro b hb
    have hlen : 12 ≤ b.2 := ((chain_append.1 h.chain).2.block hb).1
    exact h.same_tail hb _ (by omega)
  have hfilter : (used (stop first done') tail).filter (fun b => mem' (b.1 + b.2 - 4) ≠ owner) =
      (used (stop first done') tail).filter fun b => mem (b.1 + b.2 - 4) ≠ owner := by
    apply List.filter_congr
    intro b hb
    rw [hlast b hb]
  refine ⟨m, bs, rfl, hchain, ?_, fun b hb x hge hlt => ?_⟩
  · rw [hused, h.used_eq, hfilter, h.tail_used]
    simp [used, hword, howner]
  · rw [hsame b hb x hge hlt]
    rw [hused, h.used_eq] at hb
    rcases List.mem_append.1 hb with hb | hb
    · exact h.same_before b.1 b.2 hb x hge hlt
    · exact h.same_tail (List.mem_filter.1 hb).1 x hge

/-- From a header on, the walk frees the used blocks with the owner. The free blocks that it comes to as
well, some of them merged by now, have the address of a header in their last word. -/
theorem walk_spec (hfirst : 0 < first) {k fuel : Nat} (hk : rest.length ≤ k)
    (hfuel : rest.length < fuel) (h : Chain mem none first (done ++ rest))
    (howner : owner ∉ heads first (done ++ rest)) :
    WalksTo owner first done rest mem
      (tlsfWalkHeap (freeIfThread owner) fuel mem (stop first done)) := by
  induction k generalizing rest done mem fuel with
  | zero =>
    obtain rfl : rest = [] := List.length_eq_zero_iff.1 (by omega)
    have hchain := (chain_append.1 h).2
    exact ⟨mem, done, walk_nil hchain hfuel, by simpa using h, by simp [used], fun _ _ _ _ _ => rfl⟩
  | succ k ih =>
    have hchain := (chain_append.1 h).2
    have hge : first ≤ stop first done := stop_ge
    cases rest with
    | nil =>
      exact ⟨mem, done, walk_nil hchain hfuel, by simpa using h, by simp [used],
        fun _ _ _ _ _ => rfl⟩
    | cons b rest =>
      obtain ⟨fuel, rfl⟩ := Nat.exists_eq_succ_of_ne_zero (n := fuel) (by omega)
      simp only [List.length_cons] at hk hfuel
      have hnext : stop first (done ++ [b]) = stop first done + 4 + b.size := by simp [stop]
      have hmoved : Chain mem none first ((done ++ [b]) ++ rest) := by simpa using h
      have hheads : owner ∉ heads first ((done ++ [b]) ++ rest) := by simpa using howner
      have hhere : owner ≠ stop first done := by
        rintro rfl
        exact howner (by simp [heads])
      by_cases hother : mem (stop first done + 4 + b.size) ≠ owner
      · -- not to be freed
        rw [walk_skip hchain (by omega) hother, ← hnext]
        obtain ⟨m, bs, hm, hbs, hused, hsame⟩ := ih (by omega : rest.length ≤ k)
          (by omega : rest.length < fuel) hmoved hheads
        refine ⟨m, bs, hm, hbs, ?_, hsame⟩
        have hword : stop first done + 8 + b.size - 4 = stop first done + 4 + b.size := by omega
        rw [hused, hnext, used_append, List.append_assoc]
        cases hb : b.free <;> simp [used, hb, hword, hother]
      · rw [not_not] at hother
        have hb : b.free = false := by
          by_contra hb
          exact hhere (hother ▸ hchain.last_word (by simpa using hb))
        obtain ⟨n, f⟩ := b
        dsimp only at hb hother hnext
        subst hb
        have hn := hchain.1
        dsimp only at hn
        obtain ⟨done', tail, hfreed⟩ := tlsfFree_spec h
        have htail := (chain_append.1 hfreed.chain).2
        have hlength : tail.length ≤ rest.length := by
          rcases hfreed.behind with ⟨rfl, -⟩ | ⟨l, rfl, -⟩ <;> simp
        have hheads' : owner ∉ heads first (done' ++ tail) := by
          intro hmem
          rw [heads_append, List.mem_append] at hmem
          apply howner
          simp only [heads_append, List.mem_append, heads, List.mem_cons]
          rcases hmem with hmem | hmem
          · have hmem' := hfreed.heads_sub hmem
            simp only [heads_append, heads, List.mem_append, List.mem_singleton] at hmem'
            rcases hmem' with hmem' | hmem'
            · exact .inl hmem'
            · exact .inr (.inl hmem')
          · right
            right
            rcases hfreed.behind with ⟨rfl, hstop⟩ | ⟨l, rfl, hstop⟩
            · rwa [← hstop]
            · simp only [heads, List.mem_cons]
              right
              rwa [← hstop]
        have hgo : ∀ fuel', tail.length < fuel' → WalksTo owner first done'
            tail (tlsfFree mem (stop first done + 8)) (tlsfWalkHeap (freeIfThread owner) fuel'
              (tlsfFree mem (stop first done + 8)) (stop first done')) :=
          fun fuel' hlt => ih (by omega) hlt hfreed.chain hheads'
        rw [tlsfWalkHeap, if_neg (hchain.not_last (by omega))]
        dsimp only
        rw [hchain.2.1.size_eq hn.2, freeIfThread, hchain.owner_word, if_pos hother, free]
        rcases hfreed.next with hto | ⟨l, hl, rfl, hstop, hto, hsize⟩
        · rw [hto]
          exact hfreed.walksTo hn.1 hother (hgo fuel (by omega))
        · -- the next block has become a part of the free one, and its header is still there
          obtain ⟨fuel, rfl⟩ := Nat.exists_eq_succ_of_ne_zero (n := fuel) (by omega)
          obtain ⟨q, hq⟩ := Option.isSome_iff_exists.1 hfreed.marked
          obtain ⟨d, b, hd, -, rfl⟩ := mark_eq_some hq
          rw [hq] at htail
          have hlen : 12 ≤ l := hchain.2.2.1.1
          have hend := htail.stop_le
          have hge' : stop first done' ≤ stop (stop first done') tail := stop_ge
          have hword : ownerWord (stop first done + 4 + n + 8) l = stop first done' := by
            rw [ownerWord_eq (by omega) (by omega)]
            omega
          have hother' : ¬ stop first d = owner := by
            rintro rfl
            apply hheads'
            simp [hd, heads]
          rw [hto, tlsfWalkHeap, if_neg (by rw [hsize]; omega)]
          dsimp only
          rw [hsize, freeIfThread, hword, htail.first_word, if_neg hother', blockNext, hsize]
          have hnext' : stop first done + 4 + n + 8 + l - 4 = stop first done' := by omega
          rw [hnext']
          simp only [List.length_cons] at hfuel
          exact hfreed.walksTo hn.1 hother (hgo fuel (by omega))

/-! ## Calls -/

/-- For whom a block is, and how many bytes of it were asked for. -/
structure Owned where
  owner : Nat
  asked : Nat

/-- The ledger says what there is to be in the memory. -/
structure State where
  mem : Memory
  ledger : Nat → Option Owned

inductive Call where
  | malloc (tlsfMalloc : Nat → Answer) (size : Nat)
  | memalign (tlsfMemalign : Nat → Nat → Answer) (align size : Nat)
  | realign (tlsfRealign : Nat → Nat → Nat → Answer) (ptr align size : Nat)
  | realloc (tlsfRealign : Nat → Nat → Nat → Answer) (ptr size : Nat)
  | reownalloc (ptr owner : Nat)
  | free (ptr : Nat)
  | freeAllOfThread (owner : Nat)
  /-- The caller uses a block. -/
  | write (x value : Nat)

namespace State

/-- Who owns the block at `ptr`, or is going to if there is none. -/
def ownerOf (s : State) (current ptr : Nat) : Nat := ((s.ledger ptr).map Owned.owner).getD current

/-- What was at `ptr` is now in the block of the answer. -/
def moved (s : State) (ptr owner size : Nat) (a : Answer) : State :=
  ⟨a.mem, if a.ptr = 0 then s.ledger
    else Function.update (Function.update s.ledger ptr none) a.ptr (some ⟨owner, size⟩)⟩

def reowned (s : State) (ptr owner : Nat) (mem : Memory) : State :=
  ⟨mem, Function.update s.ledger ptr ((s.ledger ptr).map fun r => { r with owner })⟩

def freed (s : State) (ptr : Nat) (mem : Memory) : State :=
  ⟨mem, Function.update s.ledger ptr none⟩

def cleaned (s : State) (owner : Nat) (mem : Memory) : State :=
  ⟨mem, fun ptr => (s.ledger ptr).filter fun r => r.owner ≠ owner⟩

end State

/-- A call by a thread, and what it returns. -/
def step (first : Nat) (s : State) : Nat × Call → Option (State × Answer)
  | (current, .malloc tlsfMalloc size) =>
    let a := malloc tlsfMalloc current size
    some (s.moved 0 current size a, a)
  | (current, .memalign tlsfMemalign align size) =>
    let a := memalign tlsfMemalign current align size
    some (s.moved 0 current size a, a)
  | (current, .realign tlsfRealign ptr align size) =>
    let a := realign tlsfRealign s.mem ptr align size
    some (s.moved ptr (s.ownerOf current ptr) size a, a)
  | (current, .realloc tlsfRealign ptr size) =>
    let a := realloc tlsfRealign s.mem ptr size
    some (s.moved ptr (s.ownerOf current ptr) size a, a)
  | (_, .reownalloc ptr owner) =>
    let mem := reownalloc s.mem ptr owner
    some (s.reowned ptr owner mem, ⟨0, mem⟩)
  | (_, .free ptr) =>
    let mem := free s.mem ptr
    some (s.freed ptr mem, ⟨0, mem⟩)
  | (_, .freeAllOfThread owner) =>
    (freeAllOfThread first s.mem owner).map fun mem => (s.cleaned owner mem, ⟨0, mem⟩)
  | (_, .write x value) =>
    let mem := Function.update s.mem x value
    some (⟨mem, s.ledger⟩, ⟨0, mem⟩)

/-- What the allocator promises for `n` bytes, into which it moves what is at `ptr`: a block that is
large enough and apart from the others, which keep what they hold. -/
structure Promised (first : Nat) (mem : Memory) (ptr n : Nat) (a : Answer) : Prop where
  failed : a.ptr = 0 → a.mem = mem
  served : a.ptr ≠ 0 → ∀ bs, Chain mem none first bs → ∃ bs' k, Chain a.mem none first bs' ∧ n ≤ k ∧
    (∀ b, b ∈ used first bs' ↔ (b ∈ used first bs ∧ b.1 ≠ ptr) ∨ b = (a.ptr, k)) ∧
    (∀ b ∈ used first bs, b.1 = a.ptr → b.1 = ptr) ∧
    ∀ b ∈ used first bs, b.1 ≠ ptr → ∀ x, b.1 ≤ x → x < b.1 + b.2 → a.mem x = mem x

/-- The sizes are of 32 bits, the callers name blocks that they have, and the allocator keeps its
promises. A request for nothing fails, and frees the block that there was. -/
def Legal (first : Nat) (s : State) : Nat × Call → Prop
  | (_, .malloc tlsfMalloc size) => size < 4294967296 ∧ tlsfMalloc 0 = ⟨0, s.mem⟩ ∧
    ∀ n, n ≠ 0 → Promised first s.mem 0 n (tlsfMalloc n)
  | (_, .memalign tlsfMemalign align size) => size < 4294967296 ∧
    ∀ n, n ≠ 0 → Promised first s.mem 0 n (tlsfMemalign align n)
  | (_, .realign tlsfRealign ptr align size) => size < 4294967296 ∧
    (ptr = 0 ∨ (s.ledger ptr).isSome) ∧ tlsfRealign ptr align 0 = ⟨0, tlsfFree s.mem ptr⟩ ∧
    ∀ n, n ≠ 0 → Promised first s.mem ptr n (tlsfRealign ptr align n)
  | (_, .realloc tlsfRealign ptr size) => size < 4294967296 ∧
    (ptr = 0 ∨ (s.ledger ptr).isSome) ∧ tlsfRealign ptr 4 0 = ⟨0, tlsfFree s.mem ptr⟩ ∧
    ∀ n, n ≠ 0 → Promised first s.mem ptr n (tlsfRealign ptr 4 n)
  | (_, .reownalloc ptr _) => (s.ledger ptr).isSome
  | (_, .free ptr) => ptr = 0 ∨ (s.ledger ptr).isSome
  | (_, .freeAllOfThread _) => True
  | (_, .write x _) => ∃ p r, s.ledger p = some r ∧ p ≤ x ∧ x < p + r.asked

/-- With the four bytes more the size is still of 32 bits, the word behind the null pointer is not taken
for an owner, and no header is at the address of a thread. -/
def Sound (first : Nat) (s : State) : Nat × Call → Prop
  | (_, .malloc _ size) => size + 4 ≤ 4294967296
  | (_, .memalign _ _ size) => size + 4 < 4294967296
  | (current, .realign _ ptr _ size) | (current, .realloc _ ptr size) =>
    if ptr = 0 then size + 4 ≤ 4294967296 ∧ s.mem 4294967292 = current
    else size + 4 < 4294967296
  | (_, .freeAllOfThread owner) => ∀ bs, Chain s.mem none first bs → owner ∉ heads first bs
  | _ => True

/-- The used blocks are those of the ledger, the owners in them as well, and the owner's word is behind
the bytes that were asked for. -/
structure Matches (first : Nat) (s : State) (bs : List Block) : Prop where
  chain : Chain s.mem none first bs
  used_iff : ∀ p, (∃ k, (p, k) ∈ used first bs) ↔ (s.ledger p).isSome
  enough : ∀ p r, s.ledger p = some r → r.asked + 4 ≤ tlsfBlockSize s.mem p
  owner : ∀ p r, s.ledger p = some r → s.mem (ownerWord p (tlsfBlockSize s.mem p)) = r.owner

/-- A call to change the size of a block that fails leaves everything as it is. -/
def Right : State × (Nat × Call) × Answer → Prop
  | (s, (_, .realign _ _ _ _), a) | (s, (_, .realloc _ _ _), a) => a.ptr = 0 → a.mem = s.mem
  | _ => True

namespace Matches

variable {s : State} {ledger : Nat → Option Owned} {r : Owned} {current ptr size : Nat} {l : Answer}

theorem entry (h : Matches first s bs) (hp : (p, n) ∈ used first bs) :
    ∃ r, s.ledger p = some r ∧ r.asked + 4 ≤ n ∧ s.mem (p + n - 4) = r.owner := by
  obtain ⟨r, hr⟩ := Option.isSome_iff_exists.1 ((h.used_iff p).1 ⟨n, hp⟩)
  obtain ⟨-, -, hsize, hword, -⟩ := h.chain.block hp
  have henough := h.enough p r hr
  have howner := h.owner p r hr
  rw [hsize] at henough howner
  rw [hword] at howner
  exact ⟨r, hr, henough, howner⟩

theorem block_of (h : Matches first s bs) (hr : s.ledger p = some r) :
    ∃ n, (p, n) ∈ used first bs ∧ r.asked + 4 ≤ n ∧ s.mem (p + n - 4) = r.owner := by
  obtain ⟨n, hn⟩ := (h.used_iff p).2 (by simp [hr])
  obtain ⟨r', hr', hrest⟩ := h.entry hn
  rw [hr] at hr'
  cases hr'
  exact ⟨n, hn, hrest⟩

theorem of_used (hchain : Chain s.mem none first bs)
    (hused : ∀ p n, (p, n) ∈ used first bs →
      ∃ r, s.ledger p = some r ∧ r.asked + 4 ≤ n ∧ s.mem (p + n - 4) = r.owner)
    (hledger : ∀ p r, s.ledger p = some r → ∃ n, (p, n) ∈ used first bs) :
    Matches first s bs := by
  have hblock : ∀ p r, s.ledger p = some r → r.asked + 4 ≤ tlsfBlockSize s.mem p ∧
      s.mem (ownerWord p (tlsfBlockSize s.mem p)) = r.owner := by
    intro p r hr
    obtain ⟨n, hn⟩ := hledger p r hr
    obtain ⟨r', hr', henough, howner⟩ := hused p n hn
    rw [hr] at hr'
    cases hr'
    obtain ⟨-, -, hsize, hword, -⟩ := hchain.block hn
    rw [hsize, hword]
    exact ⟨henough, howner⟩
  refine ⟨hchain, fun p => ⟨?_, fun hsome => ?_⟩, fun p r hr => (hblock p r hr).1,
    fun p r hr => (hblock p r hr).2⟩
  · rintro ⟨n, hn⟩
    obtain ⟨r, hr, -⟩ := hused p n hn
    simp [hr]
  · obtain ⟨r, hr⟩ := Option.isSome_iff_exists.1 hsome
    exact hledger p r hr

theorem ledger_zero (h : Matches first s bs) : s.ledger 0 = none := by
  cases hr : s.ledger 0 with
  | none => rfl
  | some r =>
    obtain ⟨n, hn, -⟩ := h.block_of hr
    have hrange := used_range hn
    omega

/-- Some of the blocks are left, and hold what they held. -/
theorem restrict (h : Matches first s bs) (hchain : Chain mem' none first bs')
    (hused : ∀ b ∈ used first bs', b ∈ used first bs ∧
      ∀ x, b.1 ≤ x → x < b.1 + b.2 → mem' x = s.mem x)
    (hledger : ∀ p r, ledger p = some r ↔ s.ledger p = some r ∧ ∃ n, (p, n) ∈ used first bs') :
    Matches first ⟨mem', ledger⟩ bs' := by
  refine of_used hchain (fun p n hp => ?_) fun p r hr => ((hledger p r).1 hr).2
  obtain ⟨hold, hsame⟩ := hused (p, n) hp
  obtain ⟨r, hr, henough, howner⟩ := h.entry hold
  have hlen := (h.chain.block hold).1
  refine ⟨r, (hledger p r).2 ⟨hr, n, hp⟩, henough, ?_⟩
  rw [← howner]
  exact hsame (p + n - 4) (by omega) (by omega)

/-- The answer of the allocator, with the owner written into it. -/
theorem moved_own {a : Answer} (h : Matches first s bs) (ha : Promised first s.mem ptr n a)
    (hn : size + 4 ≤ n) (owner : Nat) :
    ∃ bs', Matches first (s.moved ptr owner size (a.own owner)) bs' := by
  by_cases hptr : a.ptr = 0
  · have hsame : s.moved ptr owner size (a.own owner) = s := by
      simp [State.moved, Answer.own, hptr, ha.failed hptr]
    rw [hsame]
    exact ⟨bs, h⟩
  · obtain ⟨bs', k, hchain, hk, hused, hfresh, hkept⟩ := ha.served hptr bs h.chain
    have hnew : (a.ptr, k) ∈ used first bs' := (hused _).2 (.inr rfl)
    obtain ⟨hlen, -, hsize, hword, -⟩ := hchain.block hnew
    have hown : a.own owner = ⟨a.ptr, Function.update a.mem (a.ptr + k - 4) owner⟩ := by
      simp [Answer.own, hptr, hsize, hword]
    refine ⟨bs', ?_⟩
    simp only [State.moved, hown, hptr, if_false]
    refine of_used (hchain.store hnew (by omega) (by omega)) (fun p l hp => ?_) fun p r hr => ?_
    · rcases (hused (p, l)).1 hp with ⟨hold, hne⟩ | heq
      · dsimp only at hne
        have hne' : p ≠ a.ptr := fun heq => hne (hfresh _ hold heq)
        obtain ⟨r, hr, henough, howner⟩ := h.entry hold
        have hlen' := (hchain.block hp).1
        refine ⟨r, ?_, henough, ?_⟩
        · simp [Function.update_of_ne hne', Function.update_of_ne hne, hr]
        · have hapart := hchain.apart hp hnew
          dsimp only
          rw [Function.update_of_ne (by omega), ← howner]
          exact hkept _ hold hne _ (by dsimp only; omega) (by dsimp only; omega)
      · cases heq
        refine ⟨⟨owner, size⟩, ?_, ?_, ?_⟩
        · simp
        · dsimp only
          omega
        · simp
    · dsimp only at hr
      by_cases hp : p = a.ptr
      · rw [hp]
        exact ⟨k, hnew⟩
      · rw [Function.update_of_ne hp] at hr
        by_cases hp' : p = ptr
        · rw [hp', Function.update_self] at hr
          cases hr
        · rw [Function.update_of_ne hp'] at hr
          obtain ⟨l, hl, -⟩ := h.block_of hr
          exact ⟨l, (hused _).2 (.inl ⟨hl, hp'⟩)⟩

/-- A request that the allocator is not told of leaves everything as it is. -/
theorem moved_failed (h : Matches first s bs) (owner : Nat) :
    Matches first (s.moved ptr owner size ⟨0, s.mem⟩) bs := by
  simpa [State.moved] using h

/-- The block is gone from the used ones, the others hold what they held. -/
theorem freed_tlsfFree (h : Matches first s bs) (hptr : ptr = 0 ∨ (s.ledger ptr).isSome) :
    ∃ bs', Matches first (s.freed ptr (tlsfFree s.mem ptr)) bs' := by
  rcases hptr with rfl | hptr
  · have hsame : s.freed 0 (tlsfFree s.mem 0) = s := by
      have hzero := h.ledger_zero
      simp [State.freed, tlsfFree, ← hzero]
    rw [hsame]
    exact ⟨bs, h⟩
  · obtain ⟨n, hn⟩ := (h.used_iff ptr).2 hptr
    obtain ⟨done, post, rfl, rfl⟩ := used_split hn
    obtain ⟨done', tail, hfreed⟩ := tlsfFree_spec h.chain
    have hlen : 12 ≤ n := (h.chain.block hn).1
    have hused : used first (done' ++ tail) =
        used first done ++ used (stop first done + 4 + n) post := by
      rw [used_append, hfreed.used_eq, hfreed.tail_used]
    have hold : used first (done ++ ⟨n, false⟩ :: post) =
        used first done ++ (stop first done + 8, n) :: used (stop first done + 4 + n) post := by
      simp [used]
    refine ⟨done' ++ tail, h.restrict hfreed.chain (fun b hb => ⟨?_, fun x hge hlt => ?_⟩)
      fun p r => ?_⟩
    · rw [hused, List.mem_append] at hb
      rw [hold, List.mem_append, List.mem_cons]
      rcases hb with hb | hb
      · exact .inl hb
      · exact .inr (.inr hb)
    · rw [used_append, hfreed.used_eq, List.mem_append] at hb
      rcases hb with hb | hb
      · exact hfreed.same_before b.1 b.2 hb x hge hlt
      · exact hfreed.same_tail hb x hge
    · constructor
      · intro hr
        by_cases hp : p = stop first done + 8
        · rw [hp, Function.update_self] at hr
          cases hr
        · rw [Function.update_of_ne hp] at hr
          obtain ⟨l, hl, -⟩ := h.block_of hr
          refine ⟨hr, l, ?_⟩
          rw [hold, List.mem_append, List.mem_cons] at hl
          rw [hused, List.mem_append]
          rcases hl with hl | heq | hl
          · exact .inl hl
          · cases heq
            exact absurd rfl hp
          · exact .inr hl
      · rintro ⟨hr, l, hl⟩
        have hlen' := (hfreed.chain.block hl).1
        have hp : p ≠ stop first done + 8 := by
          rw [hused, List.mem_append] at hl
          rcases hl with hl | hl
          · have hrange := used_range hl
            omega
          · have hrange := used_range hl
            omega
        rw [Function.update_of_ne hp]
        exact hr

/-- The blocks of the owner are gone. -/
theorem cleaned_walk (hfirst : 0 < first) (h : Matches first s bs)
    (howner : owner ∉ heads first bs) :
    ∃ mem bs', freeAllOfThread first s.mem owner = some mem ∧
      Matches first (s.cleaned owner mem) bs' := by
  have hlength : bs.length < 4294967296 := by
    have hchain : Chain s.mem none first (bs ++ []) := by simpa using h.chain
    have hle := length_le_stop (chain_append.1 hchain).1
    have hstop := h.chain.stop_le
    omega
  have hwalk : WalksTo owner first [] bs s.mem (freeAllOfThread first s.mem owner) :=
    walk_spec hfirst (Nat.le_refl bs.length) hlength h.chain howner
  obtain ⟨mem, bs', hmem, hchain, hused, hsame⟩ := hwalk
  simp only [used, stop, List.nil_append] at hused
  have hleft : ∀ b, b ∈ used first bs' ↔
      b ∈ used first bs ∧ s.mem (b.1 + b.2 - 4) ≠ owner := by
    intro b
    rw [hused, List.mem_filter, decide_eq_true_iff]
  refine ⟨mem, bs', hmem, h.restrict hchain (fun b hb => ⟨((hleft b).1 hb).1, hsame b hb⟩)
    fun p r => ?_⟩
  simp only [Option.filter_eq_some_iff, decide_eq_true_iff]
  constructor
  · rintro ⟨hr, hne⟩
    obtain ⟨l, hl, -, hword⟩ := h.block_of hr
    refine ⟨hr, l, (hleft _).2 ⟨hl, ?_⟩⟩
    rw [hword]
    exact hne
  · rintro ⟨hr, l, hl⟩
    obtain ⟨hold, hne⟩ := (hleft _).1 hl
    obtain ⟨r', hr', -, hword⟩ := h.entry hold
    rw [hr] at hr'
    cases hr'
    refine ⟨hr, ?_⟩
    rwa [hword] at hne

theorem reowned_spec (h : Matches first s bs) (hptr : (s.ledger ptr).isSome) (owner : Nat) :
    Matches first (s.reowned ptr owner (reownalloc s.mem ptr owner)) bs := by
  obtain ⟨r, hr⟩ := Option.isSome_iff_exists.1 hptr
  obtain ⟨n, hn, henough, -⟩ := h.block_of hr
  obtain ⟨hlen, -, hsize, hword, -⟩ := h.chain.block hn
  have hmem : reownalloc s.mem ptr owner = Function.update s.mem (ptr + n - 4) owner := by
    rw [reownalloc, hsize, hword]
  have hledger : (s.ledger ptr).map (fun r => { r with owner }) = some ⟨owner, r.asked⟩ := by
    rw [hr]
    rfl
  rw [hmem, State.reowned, hledger]
  refine of_used (h.chain.store hn (by omega) (by omega)) (fun p l hp => ?_) fun p r' hr' => ?_
  · rcases h.chain.apart hp hn with ⟨rfl, rfl⟩ | happart
    · exact ⟨⟨owner, r.asked⟩, by simp, henough, by simp⟩
    · have hlen' := (h.chain.block hp).1
      have hne : p ≠ ptr := by omega
      obtain ⟨r', hr', henough', howner⟩ := h.entry hp
      refine ⟨r', by simp [Function.update_of_ne hne, hr'], henough', ?_⟩
      dsimp only
      rw [Function.update_of_ne (by omega), howner]
  · by_cases hp : p = ptr
    · rw [hp]
      exact ⟨n, hn⟩
    · dsimp only at hr'
      rw [Function.update_of_ne hp] at hr'
      obtain ⟨l, hl, -⟩ := h.block_of hr'
      exact ⟨l, hl⟩

/-- What was asked for can be written to. -/
theorem write_spec (h : Matches first s bs) (hr : s.ledger p = some r) (hge : p ≤ x)
    (hlt : x < p + r.asked) (v : Nat) : Matches first ⟨Function.update s.mem x v, s.ledger⟩ bs := by
  obtain ⟨n, hn, henough, -⟩ := h.block_of hr
  refine of_used (h.chain.store hn hge (by omega)) (fun q l hq => ?_) fun q r' hr' => ?_
  · obtain ⟨r', hr', henough', howner⟩ := h.entry hq
    have hlen := (h.chain.block hq).1
    have hword : q + l - 4 ≠ x := by
      rcases h.chain.apart hq hn with ⟨rfl, rfl⟩ | happart
      · omega
      · omega
    refine ⟨r', hr', henough', ?_⟩
    dsimp only
    rw [Function.update_of_ne hword, howner]
  · obtain ⟨l, hl, -⟩ := h.block_of hr'
    exact ⟨l, hl⟩

end Matches

/-! ## Steps -/

section
variable {s s' : State} {bs : List Block} {current ptr align size : Nat}

theorem request_eq (h : size + 4 < 4294967296) : request size = size + 4 :=
  Nat.mod_eq_of_lt h

theorem request_eq_zero (h : size + 4 = 4294967296) : request size = 0 := by
  rw [request, h, Nat.mod_self]

theorem Answer.own_failed {a : Answer} (h : a.ptr = 0) (owner : Nat) : a.own owner = a := by
  rw [own, if_neg (not_not.2 h)]

theorem Answer.own_ptr (a : Answer) (owner : Nat) : (a.own owner).ptr = a.ptr := by
  rw [own]
  split <;> rfl

/-- The owner that is read is the one of the ledger. -/
theorem Matches.owner_read (h : Matches first s bs) (hptr : ptr = 0 ∨ (s.ledger ptr).isSome)
    (hnull : ptr = 0 → s.mem 4294967292 = current) :
    s.mem (ownerWord ptr (tlsfBlockSize s.mem ptr)) = s.ownerOf current ptr := by
  by_cases hzero : ptr = 0
  · subst hzero
    have hword : ownerWord 0 (tlsfBlockSize s.mem 0) = 4294967292 := by
      simp [ownerWord, tlsfBlockSize]
    simp [State.ownerOf, h.ledger_zero, hword, hnull rfl]
  · obtain ⟨r, hr⟩ := Option.isSome_iff_exists.1 (hptr.resolve_left hzero)
    rw [h.owner ptr r hr, State.ownerOf, hr]
    rfl

theorem malloc_spec {tlsfMalloc : Nat → Answer} (h : Matches first s bs)
    (hzero : tlsfMalloc 0 = ⟨0, s.mem⟩)
    (hpromised : ∀ n, n ≠ 0 → Promised first s.mem 0 n (tlsfMalloc n))
    (hsize : size + 4 ≤ 4294967296) :
    ∃ bs', Matches first (s.moved 0 current size (malloc tlsfMalloc current size)) bs' := by
  rcases Nat.lt_or_eq_of_le hsize with hlt | heq
  · rw [malloc, request_eq hlt]
    exact h.moved_own (hpromised _ (by omega)) (Nat.le_refl _) current
  · rw [malloc, request_eq_zero heq, hzero, Answer.own_failed rfl]
    exact ⟨bs, h.moved_failed current⟩

theorem realign_spec {tlsfRealign : Nat → Nat → Nat → Answer} (h : Matches first s bs)
    (hptr : ptr = 0 ∨ (s.ledger ptr).isSome)
    (hzero : tlsfRealign ptr align 0 = ⟨0, tlsfFree s.mem ptr⟩)
    (hpromised : ∀ n, n ≠ 0 → Promised first s.mem ptr n (tlsfRealign ptr align n))
    (hsound : if ptr = 0 then size + 4 ≤ 4294967296 ∧ s.mem 4294967292 = current
      else size + 4 < 4294967296) :
    (∃ bs', Matches first (s.moved ptr (s.ownerOf current ptr) size
      (realign tlsfRealign s.mem ptr align size)) bs') ∧
      ((realign tlsfRealign s.mem ptr align size).ptr = 0 →
        (realign tlsfRealign s.mem ptr align size).mem = s.mem) := by
  have hnull : ptr = 0 → s.mem 4294967292 = current := by
    intro heq
    rw [if_pos heq] at hsound
    exact hsound.2
  have hsize : size + 4 < 4294967296 ∨ ptr = 0 ∧ size + 4 = 4294967296 := by
    split at hsound
    · omega
    · exact .inl hsound
  simp only [realign, h.owner_read hptr hnull]
  rcases hsize with hlt | ⟨rfl, heq⟩
  · have hanswer := hpromised (size + 4) (by omega)
    rw [request_eq hlt]
    refine ⟨h.moved_own hanswer (Nat.le_refl _) _, fun hfailed => ?_⟩
    rw [Answer.own_ptr] at hfailed
    rw [Answer.own_failed hfailed, hanswer.failed hfailed]
  · have hfree : tlsfFree s.mem 0 = s.mem := if_pos rfl
    rw [request_eq_zero heq, hzero, hfree, Answer.own_failed rfl]
    exact ⟨⟨bs, h.moved_failed _⟩, fun _ => rfl⟩

theorem step_spec {act : Nat × Call} (hfirst : 0 < first) (h : Matches first s bs)
    (hlegal : Legal first s act) (hsound : Sound first s act) :
    ∃ s' a, step first s act = some (s', a) ∧ (∃ bs', Matches first s' bs') ∧
      Right (s, act, a) := by
  obtain ⟨current, call⟩ := act
  cases call with
  | malloc tlsfMalloc size =>
    obtain ⟨-, hzero, hpromised⟩ := hlegal
    exact ⟨_, _, rfl, malloc_spec h hzero hpromised hsound, trivial⟩
  | memalign tlsfMemalign align size =>
    obtain ⟨-, hpromised⟩ := hlegal
    refine ⟨_, _, rfl, ?_, trivial⟩
    rw [memalign, request_eq hsound]
    exact h.moved_own (hpromised _ (by omega)) (Nat.le_refl _) current
  | realign tlsfRealign ptr align size =>
    obtain ⟨-, hptr, hzero, hpromised⟩ := hlegal
    obtain ⟨hmatches, hright⟩ := realign_spec h hptr hzero hpromised hsound
    exact ⟨_, _, rfl, hmatches, hright⟩
  | realloc tlsfRealign ptr size =>
    obtain ⟨-, hptr, hzero, hpromised⟩ := hlegal
    obtain ⟨hmatches, hright⟩ := realign_spec h hptr hzero hpromised hsound
    exact ⟨_, _, rfl, hmatches, hright⟩
  | reownalloc ptr owner => exact ⟨_, _, rfl, ⟨bs, h.reowned_spec hlegal owner⟩, trivial⟩
  | free ptr => exact ⟨_, _, rfl, h.freed_tlsfFree hlegal, trivial⟩
  | freeAllOfThread owner =>
    obtain ⟨mem, bs', hmem, hmatches⟩ := h.cleaned_walk hfirst (hsound bs h.chain)
    refine ⟨s.cleaned owner mem, ⟨0, mem⟩, ?_, ⟨bs', hmatches⟩, trivial⟩
    simp only [step, hmem, Option.map_some]
  | write x value =>
    obtain ⟨p, r, hr, hge, hlt⟩ := hlegal
    exact ⟨_, _, rfl, ⟨bs, h.write_spec hr hge hlt value⟩, trivial⟩

/-- The blocks and the ledger match in all states, what fails leaves everything as it is, and the cleanup
of a thread comes to an end, as long as the calls are sound. -/
theorem ownership {es : List (State × (Nat × Call) × Answer)} (hfirst : 0 < first)
    (h : Lts.Runs (step first) (fun x act => Legal first x act ∧ Sound first x act) s es s')
    (h0 : ∃ bs, Matches first s bs) :
    (∀ e ∈ es, (∃ bs, Matches first e.1 bs) ∧ Right e) ∧ (∃ bs, Matches first s' bs) ∧
      ∀ act, Legal first s' act → Sound first s' act → (step first s' act).isSome := by
  have hall : (∀ e ∈ es, (∃ bs, Matches first e.1 bs) ∧ Right e) ∧ ∃ bs, Matches first s' bs := by
    apply h.invariant_trace (I := fun es x =>
      (∀ e ∈ es, (∃ bs, Matches first e.1 bs) ∧ Right e) ∧ ∃ bs, Matches first x bs)
    · simpa using h0
    rintro l x act y a ⟨hl, bs, hx⟩ ⟨hlegal, hsound⟩ hs
    obtain ⟨y', a', hs', hy, hright⟩ := step_spec hfirst hx hlegal hsound
    rw [hs] at hs'
    cases hs'
    simp only [List.forall_mem_append, List.forall_mem_singleton]
    exact ⟨⟨hl, ⟨bs, hx⟩, hright⟩, hy⟩
  obtain ⟨hes, bs, hbs⟩ := hall
  refine ⟨hes, ⟨bs, hbs⟩, fun act hlegal hsound => ?_⟩
  obtain ⟨y, a, hs, -⟩ := step_spec hfirst hbs hlegal hsound
  rw [hs]
  rfl

end

/-- A pool with a free block of 28 bytes, and a used one in it. -/
def emptyPool : Memory
  | 8 => 29
  | 36 => 4
  | 40 => 2
  | _ => 0

def usedPool : Memory
  | 8 => 12
  | 24 => 13
  | 36 => 20
  | 40 => 2
  | _ => 0

def firstBlock (n : Nat) : Answer := if n = 0 ∨ 12 < n then ⟨0, emptyPool⟩ else ⟨12, usedPool⟩

theorem emptyPool_chain : Chain emptyPool none 4 [⟨28, true⟩] := by
  refine ⟨by decide, ⟨rfl, fun p hp => ?_⟩, by decide, ⟨rfl, fun p hp => ?_⟩⟩
  · cases hp
  · cases hp
    rfl

theorem usedPool_chain : Chain usedPool none 4 [⟨12, false⟩, ⟨12, true⟩] := by
  refine ⟨by decide, ⟨rfl, fun p hp => ?_⟩, by decide, ⟨rfl, fun p hp => ?_⟩, by decide,
    ⟨rfl, fun p hp => ?_⟩⟩
  · cases hp
  · cases hp
  · cases hp
    rfl

theorem emptyPool_matches : Matches 4 ⟨emptyPool, fun _ => none⟩ [⟨28, true⟩] :=
  .of_used emptyPool_chain (fun _ _ hp => absurd hp List.not_mem_nil) fun _ _ hr => by cases hr

theorem firstBlock_promised (n : Nat) : Promised 4 emptyPool 0 n (firstBlock n) := by
  rw [firstBlock]
  split
  · exact ⟨fun _ => rfl, fun hne => absurd rfl hne⟩
  · refine ⟨fun hptr => absurd hptr (by decide), fun _ bs hbs => ?_⟩
    obtain rfl := hbs.unique emptyPool_chain
    refine ⟨_, 12, usedPool_chain, by omega, ?_, ?_, ?_⟩ <;> simp [used]

theorem firstBlock_legal {size : Nat} (h : size < 4294967296) :
    Legal 4 ⟨emptyPool, fun _ => none⟩ (100, .malloc firstBlock size) :=
  ⟨h, rfl, fun n _ => firstBlock_promised n⟩

theorem owns_first : ∃ s' a, step 4 ⟨emptyPool, fun _ => none⟩ (100, .malloc firstBlock 8) =
    some (s', a) ∧ a.ptr = 12 ∧ a.mem 20 = 100 ∧ ∃ bs, Matches 4 s' bs := by
  have hsound : Sound 4 ⟨emptyPool, fun _ => none⟩ (100, .malloc firstBlock 8) :=
    (by decide : 8 + 4 ≤ 4294967296)
  refine ⟨_, _, rfl, rfl, by decide, ?_⟩
  exact (ownership (by decide) (.single ⟨firstBlock_legal (by decide), hsound⟩ rfl)
    ⟨_, emptyPool_matches⟩).2.1

/-- With the four bytes more, 4294967293 bytes are 1. -/
theorem wraps : ∃ s' a, Legal 4 ⟨emptyPool, fun _ => none⟩ (100, .malloc firstBlock 4294967293) ∧
    (∃ bs, Matches 4 ⟨emptyPool, fun _ => none⟩ bs) ∧
    step 4 ⟨emptyPool, fun _ => none⟩ (100, .malloc firstBlock 4294967293) = some (s', a) ∧
    a.ptr = 12 ∧ tlsfBlockSize a.mem 12 = 12 ∧ ¬ ∃ bs, Matches 4 s' bs := by
  have hptr : (malloc firstBlock 100 4294967293).ptr = 12 := by decide
  refine ⟨_, _, firstBlock_legal (by decide), ⟨_, emptyPool_matches⟩, rfl, hptr, by decide, ?_⟩
  rintro ⟨bs, hbs⟩
  have henough := hbs.enough 12 ⟨100, 4294967293⟩ (by simp [State.moved, hptr])
  exact absurd henough (by decide)

end Malloc
end Freemyipod
