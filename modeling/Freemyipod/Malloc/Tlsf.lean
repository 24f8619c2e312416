import Mathlib.Logic.Function.Basic
import Mathlib.Data.List.Basic

/-!
# Malloc.Tlsf

The blocks of a TLSF pool (`emcore/libc/tlsf/tlsf.c`), which lie in memory one behind the other.

* `tlsfFree`, `tlsfBlockSize`, `tlsfWalkHeap`: the functions that do not have to find a free block. The
  lists of the free blocks, which they do not read, are left out.
* `Chain mem prev a blocks`: the headers from `a` on are those of these blocks.
* `used`, `heads`: where the contents of the used blocks are, and where the headers.
* `blockMarkAsFree_spec`, `blockAbsorb_spec`: what the functions on headers do to the blocks.
* `tlsfFree_spec`: a block is free then, with its free neighbours.
-/

namespace Freemyipod
namespace Malloc

/-- Words by their addresses, which are multiples of 4. -/
abbrev Memory := Nat → Nat

variable (mem : Memory) (block prev ptr : Nat)

/-! ## Headers -/

/-- `block->size & ~3` -/
def blockSize : Nat := mem (block + 4) / 4 * 4

/-- `block->size & 1` -/
def blockIsFree : Bool := mem (block + 4) % 2 = 1

/-- `block->size & 2` -/
def blockIsPrevFree : Bool := mem (block + 4) / 2 % 2 = 1

/-- `block->size |= 1` -/
def blockSetFree : Memory := Function.update mem (block + 4) (mem (block + 4) / 2 * 2 + 1)

/-- `block->size |= 2` -/
def blockSetPrevFree : Memory :=
  Function.update mem (block + 4) (mem (block + 4) / 4 * 4 + 2 + mem (block + 4) % 2)

/-- The block begins 8 bytes behind its header, and the next header 4 bytes before the end of it. -/
def blockNext : Nat := block + 8 + blockSize mem block - 4

/-- `block_link_next`; `prev_phys_block` is the first word of a header. -/
def blockLinkNext : Memory := Function.update mem (blockNext mem block) block

def blockMarkAsFree : Memory :=
  blockSetFree (blockSetPrevFree (blockLinkNext mem block) (blockNext mem block)) block

def blockAbsorb : Memory :=
  blockLinkNext (Function.update mem (prev + 4) (mem (prev + 4) + (blockSize mem block + 4))) prev

def blockMergePrev : Memory × Nat :=
  if blockIsPrevFree mem block then (blockAbsorb mem block (mem block), mem block)
  else (mem, block)

def blockMergeNext : Memory :=
  if blockIsFree mem (blockNext mem block) then blockAbsorb mem (blockNext mem block) block
  else mem

/-! ## The functions of the allocator -/

/-- `tlsf_free` -/
def tlsfFree : Memory :=
  if ptr = 0 then mem
  else
    let (mem, block) := blockMergePrev (blockMarkAsFree mem (ptr - 8)) (ptr - 8)
    blockMergeNext mem block

/-- `tlsf_block_size` -/
def tlsfBlockSize : Nat := if ptr = 0 then 0 else blockSize mem (ptr - 8)

/-- The loop of `tlsf_walk_heap`. The walker may change the memory. -/
@[grind =] def tlsfWalkHeap (walker : Memory → Nat → Nat → Memory) : Nat → Memory → Nat → Option Memory
  | 0, _, _ => none
  | fuel + 1, mem, block =>
    if block = 0 ∨ blockSize mem block = 0 then some mem
    else
      let mem := walker mem (block + 8) (blockSize mem block)
      tlsfWalkHeap walker fuel mem (blockNext mem block)

/-! ## Blocks -/

structure Block where
  size : Nat
  free : Bool

variable {mem block prev ptr} {mem' : Memory} {before : Option Nat} {a c n x : Nat} {free : Bool}
  {b : Block} {bs bs' : List Block}

/-- The address behind the blocks, where the next header is. -/
@[grind =] def stop : Nat → List Block → Nat
  | a, [] => a
  | a, b :: bs => stop (a + 4 + b.size) bs

/-- A free block is known to the next one. -/
@[grind =] def markOf (a : Nat) (b : Block) : Option Nat := if b.free then some a else none

/-- What the block behind these knows. -/
@[grind =] def mark : Option Nat → Nat → List Block → Option Nat
  | before, _, [] => before
  | _, a, b :: bs => mark (markOf a b) (a + 4 + b.size) bs

/-- The headers of the blocks. -/
@[grind =] def heads : Nat → List Block → List Nat
  | _, [] => []
  | a, b :: bs => a :: heads (a + 4 + b.size) bs

/-- The used blocks, with their sizes. -/
@[grind =] def used : Nat → List Block → List (Nat × Nat)
  | _, [] => []
  | a, b :: bs => if b.free then used (a + 4 + b.size) bs
    else (a + 8, b.size) :: used (a + 4 + b.size) bs

@[simp] theorem stop_append : stop a (bs ++ bs') = stop (stop a bs) bs' := by
  induction bs generalizing a with
  | nil => rfl
  | cons b bs ih => exact ih

@[simp] theorem mark_append :
    mark before a (bs ++ bs') = mark (mark before a bs) (stop a bs) bs' := by
  induction bs generalizing a before with
  | nil => rfl
  | cons b bs ih => exact ih

@[simp] theorem heads_append : heads a (bs ++ bs') = heads a bs ++ heads (stop a bs) bs' := by
  induction bs generalizing a with
  | nil => rfl
  | cons b bs ih => simp [heads, stop, ih]

@[simp] theorem used_append : used a (bs ++ bs') = used a bs ++ used (stop a bs) bs' := by
  induction bs generalizing a with
  | nil => rfl
  | cons b bs ih =>
    simp only [List.cons_append, used, stop, ih]
    split <;> rfl

/-- The header at `a`. Its first word is the last one of the block before it, and says where that block
is if it is free. -/
structure Tag (mem : Memory) (before : Option Nat) (a size : Nat) (free : Bool) : Prop where
  word : mem (a + 4) = size + free.toNat + 2 * before.isSome.toNat
  prev : ∀ p, before = some p → mem a = p

def Seg (mem : Memory) : Option Nat → Nat → List Block → Prop
  | _, _, [] => True
  | before, a, b :: bs => (12 ≤ b.size ∧ 4 ∣ b.size) ∧ Tag mem before a b.size b.free ∧
      Seg mem (markOf a b) (a + 4 + b.size) bs

/-- These blocks, and then the header with the size 0. -/
def Chain (mem : Memory) : Option Nat → Nat → List Block → Prop
  | before, a, [] => a + 8 ≤ 4294967296 ∧ Tag mem before a 0 false
  | before, a, b :: bs => (12 ≤ b.size ∧ 4 ∣ b.size) ∧ Tag mem before a b.size b.free ∧
      Chain mem (markOf a b) (a + 4 + b.size) bs

theorem chain_append : Chain mem before a (bs ++ bs') ↔
    Seg mem before a bs ∧ Chain mem (mark before a bs) (stop a bs) bs' := by
  induction bs generalizing a before with
  | nil => simp [Seg, mark, stop]
  | cons b bs ih => simp only [List.cons_append, Chain, Seg, mark, stop, ih, and_assoc]

theorem seg_append : Seg mem before a (bs ++ bs') ↔
    Seg mem before a bs ∧ Seg mem (mark before a bs) (stop a bs) bs' := by
  induction bs generalizing a before with
  | nil => simp [Seg, mark, stop]
  | cons b bs ih => simp only [List.cons_append, Seg, mark, stop, ih, and_assoc]

namespace Tag

theorem size_eq (h : Tag mem before a n free) (hn : 4 ∣ n) : blockSize mem a = n := by
  have hword := h.word
  rw [blockSize]
  cases free <;> cases before <;> simp at hword <;> omega

theorem free_eq (h : Tag mem before a n free) (hn : 4 ∣ n) : blockIsFree mem a = free := by
  have hword := h.word
  rw [blockIsFree]
  cases free <;> cases before <;> simp at hword ⊢ <;> omega

theorem prevFree_eq (h : Tag mem before a n free) (hn : 4 ∣ n) :
    blockIsPrevFree mem a = before.isSome := by
  have hword := h.word
  rw [blockIsPrevFree]
  cases free <;> cases before <;> simp at hword ⊢ <;> omega

theorem next_eq (h : Tag mem before a n free) (hn : 4 ∣ n) : blockNext mem a = a + 4 + n := by
  rw [blockNext, h.size_eq hn]
  omega

theorem congr (h : Tag mem before a n free) (hfirst : mem' a = mem a)
    (hword : mem' (a + 4) = mem (a + 4)) : Tag mem' before a n free :=
  ⟨hword.trans h.word, fun p hp => hfirst.trans (h.prev p hp)⟩

end Tag

theorem stop_ge : a ≤ stop a bs := by
  induction bs generalizing a with
  | nil => exact Nat.le_refl a
  | cons b bs ih =>
    have hle := @ih (a + 4 + b.size)
    simp only [stop]
    omega

theorem Seg.congr (h : Seg mem before a bs) (hmem : ∀ x, a ≤ x → x < stop a bs → mem' x = mem x) :
    Seg mem' before a bs := by
  induction bs generalizing a before with
  | nil => trivial
  | cons b bs ih =>
    obtain ⟨hsize, htag, htail⟩ := h
    have hge : a + 4 + b.size ≤ stop a (b :: bs) := stop_ge
    refine ⟨hsize, htag.congr (hmem a (Nat.le_refl a) ?_) (hmem (a + 4) ?_ ?_), ih htail ?_⟩
    · omega
    · omega
    · omega
    · intro x hx hlt
      exact hmem x (by omega) hlt

theorem Chain.congr (h : Chain mem before a bs) (hmem : ∀ x, a ≤ x → mem' x = mem x) :
    Chain mem' before a bs := by
  induction bs generalizing a before with
  | nil =>
    obtain ⟨hend, htag⟩ := h
    exact ⟨hend, htag.congr (hmem a (Nat.le_refl a)) (hmem (a + 4) (by omega))⟩
  | cons b bs ih =>
    obtain ⟨hsize, htag, htail⟩ := h
    refine ⟨hsize, htag.congr (hmem a (Nat.le_refl a)) (hmem (a + 4) (by omega)), ih htail ?_⟩
    intro x hx
    exact hmem x (by omega)

/-- Another first header, and the same blocks behind it. -/
theorem Chain.retag {before' : Option Nat} (h : Chain mem before a bs)
    (hmem : ∀ x, a + 8 ≤ x → mem' x = mem x)
    (htag : ∀ n f, 4 ∣ n → Tag mem before a n f → Tag mem' before' a n f) :
    Chain mem' before' a bs := by
  cases bs with
  | nil =>
    obtain ⟨hend, htag'⟩ := h
    exact ⟨hend, htag 0 false (Nat.dvd_zero 4) htag'⟩
  | cons b bs =>
    obtain ⟨hsize, htag', htail⟩ := h
    refine ⟨hsize, htag b.size b.free hsize.2 htag', htail.congr fun x hx => hmem x ?_⟩
    omega

theorem Chain.stop_le (h : Chain mem before a bs) : stop a bs + 8 ≤ 4294967296 := by
  induction bs generalizing a before with
  | nil => exact h.1
  | cons b bs ih => exact ih h.2.2

/-- The contents of a used block are between the headers. -/
theorem used_range {p : Nat} (h : (p, n) ∈ used a bs) : a + 8 ≤ p ∧ p + n ≤ stop a bs + 4 := by
  induction bs generalizing a with
  | nil => cases h
  | cons b bs ih =>
    have hge : a + 4 + b.size ≤ stop a (b :: bs) := stop_ge
    simp only [used] at h
    split at h
    · have hrange := ih h
      simp only [stop]
      omega
    · rcases List.mem_cons.1 h with heq | h
      · cases heq
        omega
      · have hrange := ih h
        simp only [stop]
        omega

/-- A used block is one of the blocks. -/
theorem used_split {p : Nat} (h : (p, n) ∈ used a bs) :
    ∃ pre post, bs = pre ++ ⟨n, false⟩ :: post ∧ p = stop a pre + 8 := by
  induction bs generalizing a with
  | nil => cases h
  | cons b bs ih =>
    have hbehind : (p, n) ∈ used (a + 4 + b.size) bs →
        ∃ pre post, b :: bs = pre ++ ⟨n, false⟩ :: post ∧ p = stop a pre + 8 := by
      intro hmem
      obtain ⟨pre, post, rfl, rfl⟩ := ih hmem
      exact ⟨b :: pre, post, rfl, rfl⟩
    simp only [used] at h
    split at h
    · exact hbehind h
    · rename_i hfree
      rcases List.mem_cons.1 h with heq | h
      · cases heq
        refine ⟨[], bs, ?_, rfl⟩
        cases b
        simp_all
      · exact hbehind h

/-- A block before that is free is the last one before. -/
theorem mark_eq_some {p : Nat} (h : mark none a bs = some p) :
    ∃ d b, bs = d ++ [b] ∧ b.free = true ∧ p = stop a d := by
  rcases List.eq_nil_or_concat bs with rfl | ⟨d, b, rfl⟩
  · cases h
  · rw [List.concat_eq_append, mark_append] at h
    simp only [mark, markOf] at h
    split at h
    · rename_i hfree
      cases h
      exact ⟨d, b, List.concat_eq_append, hfree, rfl⟩
    · cases h

/-! ## What the functions do to the blocks -/

theorem blockMarkAsFree_spec (h : Chain mem before a (⟨n, false⟩ :: bs)) :
    Chain (blockMarkAsFree mem a) before a (⟨n, true⟩ :: bs) ∧
      ∀ x, x < a + 4 ∨ a + 4 + n + 8 ≤ x → blockMarkAsFree mem a x = mem x := by
  obtain ⟨hsize, htag, htail⟩ := h
  dsimp only at hsize
  have hnext : blockNext mem a = a + 4 + n := htag.next_eq hsize.2
  have hself : a + 4 ≠ a + 4 + n := by omega
  have hself' : a + 4 ≠ a + 4 + n + 4 := by omega
  have hmem : ∀ x, blockMarkAsFree mem a x =
      if x = a + 4 then mem (a + 4) / 2 * 2 + 1
      else if x = a + 4 + n + 4 then mem (a + 4 + n + 4) / 4 * 4 + 2 + mem (a + 4 + n + 4) % 2
      else if x = a + 4 + n then a else mem x := by
    intro x
    have hapart : a + 4 + n + 4 ≠ a + 4 + n := by omega
    simp only [blockMarkAsFree, blockSetFree, blockSetPrevFree, blockLinkNext, hnext,
      Function.update_apply, hself, hself', hapart, if_false]
  refine ⟨⟨hsize, ⟨?_, fun p hp => ?_⟩, ?_⟩, fun x hx => ?_⟩
  · rw [hmem, if_pos rfl, htag.word]
    cases before <;> simp <;> omega
  · rw [hmem, if_neg (by omega), if_neg (by omega), if_neg (by omega)]
    exact htag.prev p hp
  · refine htail.retag (fun x hx => ?_) fun k f hk htag' => ⟨?_, fun p hp => ?_⟩
    · dsimp only at hx
      rw [hmem, if_neg (by omega), if_neg (by omega), if_neg (by omega)]
    · dsimp only at htag' ⊢
      rw [hmem, if_neg (by omega), if_pos rfl, htag'.word]
      cases f <;> simp [markOf] <;> omega
    · dsimp only
      rw [hmem, if_neg (by omega), if_neg (by omega), if_pos rfl]
      simpa [markOf] using hp
  · rw [hmem, if_neg (by omega), if_neg (by omega), if_neg (by omega)]

theorem blockAbsorb_spec {k : Nat} (h : Chain mem before a (⟨n, true⟩ :: ⟨k, true⟩ :: bs)) :
    Chain (blockAbsorb mem (a + 4 + n) a) before a (⟨n + 4 + k, true⟩ :: bs) ∧
      ∀ x, x ≠ a + 4 → x ≠ a + 4 + n + 4 + k → blockAbsorb mem (a + 4 + n) a x = mem x := by
  obtain ⟨hsize, htag, hsize', htag', htail⟩ := h
  dsimp only at hsize hsize' htag htag' htail
  have hlen : blockSize mem (a + 4 + n) = k := htag'.size_eq hsize'.2
  have hgrown : blockNext (Function.update mem (a + 4) (mem (a + 4) + (k + 4))) a =
      a + 4 + n + 4 + k := by
    rw [blockNext, blockSize, Function.update_self, htag.word]
    cases before <;> simp <;> omega
  have hmem : ∀ x, blockAbsorb mem (a + 4 + n) a x =
      if x = a + 4 + n + 4 + k then a
      else if x = a + 4 then mem (a + 4) + (k + 4) else mem x := by
    intro x
    simp only [blockAbsorb, blockLinkNext, hlen, hgrown, Function.update_apply]
  refine ⟨⟨⟨by dsimp only; omega, by dsimp only; omega⟩, ⟨?_, fun p hp => ?_⟩, ?_⟩,
    fun x hx hx' => ?_⟩
  · rw [hmem, if_neg (by omega), if_pos rfl, htag.word]
    dsimp only
    omega
  · rw [hmem, if_neg (by omega), if_neg (by omega)]
    exact htag.prev p hp
  · have hstop : a + 4 + (n + 4 + k) = a + 4 + n + 4 + k := by omega
    dsimp only
    rw [hstop]
    refine htail.retag (fun x hx => ?_) fun l f hl htag'' => ⟨?_, fun p hp => ?_⟩
    · rw [hmem, if_neg (by omega), if_neg (by omega)]
    · rw [hmem, if_neg (by omega), if_neg (by omega), htag''.word]
      simp [markOf]
    · rw [hmem, if_pos rfl]
      simpa [markOf] using hp
  · rw [hmem, if_neg hx', if_neg hx]

theorem blockMergeNext_spec (h : Chain mem before a (⟨n, true⟩ :: bs)) :
    (blockMergeNext mem a = mem ∧ ∀ b ∈ bs.head?, b.free = false) ∨
      ∃ k tail, bs = ⟨k, true⟩ :: tail ∧
        Chain (blockMergeNext mem a) before a (⟨n + 4 + k, true⟩ :: tail) ∧
        ∀ x, x ≠ a + 4 → x ≠ a + 4 + n + 4 + k → blockMergeNext mem a x = mem x := by
  obtain ⟨hsize, htag, htail⟩ := id h
  have hnext : blockNext mem a = a + 4 + n := htag.next_eq hsize.2
  cases bs with
  | nil =>
    have hfree := htail.2.free_eq (Nat.dvd_zero 4)
    dsimp only at hfree
    left
    rw [blockMergeNext, hnext, hfree]
    simp
  | cons b tail =>
    have hfree := htail.2.1.free_eq htail.1.2
    dsimp only at hfree
    obtain ⟨k, f⟩ := b
    cases f with
    | false =>
      left
      rw [blockMergeNext, hnext, hfree]
      simp
    | true =>
      right
      obtain ⟨hchain, hsame⟩ := blockAbsorb_spec h
      refine ⟨k, tail, rfl, ?_⟩
      rw [blockMergeNext, hnext, hfree]
      exact ⟨hchain, hsame⟩

/-- `block_merge_prev`, on the block behind those before it. -/
theorem blockMergePrev_spec {first : Nat}
    (h : Chain mem none first (bs ++ ⟨n, true⟩ :: bs')) (hc : stop first bs = c) :
    ∃ pre k, Chain (blockMergePrev mem c).1 none first (pre ++ ⟨k, true⟩ :: bs') ∧
      stop first pre = (blockMergePrev mem c).2 ∧ stop first pre + 4 + k = c + 4 + n ∧
      used first (pre ++ [⟨k, true⟩]) = used first bs ∧
      heads first (pre ++ [⟨k, true⟩]) ⊆ heads first (bs ++ [⟨n, true⟩]) ∧
      (((blockMergePrev mem c).1 = mem ∧ pre = bs) ∨
        (∃ d b, bs = d ++ [b] ∧ b.free = true ∧ pre = d) ∧
        ∀ x, x ≠ stop first pre + 4 → x ≠ c + 4 + n → (blockMergePrev mem c).1 x = mem x) := by
  subst hc
  obtain ⟨hseg, hsize, htag, htail⟩ := chain_append.1 h
  have hfree := htag.prevFree_eq hsize.2
  cases hmark : mark none first bs with
  | none =>
    have hmerge : blockMergePrev mem (stop first bs) = (mem, stop first bs) := by
      rw [blockMergePrev, hfree, hmark]
      simp
    refine ⟨bs, n, ?_, ?_, rfl, ?_, List.Subset.refl _, .inl ⟨?_, rfl⟩⟩
    · rw [hmerge]
      exact h
    · rw [hmerge]
    · simp [used]
    · rw [hmerge]
  | some p =>
    obtain ⟨d, b, rfl, hb, rfl⟩ := mark_eq_some hmark
    have hp : mem (stop first (d ++ [b])) = stop first d := htag.prev _ hmark
    have hmerge : blockMergePrev mem (stop first (d ++ [b])) =
        (blockAbsorb mem (stop first (d ++ [b])) (stop first d), stop first d) := by
      rw [blockMergePrev, hfree, hmark, hp]
      simp
    have hstop : stop first (d ++ [b]) = stop first d + 4 + b.size := by simp [stop]
    rw [List.append_assoc, List.singleton_append] at h
    obtain ⟨hd, hchain⟩ := chain_append.1 h
    obtain ⟨k, f⟩ := b
    dsimp only at hb hstop
    subst hb
    obtain ⟨habsorb, hsame⟩ := blockAbsorb_spec hchain
    rw [← hstop] at habsorb hsame
    refine ⟨d, k + 4 + n, ?_, ?_, ?_, ?_, ?_, .inr ⟨⟨d, _, rfl, rfl, rfl⟩, ?_⟩⟩
    · rw [hmerge]
      refine chain_append.2 ⟨hd.congr fun x _ hlt => hsame x ?_ ?_, habsorb⟩
      · omega
      · omega
    · rw [hmerge]
    · omega
    · simp [used]
    · simp only [heads_append, heads, stop_append, stop]
      intro x hx
      simp only [List.mem_append, List.mem_singleton] at hx ⊢
      exact .inl hx
    · rw [hmerge]
      intro x hx hx'
      exact hsame x hx (by omega)

/-- What is left behind a block that has become free: it is in the last one of the blocks `done'`, and so
is the block behind it if that was free. -/
structure Freed (mem mem' : Memory) (first : Nat) (done : List Block) (n : Nat)
    (post done' tail : List Block) : Prop where
  chain : Chain mem' none first (done' ++ tail)
  used_eq : used first done' = used first done
  heads_sub : heads first done' ⊆ heads first (done ++ [⟨n, true⟩])
  marked : (mark none first done').isSome
  behind : post = tail ∧ stop first done' = stop first done + 4 + n ∨
    ∃ k, post = ⟨k, true⟩ :: tail ∧ stop first done' = stop first done + 4 + n + 4 + k
  same_before : ∀ p k, (p, k) ∈ used first done → ∀ x, p ≤ x → x < p + k → mem' x = mem x
  same_behind : ∀ x, stop first done' + 8 ≤ x → mem' x = mem x
  /-- Where `block_next` leads from the header of the block, which may be in a free block by now. -/
  next : blockNext mem' (stop first done) = stop first done' ∨
    ∃ k, 0 < k ∧ post = ⟨k, true⟩ :: tail ∧ stop first done' = stop first done + 4 + n + 4 + k ∧
      blockNext mem' (stop first done) = stop first done + 4 + n ∧
      blockSize mem' (stop first done + 4 + n) = k

theorem tlsfFree_spec {first : Nat} {done post : List Block}
    (h : Chain mem none first (done ++ ⟨n, false⟩ :: post)) :
    ∃ done' tail, Freed mem (tlsfFree mem (stop first done + 8)) first done n post done' tail := by
  obtain ⟨hseg, hchain⟩ := chain_append.1 h
  obtain ⟨hfreed, hsame⟩ := blockMarkAsFree_spec hchain
  have hmarked : Chain (blockMarkAsFree mem (stop first done)) none first
      (done ++ ⟨n, true⟩ :: post) :=
    chain_append.2 ⟨hseg.congr fun x _ hlt => hsame x (by omega), hfreed⟩
  obtain ⟨pre, k, hmerged, hpre, hend, hused, hheads, hcases⟩ := blockMergePrev_spec hmarked rfl
  obtain ⟨m, hm⟩ : ∃ m, (blockMergePrev (blockMarkAsFree mem (stop first done))
      (stop first done)).1 = m := ⟨_, rfl⟩
  rw [hm] at hmerged hcases
  have hfree : tlsfFree mem (stop first done + 8) = blockMergeNext m (stop first pre) := by
    rw [tlsfFree, if_neg (by omega), Nat.add_sub_cancel, hpre, ← hm]
  -- what the first two functions leave as it is
  have hbefore : ∀ p l, (p, l) ∈ used first done → ∀ x, p ≤ x → x < p + l →
      x < stop first pre + 4 ∧ m x = mem x := by
    intro p l hmem x hge hlt
    rcases hcases with ⟨rfl, rfl⟩ | ⟨⟨d, b, rfl, hb, rfl⟩, hsame'⟩
    · have hrange := used_range hmem
      exact ⟨by omega, hsame x (by omega)⟩
    · have hmem' : (p, l) ∈ used first pre := by simpa [used, hb] using hmem
      have hrange := used_range hmem'
      have hstop : stop first (pre ++ [b]) = stop first pre + 4 + b.size := by simp [stop]
      refine ⟨by omega, ?_⟩
      rw [hsame' x (by omega) (by omega), hsame x (by omega)]
  have hbehind : ∀ x, stop first done + 4 + n + 8 ≤ x → m x = mem x := by
    intro x hx
    rcases hcases with ⟨rfl, -⟩ | ⟨-, hsame'⟩
    · exact hsame x (by omega)
    · rw [hsame' x (by omega) (by omega), hsame x (by omega)]
  have hlen : 12 ≤ n := hfreed.1.1
  have hold : pre = done ∨ stop first pre + 4 < stop first done + 4 ∧
      m (stop first done + 4) = blockMarkAsFree mem (stop first done) (stop first done + 4) ∧
      ∀ x, stop first done + 4 + n < x → m x = blockMarkAsFree mem (stop first done) x := by
    rcases hcases with ⟨-, rfl⟩ | ⟨⟨d, b, rfl, hb, rfl⟩, hsame'⟩
    · exact .inl rfl
    · have hstop : stop first (pre ++ [b]) = stop first pre + 4 + b.size := by simp [stop]
      exact .inr ⟨by omega, hsame' _ (by omega) (by omega),
        fun x hx => hsame' x (by omega) (by omega)⟩
  have hsize : blockSize (blockMarkAsFree mem (stop first done)) (stop first done) = n :=
    hfreed.2.1.size_eq hfreed.1.2
  obtain ⟨hpseg, hpchain⟩ := chain_append.1 hmerged
  rcases blockMergeNext_spec hpchain with ⟨hnext, -⟩ | ⟨l, tail, rfl, hnext, hsame'⟩
  · refine ⟨pre ++ [⟨k, true⟩], post, ?_, hused, hheads, by simp [mark, markOf],
      .inl ⟨rfl, by simp [stop]; omega⟩, fun p l hmem x hge hlt => ?_, fun x hx => ?_, .inl ?_⟩
    · rw [hfree, hnext, List.append_assoc]
      exact hmerged
    · rw [hfree, hnext]
      exact (hbefore p l hmem x hge hlt).2
    · rw [hfree, hnext]
      simp only [stop_append, stop] at hx
      exact hbehind x (by omega)
    · rw [hfree, hnext]
      simp only [stop_append, stop]
      rcases hold with rfl | ⟨-, hword, -⟩
      · exact hpchain.2.1.next_eq hpchain.1.2
      · rw [blockNext, blockSize, hword, ← blockSize, hsize]
        omega
  · refine ⟨pre ++ [⟨k + 4 + l, true⟩], tail, ?_, ?_, ?_, by simp [mark, markOf],
      .inr ⟨l, rfl, by simp [stop]; omega⟩, fun p l' hmem x hge hlt => ?_, fun x hx => ?_, ?_⟩
    · rw [hfree, List.append_assoc]
      refine chain_append.2 ⟨hpseg.congr fun x _ hlt => hsame' x ?_ ?_, hnext⟩
      · omega
      · omega
    · rw [← hused]
      simp [used]
    · intro x hx
      apply hheads
      simpa [heads] using hx
    · obtain ⟨hlt', heq⟩ := hbefore p l' hmem x hge hlt
      rw [hfree, hsame' x (by omega) (by omega), heq]
    · simp only [stop_append, stop] at hx
      rw [hfree, hsame' x (by omega) (by omega)]
      exact hbehind x (by omega)
    · rw [hfree]
      simp only [stop_append, stop]
      have hl := hfreed.2.2.1
      dsimp only at hl
      rcases hold with rfl | ⟨hlt, hword, hwords⟩
      · exact .inl (hnext.2.1.next_eq hnext.1.2)
      · refine .inr ⟨l, by omega, rfl, by omega, ?_, ?_⟩
        · rw [blockNext, blockSize, hsame' _ (by omega) (by omega), hword, ← blockSize, hsize]
          omega
        · rw [blockSize, hsame' _ (by omega) (by omega), hwords _ (by omega), ← blockSize]
          exact hfreed.2.2.2.1.size_eq hl.2

end Malloc
end Freemyipod
