import Basedos.Kernel.Memory
import Basedos.Lib.Run

/-!
# Runs of the allocator

Callers of `kmalloc` and `kfree` rely on blocks being ranges of the heap that
overlap no other block in use. This module says when that is so, over any run of
calls: a caller may ask for any 32-bit size and free any pointer it was given, in
any order and as often as it likes.

## What is proved

* `kmalloc_safe_iff` — after any run whose sizes did not make the sum in `kmalloc`'s
  test wrap round, the next block is inside the heap, aligned and apart from every
  block in use if and only if its size does not make that sum wrap either.
* `not_forall_kmalloc_safe` — without that condition it is not so: with four bytes
  taken, `kmalloc(0xFFFFFFFF)` succeeds.

The invariant (`AllocState.Inv`) is that every block in use ends at or below the
heap's position, and every pointer given out is a multiple of 4, so that `kfree`
never moves the position (`kfree_eq`).
-/

namespace Basedos.Kernel

open Basedos.Lib

/-- A block `kmalloc` returned: where it starts, and the size asked for. -/
structure Block where
  /-- The pointer returned. -/
  start : UInt32
  /-- The size asked for. -/
  size : UInt32
  deriving DecidableEq

/-- The block lies wholly inside `heap[0..HEAP_SIZE)`. -/
def Block.Inside (b : Block) : Prop := b.start.toNat + b.size.toNat ≤ 0x10000

/-- The blocks have no byte in common. -/
def Block.ApartFrom (b c : Block) : Prop := Apart b.start b.size.toNat c.start c.size.toNat

/-- The heap, with what its callers know of it. -/
structure AllocState where
  /-- The heap. -/
  heap : Heap
  /-- Every pointer `kmalloc` has returned. -/
  returned : List Ptr
  /-- The blocks returned and not yet freed. -/
  live : List Block

/-- Nothing allocated yet. -/
def AllocState.initial : AllocState := ⟨Heap.initial, [], []⟩

/-- A call. -/
inductive AllocOp where
  /-- `kmalloc(size)`. -/
  | kmalloc (size : UInt32)
  /-- `kfree(ptr)`. -/
  | kfree (ptr : Ptr)

/-- One call: the pointer it returns, and the state after it. -/
def allocStep (s : AllocState) : AllocOp → Ptr × AllocState
  | .kmalloc size =>
    let r := kmalloc s.heap size
    (r.1, ⟨r.2, r.1 :: s.returned, (r.1.map fun p => ⟨p, size⟩).toList ++ s.live⟩)
  | .kfree ptr => (none, { s with heap := kfree s.heap ptr, live := s.live.filter fun b => some b.start ≠ ptr })

/-- What a caller of `kfree` promises: it was given the pointer. -/
def Given (s : AllocState) : AllocOp → Prop
  | .kmalloc _ => True
  | .kfree ptr => ptr ∈ s.returned

/-- The sum in `kmalloc`'s test does not wrap round. -/
def NoWrap (s : AllocState) : AllocOp → Prop
  | .kmalloc size => s.heap.heapPos.toNat + size.toNat < 2 ^ 32
  | .kfree _ => True

/-- What a caller of `kmalloc` relies on: what it is given, if anything, is an aligned
range inside the heap, apart from every block in use. -/
def KmallocSafe (s : AllocState) (size : UInt32) : Prop :=
  ∀ p, (kmalloc s.heap size).1 = some p →
    (Block.mk p size).Inside ∧ p.toNat % 4 = 0 ∧ ∀ b ∈ s.live, (Block.mk p size).ApartFrom b

/-- Everything in use lies below the position. -/
structure AllocState.Inv (s : AllocState) : Prop where
  ok : s.heap.Ok
  below : ∀ b ∈ s.live, b.start.toNat + b.size.toNat ≤ s.heap.heapPos.toNat
  aligned : ∀ p, some p ∈ s.returned → p.toNat % 4 = 0

theorem AllocState.initial_inv : AllocState.initial.Inv :=
  ⟨Heap.initial_ok, by simp [initial], by simp [initial]⟩

/-- A call keeps the invariant, when its size does not make the sum wrap. -/
theorem AllocState.Inv.step {s : AllocState} (h : s.Inv) {op : AllocOp} (hg : Given s op)
    (hw : NoWrap s op) : (allocStep s op).2.Inv := by
  cases op with
  | kmalloc size =>
    have hok := kmalloc_ok h.ok size
    simp only [NoWrap] at hw
    rcases kmalloc_cases s.heap size with ⟨-, heq⟩ | ⟨hle, heq⟩
    · rw [heq] at hok
      simp only [allocStep, heq]
      exact ⟨hok, by simpa using h.below, by simpa using h.aligned⟩
    · rw [heq] at hok
      simp only [allocStep, heq]
      rw [Nat.mod_eq_of_lt hw] at hle
      have hpos := toNat_heapPos_add h.ok hle
      refine ⟨hok, fun b hb => ?_, fun p hp => ?_⟩
      · simp only [Option.map_some, Option.toList_some, List.cons_append, List.nil_append,
          List.mem_cons] at hb
        rcases hb with rfl | hb
        · simp only [hpos]; omega
        · have := h.below b hb
          simp only [hpos]; omega
      · simp only [List.mem_cons, Option.some.injEq] at hp
        rcases hp with rfl | hp
        · exact h.ok.aligned
        · exact h.aligned p hp
  | kfree ptr =>
    have hfree : kfree s.heap ptr = s.heap := by
      refine kfree_eq h.ok fun p hp => h.aligned p ?_
      subst hp
      exact hg
    simp only [allocStep, hfree]
    exact ⟨h.ok, fun b hb => h.below b (List.mem_filter.mp hb).1, h.aligned⟩

/-- The invariant holds after every run whose calls meet the conditions. -/
theorem AllocState.inv_run {ops : List AllocOp}
    (h : Along allocStep (fun s op => Given s op ∧ NoWrap s op) initial ops) :
    (run allocStep initial ops).2.Inv :=
  run_inv (fun _ _ hs hP => hs.step hP.1 hP.2) initial_inv h

/-- A block asked for from a state of the invariant, when the sum does not wrap. -/
theorem AllocState.Inv.kmallocSafe {s : AllocState} (h : s.Inv) {size : UInt32}
    (hw : s.heap.heapPos.toNat + size.toNat < 2 ^ 32) : KmallocSafe s size := by
  intro p hp
  rcases kmalloc_cases s.heap size with ⟨-, heq⟩ | ⟨hle, heq⟩
  · rw [heq] at hp; simp at hp
  · rw [heq] at hp
    simp only [Option.some.injEq] at hp
    subst hp
    rw [Nat.mod_eq_of_lt hw] at hle
    exact ⟨hle, h.ok.aligned, fun b hb => .inr (h.below b hb)⟩

/-- A size that makes the sum wrap is granted, and its block runs past the heap's end. -/
theorem AllocState.Inv.not_kmallocSafe {s : AllocState} (h : s.Inv) {size : UInt32}
    (hw : 2 ^ 32 ≤ s.heap.heapPos.toNat + size.toNat) : ¬ KmallocSafe s size := by
  intro hsafe
  have hb := h.ok.bounded
  have hs := size.toNat_lt
  rcases kmalloc_cases s.heap size with ⟨hlt, -⟩ | ⟨-, heq⟩
  · omega
  · have hin := (hsafe s.heap.heapPos (by rw [heq])).1
    simp only [Block.Inside] at hin
    omega

/-- **Allocator safety over whole runs.** After any run of calls that freed only
pointers they were given and asked for no size that makes the sum in `kmalloc`'s test
wrap round, the block `kmalloc(size)` returns, if any, is an aligned range inside the
heap and apart from every block in use if and only if `size` does not make the sum
wrap round. -/
theorem kmalloc_safe_iff (ops : List AllocOp)
    (h : Along allocStep (fun s op => Given s op ∧ NoWrap s op) AllocState.initial ops) (size : UInt32) :
    KmallocSafe (run allocStep AllocState.initial ops).2 size ↔
      (run allocStep AllocState.initial ops).2.heap.heapPos.toNat + size.toNat < 2 ^ 32 := by
  have hinv := AllocState.inv_run h
  refine ⟨fun hsafe => ?_, hinv.kmallocSafe⟩
  by_contra hw
  exact hinv.not_kmallocSafe (Nat.le_of_not_lt hw) hsafe

/-- Two blocks taken, one given back, and a third asked for. -/
theorem kmalloc_safe_iff_run :
    KmallocSafe (run allocStep AllocState.initial [.kmalloc 312, .kmalloc 5, .kfree (some 312)]).2 4096 ↔
      (run allocStep AllocState.initial [.kmalloc 312, .kmalloc 5, .kfree (some 312)]).2.heap.heapPos.toNat
        + (4096 : UInt32).toNat < 2 ^ 32 :=
  kmalloc_safe_iff _ (by
    refine ⟨⟨trivial, ?_⟩, ⟨trivial, ?_⟩, ⟨?_, trivial⟩, trivial⟩
    · simp only [NoWrap]; decide
    · simp only [NoWrap]; decide
    · simp only [Given]; decide) 4096

/-- It is not so for every size: with 4 bytes taken, `kmalloc(0xFFFFFFFF)` returns a
block that runs past the heap's end. -/
theorem not_forall_kmalloc_safe :
    ¬ ∀ (ops : List AllocOp), Along allocStep Given AllocState.initial ops →
      ∀ size : UInt32, KmallocSafe (run allocStep AllocState.initial ops).2 size := by
  intro h
  have hsafe := h [.kmalloc 4] ⟨trivial, trivial⟩ 0xFFFFFFFF 4 (by decide)
  exact absurd hsafe.1 (by unfold Block.Inside; decide)

end Basedos.Kernel
