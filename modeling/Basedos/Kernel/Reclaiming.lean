import Basedos.Kernel.Memory
import Basedos.Lib.Run

/-!
# What `kfree` gives back

`kfree` is to reset the position of the heap when the block freed is the one at its end. A caller that frees
its blocks in the reverse order of their allocation would then have the whole heap back.

## The model

The calls keep a stack of the blocks allocated and not yet freed, with the most recent one first; a `kfree` is
for that one (`nestStep`). A call of `kmalloc` that returns `NULL` allocates no block.

## What is proved

`heapPos_nested` — `kfree` never moves the position, since it compares the pointer with the byte before it: each
block moves it on by its rounded size. So `reclaims_iff` — **a nested sequence gives the heap back** just when the
rounded sizes of the blocks it was granted add up to `0`, which for sizes that the heap could hold means that
all of them are `0` (`sum_granted_eq_zero`).
-/

namespace Basedos.Kernel

open Basedos.Lib

/-! ### Nested sequences -/

/-- A call. -/
inductive NestOp where
  /-- `kmalloc(size)`. -/
  | kmalloc (size : UInt32)
  /-- `kfree` of the most recent block not yet freed. -/
  | kfree
  deriving DecidableEq

/-- The heap, and the blocks not yet freed, the most recent first. -/
structure NestState where
  heap : Heap
  live : List UInt32

/-- One call. -/
def nestStep (s : NestState) : NestOp → Ptr × NestState
  | .kmalloc size =>
    let r := kmalloc s.heap size
    (r.1, ⟨r.2, r.1.toList ++ s.live⟩)
  | .kfree =>
    match s.live with
    | [] => (none, s)
    | p :: live => (none, ⟨kfree s.heap (some p), live⟩)

/-- The heap after some calls. -/
def afterCalls (h : Heap) (ops : List NestOp) : NestState := (run nestStep ⟨h, []⟩ ops).2

/-- **The sequence is nested**: there is a block for each `kfree`, and in the end none is left. -/
structure Nested (h : Heap) (ops : List NestOp) : Prop where
  frees : Along nestStep (fun s op => op = .kfree → s.live ≠ []) ⟨h, []⟩ ops
  freed : (afterCalls h ops).live = []

/-- The heap as calls of `kmalloc` leave it. -/
def allocated (sizes : List UInt32) : Heap := sizes.foldl (fun h size => (kmalloc h size).2) Heap.initial

/-- **The heap is given back**: the position is what it was, and what could be allocated can be allocated again. -/
structure Reclaims (h h' : Heap) : Prop where
  position : h'.heapPos = h.heapPos
  again : ∀ size, (kmalloc h size).1 ≠ none → (kmalloc h' size).1 ≠ none

/-- The sizes that are granted from a position on, by the test of `kmalloc`. -/
def granted : UInt32 → List NestOp → List UInt32
  | _, [] => []
  | pos, .kfree :: ops => granted pos ops
  | pos, .kmalloc size :: ops =>
    if pos + size > HEAP_SIZE then granted pos ops else size :: granted (pos + align4 size) ops

/-! ### The position -/

theorem allocated_ok (sizes : List UInt32) : (allocated sizes).Ok := by
  have hfold : ∀ h : Heap, h.Ok → (sizes.foldl (fun h size => (kmalloc h size).2) h).Ok := by
    induction sizes with
    | nil => exact fun h hok => hok
    | cons size sizes ih => exact fun h hok => ih _ (kmalloc_ok hok size)
  exact hfold _ Heap.initial_ok

/-- **The position only moves on**, by the rounded size of each block granted. -/
theorem heapPos_nested {h : Heap} (hok : h.Ok) {live : List UInt32} (hlive : ∀ p ∈ live, p.toNat % 4 = 0)
    (ops : List NestOp) :
    (run nestStep ⟨h, live⟩ ops).2.heap.heapPos = h.heapPos + ((granted h.heapPos ops).map align4).sum := by
  induction ops generalizing h live with
  | nil => exact (UInt32.add_zero _).symm
  | cons op ops ih =>
    cases op with
    | kmalloc size =>
      have hok' := kmalloc_ok hok size
      by_cases htest : h.heapPos + size > HEAP_SIZE
      · have heq : kmalloc h size = (none, { h with failures := h.failures + 1 }) := if_pos htest
        rw [heq] at hok'
        simp only [run_cons, nestStep, heq, granted, if_pos htest, Option.toList_none, List.nil_append]
        exact ih hok' hlive
      · have heq : kmalloc h size = (some h.heapPos, { h with heapPos := h.heapPos + align4 size }) := if_neg htest
        rw [heq] at hok'
        simp only [run_cons, nestStep, heq, granted, if_neg htest, Option.toList_some, List.singleton_append,
          List.map_cons, List.sum_cons, ← add_assoc]
        exact ih hok' (List.forall_mem_cons.mpr ⟨hok.aligned, hlive⟩)
    | kfree =>
      cases live with
      | nil =>
        simp only [run_cons, nestStep, granted]
        exact ih hok hlive
      | cons p live =>
        have hfree : kfree h (some p) = h := by
          refine kfree_eq hok fun q hq => ?_
          cases hq
          exact hlive p List.mem_cons_self
        simp only [run_cons, nestStep, granted, hfree]
        exact ih hok (List.forall_mem_cons.mp hlive).2

/-- The same position, the same answers. -/
theorem kmalloc_congr {h h' : Heap} (heq : h'.heapPos = h.heapPos) (size : UInt32) :
    (kmalloc h' size).1 = (kmalloc h size).1 := by
  unfold kmalloc
  rw [heq]
  split <;> rfl

/-- **When a nested sequence gives the heap back**: from every position that calls of `kmalloc` lead to, just when
the rounded sizes of the blocks granted add up to `0`. -/
theorem reclaims_iff (sizes : List UInt32) {ops : List NestOp} (_hn : Nested (allocated sizes) ops) :
    Reclaims (allocated sizes) (afterCalls (allocated sizes) ops).heap ↔
      ((granted (allocated sizes).heapPos ops).map align4).sum = 0 := by
  have hpos : (afterCalls (allocated sizes) ops).heap.heapPos = _ :=
    heapPos_nested (allocated_ok sizes) (List.forall_mem_nil _) ops
  constructor
  · intro h
    rw [h.position] at hpos
    exact left_eq_add.mp hpos
  · intro hzero
    rw [hzero, UInt32.add_zero] at hpos
    exact ⟨hpos, fun size hsize => by rwa [kmalloc_congr hpos]⟩

/-- With sizes that the heap could hold the sum does not wrap round, for the position stays in the heap. -/
theorem toNat_sum_granted {h : Heap} (hok : h.Ok) (ops : List NestOp)
    (hsmall : ∀ size, .kmalloc size ∈ ops → size.toNat ≤ 0x10000) :
    (((granted h.heapPos ops).map align4).sum).toNat =
      ((granted h.heapPos ops).map fun size => (size.toNat + 3) / 4 * 4).sum ∧
    h.heapPos.toNat + ((granted h.heapPos ops).map fun size => (size.toNat + 3) / 4 * 4).sum ≤ 0x10000 := by
  induction ops generalizing h with
  | nil => exact ⟨rfl, hok.bounded⟩
  | cons op ops ih =>
    have hrest : ∀ size, .kmalloc size ∈ ops → size.toNat ≤ 0x10000 := fun size hsize =>
      hsmall size (List.mem_cons_of_mem op hsize)
    cases op with
    | kfree => exact ih hok hrest
    | kmalloc size =>
      have hsize := hsmall size List.mem_cons_self
      by_cases htest : h.heapPos + size > HEAP_SIZE
      · simp only [granted, if_pos htest]
        exact ih hok hrest
      · have hb := hok.bounded
        have hfit := htest
        rw [kmalloc_test] at hfit
        have hok' := kmalloc_ok hok size
        rw [kmalloc, if_neg htest] at hok'
        have hnext : (h.heapPos + align4 size).toNat = h.heapPos.toNat + (size.toNat + 3) / 4 * 4 :=
          toNat_heapPos_add hok (by omega)
        obtain ⟨heq, hle⟩ := ih hok' hrest
        simp only [granted, if_neg htest, List.map_cons, List.sum_cons]
        dsimp only at heq hle
        rw [UInt32.toNat_add, heq, toNat_align4]
        constructor <;> omega

/-- Sizes that the heap could hold add up to `0` only if all of them are. -/
theorem sum_granted_eq_zero {h : Heap} (hok : h.Ok) {ops : List NestOp}
    (hsmall : ∀ size, .kmalloc size ∈ ops → size.toNat ≤ 0x10000) :
    ((granted h.heapPos ops).map align4).sum = 0 ↔ ∀ size ∈ granted h.heapPos ops, size = 0 := by
  rw [← UInt32.toNat_inj, (toNat_sum_granted hok ops hsmall).1, UInt32.toNat_zero, List.sum_eq_zero_iff_forall_eq_nat]
  simp only [List.mem_map, forall_exists_index, and_imp, forall_apply_eq_imp_iff₂]
  refine forall₂_congr fun size _ => ?_
  rw [← UInt32.toNat_inj, UInt32.toNat_zero]
  omega

/-- Two blocks of no bytes, one inside the other. -/
theorem reclaims_empty :
    Reclaims (allocated [6]) (afterCalls (allocated [6]) [.kmalloc 0, .kmalloc 0, .kfree, .kfree]).heap ↔
      ((granted (allocated [6]).heapPos [.kmalloc 0, .kmalloc 0, .kfree, .kfree]).map align4).sum = 0 :=
  reclaims_iff [6] ⟨by decide, by decide⟩

/-- A block of 8 bytes, freed: the byte before the position is its last, and not its first. -/
theorem not_forall_reclaims :
    (afterCalls (allocated []) [.kmalloc 8, .kfree]).heap.heapPos = 8 ∧
    ¬ ∀ (sizes : List UInt32) (ops : List NestOp), Nested (allocated sizes) ops →
      Reclaims (allocated sizes) (afterCalls (allocated sizes) ops).heap := by
  refine ⟨rfl, fun h => ?_⟩
  have hback := (h [] [.kmalloc 8, .kfree] ⟨by decide, rfl⟩).position
  exact absurd hback (by decide)

end Basedos.Kernel
