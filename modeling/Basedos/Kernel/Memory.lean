import Basedos.Lib.Memory

/-!
# The kernel heap

`kernel/memory.c`: a heap of `HEAP_SIZE` bytes and a position in it. `kmalloc`
takes the next block and moves the position on by the size rounded up to a
multiple of 4; `kfree` gives a block back only when the pointer is the byte just
before the position.

## The model

Addresses are counted from the start of `heap`, as 32-bit words, so that pointer
arithmetic wraps round as it does on the machine; the byte before the heap is the
last word. A pointer is such an address or `NULL` (`Ptr`). `size_t` and `uint32_t`
are 32-bit unsigned words. The heap is a static array, so its bytes start as zeros.

Two fields are not in the source and nothing computed depends on them: `failures`
counts the calls of `kmalloc` that returned `NULL`, and `nullAccesses` the times a
pointer that is `NULL` was read or written through. What such an access does to
memory is not modelled; a state is trusted only as long as the count is what it
was.
-/

namespace Basedos.Kernel

open Basedos.Lib

/-- `HEAP_SIZE`. -/
def HEAP_SIZE : UInt32 := 0x10000

/-- A pointer into the heap, counted from its start, or `NULL`. -/
abbrev Ptr := Option UInt32

/-- The heap. -/
structure Heap where
  /-- The bytes of `heap` and of what lies around it. -/
  mem : Mem
  /-- `heap_pos`. -/
  heapPos : UInt32
  /-- How many calls of `kmalloc` have returned `NULL`. -/
  failures : ℕ
  /-- How many times `NULL` has been read or written through. -/
  nullAccesses : ℕ

/-- The heap as the kernel is loaded. -/
def Heap.initial : Heap := ⟨fun _ => 0, 0, 0, 0⟩

/-- `(size + 3) & ~3`. -/
def align4 (size : UInt32) : UInt32 := (size + 3) &&& ~~~3

/-- `kmalloc`. The sum in the test wraps round. -/
def kmalloc (h : Heap) (size : UInt32) : Ptr × Heap :=
  if h.heapPos + size > HEAP_SIZE then (none, { h with failures := h.failures + 1 })
  else (some h.heapPos, { h with heapPos := h.heapPos + align4 size })

/-- `kfree`: `ptr == &heap[heap_pos - 1]`, and then `heap_pos` is `ptr - heap`. -/
def kfree (h : Heap) (ptr : Ptr) : Heap :=
  match ptr with
  | none => h
  | some p => if p = h.heapPos - 1 then { h with heapPos := p } else h

/-- A read or a write through `NULL`. -/
def Heap.nullAccess (h : Heap) : Heap := { h with nullAccesses := h.nullAccesses + 1 }

/-! ### What the two do -/

/-- Of a state `heap_pos` has been kept in by `kmalloc`: a multiple of 4, at most the size. -/
structure Heap.Ok (h : Heap) : Prop where
  aligned : h.heapPos.toNat % 4 = 0
  bounded : h.heapPos.toNat ≤ 0x10000

theorem Heap.initial_ok : Heap.initial.Ok := ⟨rfl, by decide⟩

theorem toNat_HEAP_SIZE : HEAP_SIZE.toNat = 0x10000 := rfl

theorem toNat_align4 (size : UInt32) : (align4 size).toNat = (size.toNat + 3) % 2 ^ 32 / 4 * 4 := by
  rw [align4, toNat_and_not_three, UInt32.toNat_add]; rfl

/-- The test of `kmalloc`, in numbers. -/
theorem kmalloc_test (h : Heap) (size : UInt32) :
    h.heapPos + size > HEAP_SIZE ↔ 0x10000 < (h.heapPos.toNat + size.toNat) % 2 ^ 32 := by
  rw [gt_iff_lt, UInt32.lt_iff_toNat_lt, UInt32.toNat_add, toNat_HEAP_SIZE]

/-- **What `kmalloc` does**: it returns `NULL` and counts a failure, or it returns the
position and moves it on. -/
theorem kmalloc_cases (h : Heap) (size : UInt32) :
    (0x10000 < (h.heapPos.toNat + size.toNat) % 2 ^ 32 ∧
      kmalloc h size = (none, { h with failures := h.failures + 1 })) ∨
    ((h.heapPos.toNat + size.toNat) % 2 ^ 32 ≤ 0x10000 ∧
      kmalloc h size = (some h.heapPos, { h with heapPos := h.heapPos + align4 size })) := by
  by_cases ht : h.heapPos + size > HEAP_SIZE
  · exact .inl ⟨(kmalloc_test h size).mp ht, by rw [kmalloc, if_pos ht]⟩
  · refine .inr ⟨?_, by rw [kmalloc, if_neg ht]⟩
    rw [kmalloc_test] at ht
    omega

/-- Where the position stands after a block that fits: no more than 3 bytes past it. -/
theorem toNat_heapPos_add {h : Heap} (hok : h.Ok) {size : UInt32}
    (hfit : h.heapPos.toNat + size.toNat ≤ 0x10000) :
    (h.heapPos + align4 size).toNat = h.heapPos.toNat + (size.toNat + 3) / 4 * 4 := by
  have := hok.aligned
  rw [UInt32.toNat_add, toNat_align4]
  omega

/-- `kmalloc` keeps the position a multiple of 4 and inside the heap, whatever the size. -/
theorem kmalloc_ok {h : Heap} (hok : h.Ok) (size : UInt32) : (kmalloc h size).2.Ok := by
  have ha := hok.aligned
  have hb := hok.bounded
  have hs := size.toNat_lt
  rcases kmalloc_cases h size with ⟨-, heq⟩ | ⟨hle, heq⟩ <;> rw [heq]
  · exact ⟨ha, hb⟩
  · have hpos : (h.heapPos + align4 size).toNat =
        (h.heapPos.toNat + (size.toNat + 3) % 2 ^ 32 / 4 * 4) % 2 ^ 32 := by
      rw [UInt32.toNat_add, toNat_align4]
    exact ⟨by simp only [hpos]; omega, by simp only [hpos]; omega⟩

/-- `kfree` of a pointer that is a multiple of 4 does nothing: the byte before the
position never is. -/
theorem kfree_eq {h : Heap} (hok : h.Ok) {ptr : Ptr} (hp : ∀ p, ptr = some p → p.toNat % 4 = 0) :
    kfree h ptr = h := by
  cases ptr with
  | none => rfl
  | some p =>
    have hp4 := hp p rfl
    have ha := hok.aligned
    have hlt := h.heapPos.toNat_lt
    have hne : p ≠ h.heapPos - 1 := by
      rintro rfl
      rw [UInt32.toNat_sub] at hp4
      simp only [UInt32.reduceToNat] at hp4
      omega
    simp only [kfree, if_neg hne]

/-! ### Counting the failures -/

@[simp] theorem failures_kfree (h : Heap) (ptr : Ptr) : (kfree h ptr).failures = h.failures := by
  cases ptr with
  | none => rfl
  | some p =>
    simp only [kfree]
    split <;> rfl

theorem failures_le_kmalloc (h : Heap) (size : UInt32) : h.failures ≤ (kmalloc h size).2.failures := by
  rcases kmalloc_cases h size with ⟨-, heq⟩ | ⟨-, heq⟩ <;> rw [heq]
  exact Nat.le_succ _

/-- A block whose size does not make the sum wrap round, and for which there was room. -/
theorem kmalloc_fits {h : Heap} {size : UInt32} (hfail : (kmalloc h size).2.failures = h.failures)
    (hno : h.heapPos.toNat + size.toNat < 2 ^ 32) : h.heapPos.toNat + size.toNat ≤ 0x10000 := by
  rcases kmalloc_cases h size with ⟨-, heq⟩ | ⟨hle, -⟩
  · rw [heq] at hfail
    simp at hfail
  · rwa [Nat.mod_eq_of_lt hno] at hle

end Basedos.Kernel
