import Basedos.Fs.Lookup
import Basedos.Fs.Descriptors

/-!
# `open` when the heap is exhausted

`memfs_mount` tests what `kmalloc` returned before it fills the node in;
`memfs_finddir` does not, and clears and fills in a node through `NULL`. The `NULL` it
then returns ends the lookup, so `open` does return `-1` with the table and the tree as
they were; but the memory at address 0 has been written over.

## What is proved

`open_failsCleanly_iff` — **exactly when** an `open` meets no failure of `kmalloc` it
does not handle: no slot is free, the path is not absolute, or the heap has room for a
node for each piece found. `not_forall_open_failsCleanly` is an `open` of a name that
exists, in a heap with 224 bytes left.
-/

namespace Basedos.Fs

open Basedos.Lib Basedos.CLib Basedos.Kernel

variable {s : Vfs Memfs} {root : UInt32}

/-- `open` on a memory file system, given a free slot: the `open` function of a node does
nothing. -/
theorem fdOpen_memfs {i : Fin 64} (hi : findFree s.fileDescriptors = some i) (filename : CStr)
    (flags : UInt32) : fdOpen memfsDrivers s filename flags =
      match vfsOpen memfsDrivers s.world s.fsRoot filename.bytes flags with
      | (none, w) => (-1, { s with world := w })
      | (some p, w) => (Int32.ofNat i, { s with world := w }.setFd i ⟨some p, 0, flags⟩) := by
  rw [fdOpen, hi]
  rcases vfsOpen memfsDrivers s.world s.fsRoot filename.bytes flags with ⟨_ | p, w⟩
  · rfl
  · simp only [memfsDrivers, ite_self]
    rfl

/-- What it does to the memory is the lookup's doing. -/
theorem fdOpen_world {i : Fin 64} (hi : findFree s.fileDescriptors = some i) (filename : CStr) (flags : UInt32) :
    (fdOpen memfsDrivers s filename flags).2.world =
      (vfsOpen memfsDrivers s.world s.fsRoot filename.bytes flags).2 := by
  rw [fdOpen_memfs hi]
  rcases vfsOpen memfsDrivers s.world s.fsRoot filename.bytes flags with ⟨_ | p, w⟩ <;> rfl

/-- Once a `kmalloc` has returned `NULL`, `open` returns `-1`, changes neither the table nor
the tree, and has not touched the memory at `NULL`. -/
def OpenFailsCleanly (s : Vfs Memfs) (filename : CStr) (flags : UInt32) : Prop :=
  let r := fdOpen memfsDrivers s filename flags
  r.2.world.heap.failures ≠ s.world.heap.failures →
    r.1 = -1 ∧ r.2.fileDescriptors = s.fileDescriptors ∧ r.2.world.data = s.world.data ∧
      r.2.world.heap.nullAccesses = s.world.heap.nullAccesses

/-- **When allocation failure is a clean error**: only when there is none. -/
theorem open_failsCleanly_iff (h : Mounted s.world root) (hroot : s.fsRoot = some root)
    (filename : CStr) (flags : UInt32) : OpenFailsCleanly s filename flags ↔
      findFree s.fileDescriptors = none ∨ filename.bytes.head? ≠ some slash ∨
        s.world.heap.heapPos.toNat + s.world.data.nodesFor filename.bytes * 312 ≤ 0x10000 := by
  cases hi : findFree s.fileDescriptors with
  | none =>
    have hopen : fdOpen memfsDrivers s filename flags = (-1, s) := by rw [fdOpen, hi]
    simp [OpenFailsCleanly, hopen]
  | some i =>
    simp only [OpenFailsCleanly, fdOpen_memfs hi, hroot, reduceCtorEq, false_or]
    by_cases habs : filename.bytes.head? = some slash
    · obtain ⟨rest, hpath⟩ := List.head?_eq_some_iff.mp habs
      have hrest : 0 ∉ rest := fun h0 => filename.noNul (by rw [hpath]; exact List.mem_cons_of_mem _ h0)
      simp only [hpath, List.head?_cons, ne_eq, not_true_eq_false, false_or]
      by_cases hroom : s.world.heap.heapPos.toNat + s.world.data.nodesFor (slash :: rest) * 312 ≤ 0x10000
      · obtain ⟨r, w, heq, hgrown, -⟩ := vfsOpen_room h hrest flags hroom
        refine iff_of_true (fun hfail => absurd ?_ hfail) hroom
        rw [heq]
        cases r <;> exact hgrown.failures
      · obtain ⟨w, heq, -, hfail, hnull⟩ := vfsOpen_noRoom h hrest flags (Nat.not_le.mp hroom)
        refine iff_of_false (fun hclean => ?_) hroom
        rw [heq] at hclean
        obtain ⟨-, -, -, h0⟩ := hclean (by simp only [hfail]; omega)
        simp only [hnull] at h0
        omega
    · rw [vfsOpen_relative habs]
      simp [habs]

/-- The small tree at the root, no descriptor in use. -/
def smallVfs : Vfs Memfs := ⟨smallWorld, some 0, fun _ => .free, [memfsOps]⟩

theorem open_failsCleanly_small : OpenFailsCleanly smallVfs ⟨ascii ['/', 'd', '/', 'f'], by decide⟩ O_RDWR :=
  (open_failsCleanly_iff smallWorld_mounted rfl _ _).mpr (.inr (.inr (by decide +kernel)))

/-- The same with 65000 more bytes of the heap taken. -/
def fullVfs : Vfs Memfs :=
  { smallVfs with world := { smallWorld with heap := (kmalloc smallWorld.heap 65000).2 } }

/-- `open("/d", O_RDWR)` in the full heap: `-1`, after a node has been made at `NULL`. -/
theorem not_forall_open_failsCleanly : ¬ OpenFailsCleanly fullVfs ⟨ascii ['/', 'd'], by decide⟩ O_RDWR := by
  intro h
  have hnull := (h (by decide +kernel)).2.2.2
  revert hnull
  decide +kernel

end Basedos.Fs
