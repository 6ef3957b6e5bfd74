import Basedos.Fs.Exhaustion
import Mathlib.Logic.Function.Iterate

/-!
# Opening and closing over and over

`open` takes a descriptor and, for every component of the path, a node from the heap.
`close` gives the descriptor back; the nodes it leaves where they are (`memfs_close` does
nothing, and `kfree` is only a reset at the end of the heap). So a path can be opened and
closed as long as there is room for new nodes, and no longer.

## What is proved

* `openClose_opened` — **one cycle**, with room: the slot is free again, the heap's position
  has moved on by a node for each component, and nothing else has changed.
* `open_after_cycles` — **any number of cycles**: the next `open` gives a descriptor on the same
  inode as long as there is room, and fails when there is none. The path `/` has no
  components, and can be opened forever.
-/

namespace Basedos.Fs

open Basedos.Lib Basedos.CLib Basedos.Kernel

universe u

/-- `close(open(filename, flags))`. -/
def openClose {D : Type u} (K : Drivers D) (filename : CStr) (flags : UInt32) (s : Vfs D) : Vfs D :=
  let r := fdOpen K s filename flags
  (fdClose K r.2 r.1).2

/-- A path that resolves takes a node for each of its pieces. -/
theorem found_of_follow {d : Memfs} {i c : UInt32} {ps : List (List UInt8)} (h : d.follow i ps = some c) :
    d.found i ps = ps.length := by
  induction ps generalizing i with
  | nil => rfl
  | cons p ps ih =>
    rw [Memfs.follow] at h
    obtain ⟨j, hj, hps⟩ := Option.bind_eq_some_iff.mp h
    simp only [Memfs.found, hj, ih hps, List.length_cons]

/-- How many components a path has. -/
def components (path : CStr) : ℕ := (pieces slash path.bytes.tail).length

theorem nodesFor_of_resolve {d : Memfs} {path : CStr} {c : UInt32} (h : d.resolve path.bytes = some c) :
    d.nodesFor path.bytes = components path := by
  unfold Memfs.resolve at h
  unfold Memfs.nodesFor components
  cases hp : path.bytes with
  | nil =>
    rw [hp] at h
    cases h
  | cons x rest =>
    simp only [hp] at h
    split at h
    · exact found_of_follow h
    · cases h

/-- The bytes of the nodes a path takes. -/
def pathBytes (path : CStr) : ℕ := components path * 312

/-! ### One cycle -/

variable {s s' : Vfs Memfs} {root c : UInt32} {i : Fin 64} {path : CStr}

/-- Of two states with `i` the first free slot: the second has `n` more nodes in the heap, and is
otherwise the same. -/
structure Worn (s s' : Vfs Memfs) (i : Fin 64) (n : ℕ) : Prop where
  grown : Grown s.world s'.world n
  fsRoot : s'.fsRoot = s.fsRoot
  free : (s'.fileDescriptors i).node = none
  others : ∀ j ≠ i, s'.fileDescriptors j = s.fileDescriptors j

theorem Worn.refl (hok : s.world.heap.Ok) (hfree : (s.fileDescriptors i).node = none) : Worn s s i 0 :=
  ⟨.refl hok, rfl, hfree, fun _ _ => rfl⟩

theorem Worn.trans {s'' : Vfs Memfs} {n k : ℕ} (h₁ : Worn s s' i n) (h₂ : Worn s' s'' i k) :
    Worn s s'' i (n + k) where
  grown := h₁.grown.trans h₂.grown
  fsRoot := h₂.fsRoot.trans h₁.fsRoot
  free := h₂.free
  others j hj := (h₂.others j hj).trans (h₁.others j hj)

theorem Worn.heapPos {n : ℕ} (h : Worn s s' i (n * components path)) :
    s'.world.heap.heapPos.toNat = s.world.heap.heapPos.toNat + n * pathBytes path := by
  rw [h.grown.heapPos, pathBytes, Nat.mul_assoc]

/-- The first free slot is found again. -/
theorem Worn.findFree {n : ℕ} (h : Worn s s' i n) (hfree : findFree s.fileDescriptors = some i) :
    findFree s'.fileDescriptors = some i := by
  have hnode : ∀ j, (s'.fileDescriptors j).node = (s.fileDescriptors j).node := by
    intro j
    by_cases hj : j = i
    · rw [hj, h.free, (findFree_eq_some hfree).1]
    · rw [h.others j hj]
  unfold Fs.findFree at hfree ⊢
  simpa only [hnode] using hfree

theorem Worn.mounted {n : ℕ} (h : Worn s s' i n) (hm : Mounted s.world root) : Mounted s'.world root where
  ok := h.grown.ok
  nodeFor := by rw [h.grown.data]; exact hm.nodeFor.grown h.grown
  isDir := by rw [h.grown.data]; exact hm.isDir

/-- `open` of a path that resolves, with room for its nodes. -/
theorem fdOpen_room (h : Mounted s.world root) (hroot : s.fsRoot = some root)
    (hfree : findFree s.fileDescriptors = some i) (hres : s.world.data.resolve path.bytes = some c)
    (hroom : s.world.heap.heapPos.toNat + pathBytes path ≤ 0x10000) (flags : UInt32) :
    ∃ p w, fdOpen memfsDrivers s path flags =
        (Int32.ofNat i.val, { s with world := w }.setFd i ⟨some p, 0, flags⟩) ∧
      Grown s.world w (components path) ∧ NodeFor w p c := by
  have habs : path.bytes.head? = some slash := by
    by_contra hrel
    rw [Memfs.resolve_relative _ hrel] at hres
    cases hres
  obtain ⟨rest, hpath⟩ := List.head?_eq_some_iff.mp habs
  have hrest : 0 ∉ rest := fun h0 => path.noNul (by rw [hpath]; exact List.mem_cons_of_mem _ h0)
  rw [pathBytes, ← nodesFor_of_resolve hres, hpath] at hroom
  obtain ⟨r, w, hopen, hgrown, hcase⟩ := vfsOpen_room h hrest flags hroom
  rw [← hpath, hres] at hcase
  obtain ⟨hnone, -⟩ | ⟨c', p, hc, rfl, hp, -⟩ := hcase
  · cases hnone
  · cases hc
    rw [← hpath, nodesFor_of_resolve hres] at hgrown
    refine ⟨p, w, ?_, hgrown, hp⟩
    rw [fdOpen_memfs hfree, hroot, hpath, hopen]

/-- Without room for them it fails. -/
theorem fdOpen_noRoom (h : Mounted s.world root) (hroot : s.fsRoot = some root)
    (hres : s.world.data.resolve path.bytes = some c)
    (hroom : 0x10000 < s.world.heap.heapPos.toNat + pathBytes path) (flags : UInt32) :
    (fdOpen memfsDrivers s path flags).1 = -1 := by
  have habs : path.bytes.head? = some slash := by
    by_contra hrel
    rw [Memfs.resolve_relative _ hrel] at hres
    cases hres
  obtain ⟨rest, hpath⟩ := List.head?_eq_some_iff.mp habs
  have hrest : 0 ∉ rest := fun h0 => path.noNul (by rw [hpath]; exact List.mem_cons_of_mem _ h0)
  rw [pathBytes, ← nodesFor_of_resolve hres, hpath] at hroom
  obtain ⟨w, hopen, -⟩ := vfsOpen_noRoom h hrest flags hroom
  cases hfree : findFree s.fileDescriptors with
  | none => rw [fdOpen, hfree]
  | some j => rw [fdOpen_memfs hfree, hroot, hpath, hopen]

/-- `close` of a live descriptor: the `close` function of a node does nothing. -/
theorem fdClose_memfs {fd : Int32} {p : UInt32} (h : s.lookup fd = some (i, p)) :
    fdClose memfsDrivers s fd = (0, s.setFd i .free) := by
  simp only [fdClose, h, memfsDrivers, ite_self]

/-- **One cycle.** -/
theorem openClose_opened (h : Mounted s.world root) (hroot : s.fsRoot = some root)
    (hfree : findFree s.fileDescriptors = some i) (hres : s.world.data.resolve path.bytes = some c)
    (hroom : s.world.heap.heapPos.toNat + pathBytes path ≤ 0x10000) (flags : UInt32) :
    Worn s (openClose memfsDrivers path flags s) i (components path) := by
  obtain ⟨p, w, hopen, hgrown, -⟩ := fdOpen_room h hroot hfree hres hroom flags
  have hlive : ({ s with world := w }.setFd i ⟨some p, 0, flags⟩).lookup (Int32.ofNat i.val) = some (i, p) :=
    lookup_eq_some.mpr ⟨slot_ofNat i, by simp⟩
  have hcycle : openClose memfsDrivers path flags s = { s with world := w }.setFd i .free := by
    rw [openClose, hopen]
    simp only [fdClose_memfs hlive]
    simp only [Vfs.setFd, Function.update_idem]
  rw [hcycle]
  exact ⟨hgrown, rfl, by simp [FileDescriptor.free], fun j hj => by simp [Function.update_of_ne hj]⟩

/-! ### Any number of cycles -/

/-- As long as there is room, `n` cycles take `n` times the nodes of one, and give back the slot. -/
theorem worn_cycles (h : Mounted s.world root) (hroot : s.fsRoot = some root)
    (hfree : findFree s.fileDescriptors = some i) (hres : s.world.data.resolve path.bytes = some c)
    (flags : UInt32) (n : ℕ) (hroom : s.world.heap.heapPos.toNat + n * pathBytes path ≤ 0x10000) :
    Worn s ((openClose memfsDrivers path flags)^[n] s) i (n * components path) := by
  induction n with
  | zero =>
    rw [Nat.zero_mul]
    exact .refl h.ok (findFree_eq_some hfree).1
  | succ n ih =>
    rw [Nat.succ_mul] at hroom
    have hworn := ih (by omega)
    rw [Function.iterate_succ_apply', Nat.succ_mul]
    refine hworn.trans (openClose_opened (c := c) (hworn.mounted h) ?_ (hworn.findFree hfree) ?_ ?_ flags)
    · rw [hworn.fsRoot, hroot]
    · rw [hworn.grown.data, hres]
    · rw [hworn.heapPos]
      omega

/-- The first `open` there is no room for fails. -/
theorem open_cycles_noRoom (h : Mounted s.world root) (hroot : s.fsRoot = some root)
    (hfree : findFree s.fileDescriptors = some i) (hres : s.world.data.resolve path.bytes = some c)
    (flags : UInt32) (n : ℕ) (hroom : s.world.heap.heapPos.toNat + n * pathBytes path ≤ 0x10000)
    (hfull : 0x10000 < s.world.heap.heapPos.toNat + (n + 1) * pathBytes path) :
    (fdOpen memfsDrivers ((openClose memfsDrivers path flags)^[n] s) path flags).1 = -1 := by
  have hworn := worn_cycles h hroot hfree hres flags n hroom
  refine fdOpen_noRoom (c := c) (hworn.mounted h) (hworn.fsRoot.trans hroot) (by rw [hworn.grown.data, hres]) ?_ _
  rw [Nat.succ_mul] at hfull
  rw [hworn.heapPos]
  omega

/-- What is asked of a path that can be opened: that it can be opened after any number of cycles, on the
same inode. -/
def NeverWorn (s : Vfs Memfs) (path : CStr) (flags : UInt32) : Prop :=
  ∀ c, s.world.data.resolve path.bytes = some c → 0 ≤ (fdOpen memfsDrivers s path flags).1 → ∀ n,
    let r := fdOpen memfsDrivers ((openClose memfsDrivers path flags)^[n] s) path flags
    0 ≤ r.1 ∧ ∃ j p, slot r.1 = some j ∧ (r.2.fileDescriptors j).node = some p ∧ NodeFor r.2.world p c

theorem smallPath_noNul : 0 ∉ ascii ['/', 'd', '/', 'f'] := by decide

/-- `/d/f`. -/
def smallPath : CStr := ⟨ascii ['/', 'd', '/', 'f'], smallPath_noNul⟩

/-- The file of the small tree is opened and closed 104 times; then there is no room left. -/
theorem not_forall_neverWorn : ¬ NeverWorn smallVfs smallPath O_RDWR := by
  intro h
  have hfree : findFree smallVfs.fileDescriptors = some 0 := by decide +kernel
  have hres : smallVfs.world.data.resolve smallPath.bytes = some 3 := by decide +kernel
  have hfull := open_cycles_noRoom smallWorld_mounted rfl hfree hres O_RDWR 104 (by decide +kernel)
    (by decide +kernel)
  have hopen := (h 3 hres (by decide +kernel) 104).1
  rw [hfull] at hopen
  exact absurd hopen (by decide)

/-- **Opening after any number of cycles**: there is a descriptor on the same inode as long as the heap
has room for the nodes of that many cycles and one more `open`; of the cycles, it has the slot back and
not the nodes. The first `open` there is no room for returns `-1`. -/
theorem open_after_cycles (h : Mounted s.world root) (hroot : s.fsRoot = some root)
    (hfree : findFree s.fileDescriptors = some i) (hres : s.world.data.resolve path.bytes = some c)
    (flags : UInt32) (n : ℕ) :
    let s' := (openClose memfsDrivers path flags)^[n] s
    let r := fdOpen memfsDrivers s' path flags
    (s.world.heap.heapPos.toNat + (n + 1) * pathBytes path ≤ 0x10000 →
      r.1 = Int32.ofNat i.val ∧
        (∃ p, r.2.fileDescriptors i = ⟨some p, 0, flags⟩ ∧ NodeFor r.2.world p c) ∧
        (s'.fileDescriptors i).node = none ∧ (∀ j ≠ i, s'.fileDescriptors j = s.fileDescriptors j) ∧
        s'.world.data = s.world.data ∧
        s'.world.heap.heapPos.toNat = s.world.heap.heapPos.toNat + n * pathBytes path) ∧
    (s.world.heap.heapPos.toNat + n * pathBytes path ≤ 0x10000 →
      0x10000 < s.world.heap.heapPos.toNat + (n + 1) * pathBytes path → r.1 = -1) := by
  intro s' r
  refine ⟨fun hroom => ?_, fun hroom hfull => open_cycles_noRoom h hroot hfree hres flags n hroom hfull⟩
  rw [Nat.succ_mul] at hroom
  have hworn := worn_cycles h hroot hfree hres flags n (by omega)
  have hres' : s'.world.data.resolve path.bytes = some c := by rw [hworn.grown.data, hres]
  obtain ⟨p, w, hopen, -, hp⟩ := fdOpen_room (hworn.mounted h) (hworn.fsRoot.trans hroot)
    (hworn.findFree hfree) hres' (by rw [hworn.heapPos]; omega) flags
  have hr : r = (Int32.ofNat i.val, { s' with world := w }.setFd i ⟨some p, 0, flags⟩) := hopen
  rw [hr]
  exact ⟨rfl, ⟨p, by simp, hp⟩, hworn.free, hworn.others, hworn.grown.data, hworn.heapPos⟩

/-- The same file, once more than once. -/
theorem open_after_cycles_small :
    (fdOpen memfsDrivers ((openClose memfsDrivers smallPath O_RDWR)^[100] smallVfs) smallPath O_RDWR).1 = 0 :=
  ((open_after_cycles smallWorld_mounted rfl (show findFree smallVfs.fileDescriptors = some 0 by decide +kernel)
    (show smallVfs.world.data.resolve smallPath.bytes = some 3 by decide +kernel) O_RDWR 100).1
    (by decide +kernel)).1

end Basedos.Fs
