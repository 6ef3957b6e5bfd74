import Basedos.Fs.Mounting

/-!
# A root with no functions

What `vfs_initialize` makes of `fs_root`: a directory none of whose functions is set. `vfs_mount` does not
replace it (`Basedos.Fs.Mounting`), so this is the root the kernel goes on with.

## What is proved

* `BareRoot.vfsOpen` — **only `/` opens**, whatever code there is behind the addresses of functions, and
  nothing is changed by looking.
* `BareRoot.fdOpen_root`, `BareRoot.fdClose_root` — `/` takes a descriptor, and closing it gives back the
  state there was.
* `initialise_bareRoot` — `vfs_initialize`, `memfs_initialize` and `vfs_mount` at `/`, with room for what they
  allocate, leave such a root.
-/

namespace Basedos.Fs

open Basedos.Lib Basedos.CLib Basedos.Kernel

universe u

variable {D : Type u} {K : Drivers D} {s : Vfs D} {p : UInt32}

/-- A directory without functions. -/
structure Functionless (n : FsNode) : Prop where
  isDir : n.flags &&& 0x7 = FS_DIRECTORY
  read : n.read = 0
  write : n.write = 0
  open_ : n.open_ = 0
  close : n.close = 0
  readdir : n.readdir = 0
  finddir : n.finddir = 0

/-- The root is such a directory, and no descriptor is in use. -/
structure BareRoot (s : Vfs D) (p : UInt32) : Prop where
  fsRoot : s.fsRoot = some p
  node : Functionless (s.world.node p)
  free : ∀ i, s.fileDescriptors i = .free

/-! ### Lookup -/

/-- Nothing is found in it. -/
theorem BareRoot.vfsFinddir (h : BareRoot s p) (name : List UInt8) :
    vfsFinddir K s.world s.fsRoot name = (none, s.world) := by
  rw [h.fsRoot]
  exact if_neg fun hfind => hfind.2 h.node.finddir

/-- **Only `/` opens.** -/
theorem BareRoot.vfsOpen (h : BareRoot s p) (filename : List UInt8) (flags : UInt32) :
    vfsOpen K s.world s.fsRoot filename flags = (if filename = [slash] then some p else none, s.world) := by
  by_cases habs : filename.head? = some slash
  · obtain ⟨path, rfl⟩ := List.head?_eq_some_iff.mp habs
    rw [vfsOpen_absolute]
    cases hpieces : pieces slash path with
    | nil =>
      have hpath : path = [] := by
        by_contra hne
        exact pieces_ne_nil hne hpieces
      rw [hpath, if_pos rfl, ← h.fsRoot]
      rfl
    | cons name names =>
      have hne : slash :: path ≠ [slash] := by
        rintro ⟨⟩
        rw [pieces_nil] at hpieces
        cases hpieces
      rw [if_neg hne, lookupPieces, h.vfsFinddir]
      exact ite_self _
  · rw [vfsOpen_relative habs, if_neg]
    rintro rfl
    exact habs rfl

/-! ### Descriptors -/

theorem BareRoot.findFree (h : BareRoot s p) : findFree s.fileDescriptors = some 0 := by
  simp only [Fs.findFree, h.free]
  rfl

/-- A name other than `/`. -/
theorem BareRoot.fdOpen_of_ne (h : BareRoot s p) {filename : CStr} (hne : filename.bytes ≠ [slash]) (flags : UInt32) :
    fdOpen K s filename flags = (-1, s) := by
  simp only [fdOpen, h.findFree, h.vfsOpen, if_neg hne]

/-- `/`. -/
theorem BareRoot.fdOpen_root (h : BareRoot s p) {filename : CStr} (hroot : filename.bytes = [slash]) (flags : UInt32) :
    fdOpen K s filename flags = (0, s.setFd 0 ⟨some p, 0, flags⟩) := by
  simp only [fdOpen, h.findFree, h.vfsOpen, hroot, if_pos, h.node.open_, ne_eq, not_true_eq_false, if_false]
  rfl

theorem lookup_setFd_zero (s : Vfs D) (p pos flags : UInt32) :
    (s.setFd 0 ⟨some p, pos, flags⟩).lookup 0 = some (0, p) := rfl

/-- Closing it again. -/
theorem BareRoot.fdClose_root (h : BareRoot s p) (pos flags : UInt32) :
    fdClose K (s.setFd 0 ⟨some p, pos, flags⟩) 0 = (0, s) := by
  have hclose : ((s.setFd 0 ⟨some p, pos, flags⟩).world.node p).close = 0 := h.node.close
  have hback : (s.setFd 0 ⟨some p, pos, flags⟩).setFd 0 .free = s := by
    simp only [Vfs.setFd, Function.update_idem]
    rw [← h.free 0, Function.update_eq_self]
  simp only [fdClose, lookup_setFd_zero, hclose, ne_eq, not_true_eq_false, if_false]
  rw [hback]

/-- Nothing is written to it. -/
theorem BareRoot.fdWrite_root (h : BareRoot s p) {flags : UInt32} (hflags : flags &&& O_WRONLY ≠ 0) (buf : Mem)
    (size : UInt32) :
    fdWrite K (s.setFd 0 ⟨some p, 0, flags⟩) 0 buf size = (0, s.setFd 0 ⟨some p, 0, flags⟩) := by
  have hwrite : ((s.setFd 0 ⟨some p, 0, flags⟩).world.node p).write = 0 := h.node.write
  have hdesc : (s.setFd 0 ⟨some p, 0, flags⟩).fileDescriptors 0 = ⟨some p, 0, flags⟩ := by simp [Vfs.setFd]
  simp only [fdWrite, lookup_setFd_zero, hdesc, hflags, false_and, if_false, vfsWrite, hwrite, ne_eq,
    not_true_eq_false, add_zero]
  simp only [Vfs.setFd, Function.update_idem]
  rfl

/-- There is nothing in it. -/
theorem BareRoot.vfsReaddir (h : BareRoot s p) (K : DirDrivers D) (index : UInt32) :
    vfsReaddir K s.world p index = (none, s.world) := if_neg fun hne => hne h.node.readdir

theorem BareRoot.vfsClose (h : BareRoot s p) : vfsClose K s.world p = s.world := if_neg fun hne => hne h.node.close

/-! ### Where it comes from -/

section

variable {s : Vfs Memfs}

/-- The fields that `vfs_initialize` sets. -/
theorem vfsInitialize_bareRoot (hok : s.world.heap.Ok) (hroom : s.world.heap.heapPos.toNat + 312 ≤ 0x10000) :
    BareRoot (vfsInitialize s) s.world.heap.heapPos ∧ Grown s.world (vfsInitialize s).world 1 := by
  obtain ⟨halloc, hgrown, hload⟩ := withNode_room hok hroom length_root
    [(.mask, 0x1FF), (.uid, 0), (.gid, 0), (.flags, FS_DIRECTORY), (.inode, 0), (.length, 0)]
  exact ⟨⟨halloc, ⟨congrArg (· &&& 0x7) (hload .flags), hload .read, hload .write, hload .open_, hload .close,
    hload .readdir, hload .finddir⟩, fun _ => rfl⟩, hgrown⟩

/-- A block for which there is room. -/
theorem kmalloc_fitting {h : Heap} (hok : h.Ok) {size : UInt32} (hfit : h.heapPos.toNat + size.toNat ≤ 0x10000) :
    kmalloc h size = (some h.heapPos, { h with heapPos := h.heapPos + align4 size }) ∧
      (h.heapPos + align4 size).toNat = h.heapPos.toNat + (size.toNat + 3) / 4 * 4 := by
  refine ⟨?_, toNat_heapPos_add hok hfit⟩
  rcases kmalloc_cases h size with ⟨hlt, -⟩ | ⟨-, heq⟩
  · omega
  · exact heq

/-- A block filled after it was taken: nothing below it changes. -/
structure Filled (h h' : Heap) (size : UInt32) : Prop where
  ok : h'.Ok
  heapPos : h'.heapPos.toNat = h.heapPos.toNat + (size.toNat + 3) / 4 * 4
  below : ∀ b k, b.toNat + k ≤ h.heapPos.toNat → h'.mem.bytes b k = h.mem.bytes b k

theorem filled_room {h : Heap} (hok : h.Ok) (size : UInt32) (hfit : h.heapPos.toNat + size.toNat ≤ 0x10000)
    (bs : List UInt8) (hbs : bs.length = size.toNat) :
    ∃ r : Heap, kmalloc h size = (some h.heapPos, r) ∧ Filled h { r with mem := r.mem.put h.heapPos bs } size := by
  obtain ⟨halloc, hpos⟩ := kmalloc_fitting hok hfit
  have hok' := kmalloc_ok hok size
  rw [halloc] at hok'
  refine ⟨_, halloc, ⟨hok'.aligned, hok'.bounded⟩, hpos, fun b k hb => ?_⟩
  exact Mem.bytes_put_of_disjoint (.of_le (by omega)) (.of_le (by omega)) (.inr (by omega))

/-- What `memfs_initialize` leaves alone: everything but the registry, the inodes, and the part of the heap it
takes. -/
structure MemfsStarted (s s' : Vfs Memfs) : Prop where
  ok : s'.world.heap.Ok
  heapPos : s'.world.heap.heapPos.toNat = s.world.heap.heapPos.toNat + 1920
  fsRoot : s'.fsRoot = s.fsRoot
  fileDescriptors : s'.fileDescriptors = s.fileDescriptors
  filesystems : s'.filesystems = if s.filesystems.length ≥ 8 then s.filesystems else s.filesystems ++ [memfsOps]
  below : ∀ b k, b.toNat + k ≤ s.world.heap.heapPos.toNat →
    s'.world.heap.mem.bytes b k = s.world.heap.mem.bytes b k

/-- **`memfs_initialize`**, with room for the inodes and the bitmap. -/
theorem memfsInitialize_started (hok : s.world.heap.Ok) (hroom : s.world.heap.heapPos.toNat + 1920 ≤ 0x10000) :
    MemfsStarted s (memfsInitialize s) := by
  have hinodes : (64 * inodeSize).toNat = 1792 := rfl
  have hbitmap : (1024 / 8 : UInt32).toNat = 128 := rfl
  have hblocks : (1024 * 4096 : UInt32).toNat = 4194304 := rfl
  obtain ⟨r₁, halloc₁, hfilled₁⟩ := filled_room hok (64 * inodeSize) (by omega) _
    (List.length_replicate (a := 0))
  unfold memfsInitialize
  simp only [halloc₁]
  generalize ({ r₁ with mem := _ } : Heap) = h₁ at hfilled₁ ⊢
  obtain ⟨r₂, halloc₂, hfilled₂⟩ := filled_room hfilled₁.ok (1024 / 8)
    (by rw [hfilled₁.heapPos]; omega) (List.replicate (1024 / 8) 0) List.length_replicate
  simp only [halloc₂]
  generalize ({ r₂ with mem := _ } : Heap) = h₂ at hfilled₂ ⊢
  have halloc₃ : kmalloc h₂ (1024 * 4096) = (none, { h₂ with failures := h₂.failures + 1 }) := by
    have hbound := hfilled₂.ok.bounded
    rcases kmalloc_cases h₂ (1024 * 4096) with ⟨-, heq⟩ | ⟨hle, -⟩
    · exact heq
    · omega
  simp only [halloc₃]
  have hpos := hfilled₂.heapPos
  rw [hfilled₁.heapPos] at hpos
  have hbelow (b : UInt32) (k : ℕ) (hb : b.toNat + k ≤ s.world.heap.heapPos.toNat) :
      h₂.mem.bytes b k = s.world.heap.mem.bytes b k :=
    (hfilled₂.below b k (by rw [hfilled₁.heapPos]; omega)).trans (hfilled₁.below b k hb)
  have hok₂ : ({ h₂ with failures := h₂.failures + 1 } : Heap).Ok := ⟨hfilled₂.ok.aligned, hfilled₂.ok.bounded⟩
  have hpos₂ : h₂.heapPos.toNat = s.world.heap.heapPos.toNat + 1920 := by omega
  unfold registerFilesystem
  split
  · next hfull => exact ⟨hok₂, hpos₂, rfl, rfl, (if_pos hfull).symm, hbelow⟩
  · next hroom => exact ⟨hok₂, hpos₂, rfl, rfl, (if_neg hroom).symm, hbelow⟩

/-- A root below the part of the heap that has changed. -/
theorem BareRoot.of_node {s s' : Vfs Memfs} (h : BareRoot s p) (hroot : s'.fsRoot = s.fsRoot)
    (hfds : s'.fileDescriptors = s.fileDescriptors) (hnode : s'.world.node p = s.world.node p) : BareRoot s' p :=
  ⟨hroot.trans h.fsRoot, by rw [hnode]; exact h.node, by rw [hfds]; exact h.free⟩

theorem BareRoot.started {s s' : Vfs Memfs} (h : BareRoot s p) (hp : p.toNat + 312 ≤ s.world.heap.heapPos.toNat)
    (hstarted : MemfsStarted s s') : BareRoot s' p :=
  h.of_node hstarted.fsRoot hstarted.fileDescriptors (loadNode_congr (hstarted.below p 312 hp))

/-- **A mount at `/`** makes a root of its own, and leaves this one. -/
theorem BareRoot.mounted (h : BareRoot s p) (hok : s.world.heap.Ok) (hp : p.toNat + 312 ≤ s.world.heap.heapPos.toNat)
    (hroom : s.world.heap.heapPos.toNat + 312 ≤ 0x10000) (device : CStr) {mountpoint fsType : CStr}
    (hfs : findFilesystem s.filesystems fsType = some memfsOps) (hmp : mountpoint.bytes = [slash]) :
    ∃ s', vfsMount memfsDrivers s device mountpoint fsType = (0, s') ∧ BareRoot s' p ∧ s'.world.heap.Ok ∧
      s'.world.heap.heapPos.toNat = s.world.heap.heapPos.toNat + 312 := by
  have hmount : memfsDrivers.mount memfsOps.mount s.world device = memfsMount s.world device := by
    simp only [memfsDrivers, memfsOps, if_true]
  have hnode : (markRoot (memfsMount s.world device).2 s.world.heap.heapPos).node p = s.world.node p :=
    node_markRoot hok hp hroom
  rcases memfsMount_cases hok device with ⟨-, heq⟩ | ⟨hlt, -⟩
  · obtain ⟨-, hgrown, -⟩ := withNode_room hok hroom length_root (rootFields s.world.data.rootNode)
    rw [heq] at hnode hmount
    generalize withNode s.world _ _ = w at hgrown hnode hmount
    have hmounted : vfsMount memfsDrivers s device mountpoint fsType =
        (0, { s with world := markRoot w s.world.heap.heapPos }) := by
      rcases vfsMount_cases (K := memfsDrivers) (s := s) device mountpoint fsType with
        ⟨hf, -⟩ | ⟨ops, w', hf, hm, -⟩ | ⟨ops, root, w', hf, hm, hr⟩
      · rw [hfs] at hf
        cases hf
      · cases hfs.symm.trans hf
        cases hmount.symm.trans hm
      · cases hfs.symm.trans hf
        cases hmount.symm.trans hm
        rw [hr, mountedWorld, if_pos hmp]
    refine ⟨_, hmounted, h.of_node rfl rfl hnode, ⟨hgrown.ok.aligned, hgrown.ok.bounded⟩, ?_⟩
    exact hgrown.heapPos.trans (by rw [Nat.one_mul])
  · omega

/-- **How the kernel starts its file systems**: `vfs_initialize`, `memfs_initialize`, and `vfs_mount` at `/`. -/
theorem initialise_bareRoot {s : Vfs Memfs} (hok : s.world.heap.Ok)
    (hroom : s.world.heap.heapPos.toNat + 2544 ≤ 0x10000) (device mountpoint : CStr)
    (hmp : mountpoint.bytes = [slash]) :
    ∃ s' p, vfsMount memfsDrivers (memfsInitialize (vfsInitialize s)) device mountpoint memfsName = (0, s') ∧
      BareRoot s' p ∧ s'.world.heap.Ok ∧
      s'.world.heap.heapPos.toNat = s.world.heap.heapPos.toNat + 2544 := by
  obtain ⟨hbare, hgrown⟩ := vfsInitialize_bareRoot hok (by omega)
  have hpos := hgrown.heapPos
  have hstarted := memfsInitialize_started (s := vfsInitialize s) hgrown.ok (by omega)
  have hpos' := hstarted.heapPos
  have hregistry : findFilesystem (memfsInitialize (vfsInitialize s)).filesystems memfsName = some memfsOps := by
    have hnone : (vfsInitialize s).filesystems = [] := rfl
    rw [hstarted.filesystems, hnone]
    rfl
  obtain ⟨s', hmount, hbare', hok', hpos''⟩ := (hbare.started (by omega) hstarted).mounted
    hstarted.ok (by omega) (by omega) device hregistry hmp
  exact ⟨s', _, hmount, hbare', hok', by omega⟩

end

end Basedos.Fs
