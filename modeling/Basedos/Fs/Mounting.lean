import Basedos.Fs.Lookup

/-!
# What mounting does

`vfs_mount` is to make the root of a file system the node its mountpoint leads to. Its
local variable `fs_root` hides the global one: the node the file system returns is
copied onto itself, and every lookup goes on from the root there was before. For a
mountpoint other than `/` nothing is attempted, and `0` is returned all the same.

## What is proved

* `mountTakesEffect_iff` — **exactly when** a mount does what its result says: there is
  no file system of that name, or its `mount` returns `NULL`, or the root that was there
  before serves the mountpoint already (`AlreadyServes`): at `/` it is itself such a node,
  and for a longer path its pieces lead from it to one.
* `mount_memfs_iff` — for the memory file system at `/` this is a condition on the old
  root node alone: it must be one of a memory file system already. The node
  `vfs_initialize` makes is not (`not_forall_mountTakesEffect`, the kernel's boot).
-/

namespace Basedos.Fs

open Basedos.Lib Basedos.CLib Basedos.Kernel

universe u

variable {D : Type u} {K : Drivers D} {s : Vfs D}

/-! ### What `vfs_mount` does -/

/-- A block copied onto itself. -/
theorem memcpy_self (m : Mem) (a : UInt32) (n : ℕ) : memcpy m a a n = m := by
  induction n generalizing m a with
  | zero => rfl
  | succ n ih =>
    have hput : m.put a [m a] = m := by
      funext x
      unfold Mem.put
      cases hx : (x - a).toNat with
      | zero =>
        have hxa : x - a = 0 := UInt32.toNat_inj.mp hx
        rw [sub_eq_zero.mp hxa]
        rfl
      | succ k => simp
    rw [memcpy, hput, ih]

/-- The memory with the node at `root` marked a directory. -/
def markRoot (w : World D) (root : UInt32) : World D :=
  let flags := loadField w.heap.mem root .flags ||| FS_DIRECTORY
  { w with heap := { w.heap with mem := storeField w.heap.mem root .flags flags } }

/-- The memory a mount leaves, given what the file system's `mount` left: at `/` the node it
returned is marked a directory. -/
def mountedWorld (w : World D) (root : UInt32) (mountpoint : CStr) : World D :=
  if mountpoint.bytes = [slash] then markRoot w root else w

variable (device mountpoint fsType : CStr)

/-- **What `vfs_mount` does**: nothing to the root, the registry or the table. -/
theorem vfsMount_cases :
    (findFilesystem s.filesystems fsType = none ∧ vfsMount K s device mountpoint fsType = (-1, s)) ∨
    (∃ ops w, findFilesystem s.filesystems fsType = some ops ∧
      K.mount ops.mount s.world device = (none, w) ∧
      vfsMount K s device mountpoint fsType = (-1, { s with world := w })) ∨
    (∃ ops root w, findFilesystem s.filesystems fsType = some ops ∧
      K.mount ops.mount s.world device = (some root, w) ∧
      vfsMount K s device mountpoint fsType = (0, { s with world := mountedWorld w root mountpoint })) := by
  cases hf : findFilesystem s.filesystems fsType with
  | none => exact .inl ⟨rfl, by rw [vfsMount, hf]⟩
  | some ops =>
    rcases hm : K.mount ops.mount s.world device with ⟨_ | root, w⟩
    · exact .inr (.inl ⟨ops, w, rfl, hm, by simp only [vfsMount, hf, hm]⟩)
    · refine .inr (.inr ⟨ops, root, w, rfl, hm, ?_⟩)
      have hslash : strcmp mountpoint.bytes [slash] = 0 ↔ mountpoint.bytes = [slash] :=
        strcmp_eq_zero_iff mountpoint.noNul (by decide)
      simp only [vfsMount, hf, hm, hslash, mountedWorld, markRoot, memcpy_self]
      split <;> rfl

/-! ### Taking effect -/

/-- A directory with the functions and the data of `n`. -/
structure ActsAs (m n : FsNode) : Prop where
  isDir : m.flags &&& 0x7 = FS_DIRECTORY
  read : m.read = n.read
  write : m.write = n.write
  readdir : m.readdir = n.readdir
  finddir : m.finddir = n.finddir
  fsSpecific : m.fsSpecific = n.fsSpecific

/-- After a mount that returns `0` the mountpoint leads, whatever the flags, to a node that acts
as the root the file system returned, and the paths below it are looked up from there; one that
returns `-1` has changed neither the root nor the registry nor the table. -/
def MountTakesEffect (K : Drivers D) (s : Vfs D) (device mountpoint fsType : CStr) : Prop :=
  let r := vfsMount K s device mountpoint fsType
  (r.1 = 0 → ∃ ops root w, findFilesystem s.filesystems fsType = some ops ∧
    K.mount ops.mount s.world device = (some root, w) ∧
    ∃ p w', (∀ flags, vfsOpen K r.2.world r.2.fsRoot mountpoint.bytes flags = (some p, w')) ∧
      ActsAs (w'.node p) (w.node root) ∧
      ∀ q flags, vfsOpen K r.2.world r.2.fsRoot (below mountpoint.bytes q) flags =
        lookupPieces K w' (some p) (pieces slash q)) ∧
  (r.1 = -1 → r.2.fsRoot = s.fsRoot ∧ r.2.filesystems = s.filesystems ∧
    r.2.fileDescriptors = s.fileDescriptors)

/-- The root there is acts, at the mountpoint, as the node at `root` already: at `/` it does so
itself, and a longer path leads from it, piece by piece, to a node that does. -/
def AlreadyServes (K : Drivers D) (fsRoot : Ptr) (mountpoint : CStr) (root : UInt32) (w : World D) :
    Prop :=
  (mountpoint.bytes = [slash] ∧ ∃ p, fsRoot = some p ∧
    ActsAs ((markRoot w root).node p) (w.node root)) ∨
  ∃ path ≠ [], mountpoint.bytes = slash :: path ∧
    ∃ p w', lookupPieces K w fsRoot (pieces slash path) = (some p, w') ∧
      ActsAs (w'.node p) (w.node root)

/-- Where `vfs_open` of the mountpoint goes in the memory the mount leaves, from any root. -/
theorem vfsOpen_mountpoint (fsRoot : Ptr) (mountpoint : CStr) (root : UInt32) (w : World D) :
    (∃ p w', (∀ flags, vfsOpen K (mountedWorld w root mountpoint) fsRoot mountpoint.bytes flags =
        (some p, w')) ∧ ActsAs (w'.node p) (w.node root)) ↔
      AlreadyServes K fsRoot mountpoint root w := by
  by_cases habs : mountpoint.bytes.head? = some slash
  · obtain ⟨path, hpath⟩ := List.head?_eq_some_iff.mp habs
    by_cases hne : path = []
    · subst hne
      have hopen : ∀ flags, vfsOpen K (mountedWorld w root mountpoint) fsRoot mountpoint.bytes flags =
          (fsRoot, markRoot w root) := by
        intro flags
        rw [hpath, vfsOpen_absolute, pieces_nil, mountedWorld, if_pos hpath]
        rfl
      simp only [hopen, forall_const, Prod.mk.injEq]
      constructor
      · rintro ⟨p, w', ⟨hroot, rfl⟩, hacts⟩
        exact .inl ⟨hpath, p, hroot, hacts⟩
      · rintro (⟨-, p, hroot, hacts⟩ | ⟨path, hne, hpath', -⟩)
        · exact ⟨p, _, ⟨hroot, rfl⟩, hacts⟩
        · rw [hpath, List.cons.injEq] at hpath'
          exact absurd hpath'.2.symm hne
    · have hslash : mountpoint.bytes ≠ [slash] := fun h => hne (by simpa [hpath] using h)
      have hopen : ∀ flags, vfsOpen K (mountedWorld w root mountpoint) fsRoot mountpoint.bytes flags =
          lookupPieces K w fsRoot (pieces slash path) := by
        intro flags
        rw [hpath, vfsOpen_absolute, mountedWorld, if_neg hslash]
      simp only [hopen, forall_const]
      constructor
      · rintro ⟨p, w', hfound, hacts⟩
        exact .inr ⟨path, hne, hpath, p, w', hfound, hacts⟩
      · rintro (⟨h, -⟩ | ⟨path', -, hpath', p, w', hfound, hacts⟩)
        · exact absurd h hslash
        · rw [hpath, List.cons.injEq] at hpath'
          rw [← hpath'.2] at hfound
          exact ⟨p, w', hfound, hacts⟩
  · refine iff_of_false ?_ ?_
    · rintro ⟨p, w', hopen, -⟩
      have hnone := hopen 0
      rw [vfsOpen_relative habs] at hnone
      cases hnone
    · rintro (⟨h, -⟩ | ⟨path, -, h, -⟩) <;> exact habs (by rw [h]; rfl)

variable {device mountpoint fsType} {ops : FilesystemOps}

/-- A mount that finds no file system, or to which it returns `NULL`, is clean. -/
theorem takesEffect_of_not_mounted
    (h : ∀ ops root w, findFilesystem s.filesystems fsType = some ops →
      K.mount ops.mount s.world device ≠ (some root, w)) :
    MountTakesEffect K s device mountpoint fsType := by
  have hne : (-1 : Int32) ≠ 0 := by decide
  rcases vfsMount_cases (K := K) (s := s) device mountpoint fsType with
    ⟨-, hr⟩ | ⟨-, w, -, -, hr⟩ | ⟨ops, root, w, hf, hm, -⟩
  · rw [MountTakesEffect, hr]
    exact ⟨fun h => absurd h hne, fun _ => ⟨rfl, rfl, rfl⟩⟩
  · rw [MountTakesEffect, hr]
    exact ⟨fun h => absurd h hne, fun _ => ⟨rfl, rfl, rfl⟩⟩
  · exact absurd hm (h ops root w hf)

/-- A mount that succeeds takes effect when the old root serves the mountpoint already. -/
theorem takesEffect_of_mounted {root : UInt32} {w : World D}
    (hf : findFilesystem s.filesystems fsType = some ops)
    (hm : K.mount ops.mount s.world device = (some root, w)) :
    MountTakesEffect K s device mountpoint fsType ↔ AlreadyServes K s.fsRoot mountpoint root w := by
  have hr : vfsMount K s device mountpoint fsType =
      (0, { s with world := mountedWorld w root mountpoint }) := by
    rcases vfsMount_cases (K := K) (s := s) device mountpoint fsType with
      ⟨hf', -⟩ | ⟨ops', w', hf', hm', -⟩ | ⟨ops', root', w', hf', hm', hr⟩
    · cases hf.symm.trans hf'
    · cases hf.symm.trans hf'
      cases hm.symm.trans hm'
    · cases hf.symm.trans hf'
      cases hm.symm.trans hm'
      exact hr
  rw [MountTakesEffect, hr, ← vfsOpen_mountpoint]
  constructor
  · rintro ⟨heffect, -⟩
    obtain ⟨ops', root', w', hf', hm', p, w₁, hopen, hacts, -⟩ := heffect rfl
    cases hf.symm.trans hf'
    cases hm.symm.trans hm'
    exact ⟨p, w₁, hopen, hacts⟩
  · rintro ⟨p, w', hopen, hacts⟩
    refine ⟨fun _ => ⟨ops, root, w, hf, hm, p, w', hopen, hacts, ?_⟩, fun _ => ⟨rfl, rfl, rfl⟩⟩
    exact fun q flags => vfsOpen_below (hopen flags) q

/-- **When a mount takes effect**: only when nothing is mounted, or the root there was before serves
the mountpoint already. -/
theorem mountTakesEffect_iff (K : Drivers D) (s : Vfs D) (device mountpoint fsType : CStr) :
    MountTakesEffect K s device mountpoint fsType ↔
    ∀ ops root w, findFilesystem s.filesystems fsType = some ops →
      K.mount ops.mount s.world device = (some root, w) →
      AlreadyServes K s.fsRoot mountpoint root w := by
  constructor
  · exact fun h ops root w hf hm => (takesEffect_of_mounted hf hm).mp h
  · intro h
    by_cases hmounted : ∃ ops root w, findFilesystem s.filesystems fsType = some ops ∧
        K.mount ops.mount s.world device = (some root, w)
    · obtain ⟨ops, root, w, hf, hm⟩ := hmounted
      exact (takesEffect_of_mounted hf hm).mpr (h ops root w hf hm)
    · exact takesEffect_of_not_mounted fun ops root w hf hm => hmounted ⟨ops, root, w, hf, hm⟩

/-! ### The memory file system -/

section

variable {s : Vfs Memfs} {p : UInt32}

/-- A node of the heap is not changed by a mount of the memory file system. -/
theorem node_markRoot (hok : s.world.heap.Ok) (hp : p.toNat + 312 ≤ s.world.heap.heapPos.toNat)
    (hfit : s.world.heap.heapPos.toNat + 312 ≤ 0x10000) :
    (markRoot (memfsMount s.world device).2 s.world.heap.heapPos).node p = s.world.node p := by
  obtain ⟨-, hgrown, -⟩ := withNode_room hok hfit length_root (rootFields s.world.data.rootNode)
  have hmount : (memfsMount s.world device).2 =
      withNode s.world (ascii ['r', 'o', 'o', 't']) (rootFields s.world.data.rootNode) := by
    rcases memfsMount_cases hok device with ⟨-, heq⟩ | ⟨hlt, -⟩
    · rw [heq]
    · omega
  rw [hmount]
  refine loadNode_congr (Eq.trans ?_ (hgrown.below p 312 hp))
  have hpos : Fits s.world.heap.heapPos 312 := .of_le (by omega)
  have hoff := toNat_add_offset hpos .flags
  refine Mem.bytes_put_of_disjoint (fits_field hpos .flags) (.of_le (by omega)) (.inr ?_)
  rw [hoff]
  omega

/-- **A mount of the memory file system at `/`** takes effect only if there is no room for its
root, or the root there was before is a root of the memory file system already. -/
theorem mount_memfs_iff (hok : s.world.heap.Ok) (hroot : s.fsRoot = some p)
    (hp : p.toNat + 312 ≤ s.world.heap.heapPos.toNat)
    (hfs : findFilesystem s.filesystems fsType = some memfsOps) (hmp : mountpoint.bytes = [slash]) :
    MountTakesEffect memfsDrivers s device mountpoint fsType ↔
      0x10000 < s.world.heap.heapPos.toNat + 312 ∨
      (s.world.node p).flags &&& 0x7 = FS_DIRECTORY ∧ (s.world.node p).read = memfsReadAddr ∧
        (s.world.node p).write = memfsWriteAddr ∧ (s.world.node p).readdir = memfsReaddirAddr ∧
        (s.world.node p).finddir = memfsFinddirAddr ∧
        (s.world.node p).fsSpecific = s.world.data.rootNode := by
  have hmount : memfsDrivers.mount memfsOps.mount s.world device = memfsMount s.world device := by
    simp only [memfsDrivers, memfsOps, if_true]
  rcases memfsMount_cases hok device with ⟨hfit, heq⟩ | ⟨hlt, hnone⟩
  · obtain ⟨-, -, hload⟩ := withNode_room hok hfit length_root (rootFields s.world.data.rootNode)
    have hmount' : memfsMount s.world device = (some s.world.heap.heapPos, (memfsMount s.world device).2) := by
      rw [heq]
    have hroots : ∀ f, loadField (memfsMount s.world device).2.heap.mem s.world.heap.heapPos f =
        assigned (rootFields s.world.data.rootNode) f := by rw [heq]; exact hload
    have hnode : (markRoot (memfsMount s.world device).2 s.world.heap.heapPos).node p = s.world.node p :=
      node_markRoot hok hp hfit
    rw [takesEffect_of_mounted hfs (hmount.trans hmount'), AlreadyServes]
    constructor
    · rintro (⟨-, q, hq, hacts⟩ | ⟨path, hne, hpath, -⟩)
      · cases hroot.symm.trans hq
        rw [hnode] at hacts
        exact .inr ⟨hacts.isDir, hacts.read.trans (hroots .read), hacts.write.trans (hroots .write),
          hacts.readdir.trans (hroots .readdir), hacts.finddir.trans (hroots .finddir),
          hacts.fsSpecific.trans (hroots .fsSpecific)⟩
      · rw [hmp, List.cons.injEq] at hpath
        exact absurd hpath.2.symm hne
    · intro h
      obtain ⟨hdir, hread, hwrite, hreaddir, hfinddir, hspecific⟩ := h.resolve_left (by omega)
      refine .inl ⟨hmp, p, hroot, ?_⟩
      rw [hnode]
      exact ⟨hdir, hread.trans (hroots .read).symm, hwrite.trans (hroots .write).symm,
        hreaddir.trans (hroots .readdir).symm, hfinddir.trans (hroots .finddir).symm,
        hspecific.trans (hroots .fsSpecific).symm⟩
  · refine iff_of_true (takesEffect_of_not_mounted fun ops root w hf hm => ?_) (.inl hlt)
    cases hfs.symm.trans hf
    rw [hmount] at hm
    rw [hm] at hnone
    cases hnone

end

/-- The state after the kernel's `vfs_initialize` and `memfs_initialize`. -/
def bootVfs : Vfs Memfs :=
  memfsInitialize (vfsInitialize ⟨⟨.initial, ⟨fun _ => ⟨.empty, 0, none, false, []⟩, 0⟩⟩, none,
    fun _ => .free, []⟩)

/-- **The kernel's own mount**, `vfs_mount("memdisk", "/", "memfs")`, returns `0`, and `/` still
leads to the node of `vfs_initialize`, which has no functions. -/
theorem not_forall_mountTakesEffect :
    ¬ MountTakesEffect memfsDrivers bootVfs ⟨ascii ['m', 'e', 'm', 'd', 'i', 's', 'k'], by decide⟩
      ⟨[slash], by decide⟩ memfsName := by
  rw [mount_memfs_iff (p := 0) ⟨by decide +kernel, by decide +kernel⟩ (by decide +kernel) (by decide +kernel)
    (by decide +kernel) rfl]
  decide +kernel

end Basedos.Fs
