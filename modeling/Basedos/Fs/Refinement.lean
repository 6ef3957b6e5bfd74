import Basedos.Fs.Content
import Basedos.Fs.AccessModes
import Basedos.Fs.Files

/-!
# The file calls on a memory file system refine byte arrays

The calls of `vfs.c` on the memory file system, against the model of `Basedos.Fs.Files`.

## What is proved

* `step_refines` — **one call**: from related states, if no `kmalloc` returns `NULL` and
  the call is admissible, the code and the model answer alike and stay related.
* `run_refines` — **any run of calls**, with any number of descriptors on any number of
  files in any interleaving, from the memory file system just mounted with empty files.

The relation (`Refines`) gives each descriptor in use a node of its own in the heap, for
the same inode and at the same position, and each file's block the model's bytes; the
nodes and the blocks are kept apart by `Sound`.
-/

namespace Basedos.Fs

open Basedos.Lib Basedos.CLib Basedos.Kernel

/-! ### Failures are never uncounted -/

theorem failures_le_vfsFinddir (w : World Memfs) (current : Ptr) (name : List UInt8) :
    w.heap.failures ≤ (vfsFinddir memfsDrivers w current name).2.heap.failures := by
  unfold vfsFinddir
  split
  · exact le_rfl
  · split
    · simp only [memfsDrivers, memfsFinddir]
      split
      · split
        · exact le_rfl
        · split
          · exact le_rfl
          · simpa using failures_le_kmalloc _ _
      · exact le_rfl
    · exact le_rfl

theorem failures_le_lookupPieces (w : World Memfs) (current : Ptr) (ps : List (List UInt8)) :
    w.heap.failures ≤ (lookupPieces memfsDrivers w current ps).2.heap.failures := by
  induction ps generalizing w current with
  | nil => exact le_rfl
  | cons p ps ih =>
    have hfind := failures_le_vfsFinddir w current p
    rw [lookupPieces]
    split
    · exact le_rfl
    · rcases hr : vfsFinddir memfsDrivers w current p with ⟨_ | next, w'⟩ <;> rw [hr] at hfind
      · exact hfind
      · exact hfind.trans (ih _ _)

theorem failures_le_vfsOpen (w : World Memfs) (fsRoot : Ptr) (path : List UInt8) (flags : UInt32) :
    w.heap.failures ≤ (vfsOpen memfsDrivers w fsRoot path flags).2.heap.failures := by
  by_cases habs : path.head? = some slash
  · obtain ⟨rest, rfl⟩ := List.head?_eq_some_iff.mp habs
    rw [vfsOpen_absolute]
    exact failures_le_lookupPieces _ _ _
  · rw [vfsOpen_relative habs]

theorem failures_le_memfsWrite (w : World Memfs) (node offset size : UInt32) (buffer : Mem) :
    w.heap.failures ≤ (memfsWrite w node offset size buffer).2.heap.failures := by
  simp only [memfsWrite]
  split
  · exact le_rfl
  · simp only [failures_copyIn]
    split
    · rw [failures_growInode]
      exact failures_le_kmalloc _ _
    · exact le_rfl

/-- Reading changes nothing but the buffer. -/
theorem world_memfsRead (w : World Memfs) (node offset size : UInt32) (buffer : Mem) :
    (memfsRead w node offset size buffer).2.2 = w := by
  simp only [memfsRead]
  split
  · rfl
  · split <;> rfl

/-- No call lowers the count of failures. -/
theorem failures_le_fdStep (s : Vfs Memfs) (c : Call) :
    s.world.heap.failures ≤ (fdStep memfsDrivers s c).2.world.heap.failures := by
  cases c with
  | open_ filename flags =>
    cases hi : findFree s.fileDescriptors with
    | none => simp only [fdStep, fdOpen, hi]; exact le_rfl
    | some i =>
      have hopen := failures_le_vfsOpen s.world s.fsRoot filename.bytes flags
      simp only [fdStep, fdOpen_memfs hi]
      rcases hr : vfsOpen memfsDrivers s.world s.fsRoot filename.bytes flags with ⟨_ | p, w⟩ <;>
        rw [hr] at hopen <;> exact hopen
  | close fd =>
    simp only [fdStep, fdClose, memfsDrivers, ite_self]
    split <;> exact le_rfl
  | read fd buf size =>
    simp only [fdStep, fdRead, vfsRead, memfsDrivers]
    split
    · exact le_rfl
    · split
      · exact le_rfl
      · simp only [Vfs.setFd]
        split
        · split
          · rw [world_memfsRead]
          · exact le_rfl
        · exact le_rfl
  | write fd buf size =>
    simp only [fdStep, fdWrite, vfsWrite, memfsDrivers]
    split
    · exact le_rfl
    · split
      · exact le_rfl
      · simp only [Vfs.setFd]
        split
        · split
          · exact failures_le_memfsWrite _ _ _ _ _
          · exact le_rfl
        · exact le_rfl
  | lseek fd offset whence =>
    simp only [fdStep, fdLseek]
    split
    · exact le_rfl
    · split
      · exact le_rfl
      · split
        · exact le_rfl
        · split <;> exact le_rfl

/-! ### The relation -/

/-- The nodes in use: the root's, and one for each descriptor. -/
def InUse (d : Memfs) (root : UInt32) (table : Fin 64 → FileDescriptor) (handles : Fin 64 → Option Handle)
    (p i : UInt32) : Prop :=
  (p = root ∧ i = d.rootNode) ∨
    ∃ k h, handles k = some h ∧ (table k).node = some p ∧ h.inode = i

/-- The state of the code and that of the model, on the tree `d`. -/
structure Refines (d : Memfs) (root : UInt32) (s : Vfs Memfs) (m : Files) : Prop where
  fsRoot : s.fsRoot = some root
  isDir : (d.inode d.rootNode).isDir = true
  tree : SameTree d s.world.data
  sound : Sound s.world (InUse d root s.fileDescriptors m.handles)
  free : ∀ k, m.handles k = none → (s.fileDescriptors k).node = none
  live : ∀ k h, m.handles k = some h → ∃ p, s.fileDescriptors k = ⟨some p, UInt32.ofNat h.pos, O_RDWR⟩
  bounded : ∀ k h, m.handles k = some h → h.pos < 2 ^ 31
  content : ∀ i, s.world.content i = m.content i

variable {d : Memfs} {root : UInt32} {s : Vfs Memfs} {m : Files}

theorem Refines.mounted (h : Refines d root s m) : Mounted s.world root where
  ok := h.sound.ok
  nodeFor := by
    rw [h.tree.rootNode]
    exact h.sound.node (.inl ⟨rfl, rfl⟩)
  isDir := by rw [h.tree.rootNode, h.tree.isDir, h.isDir]

/-- A path resolves in the tree there is as in the one there was. -/
theorem Refines.resolve (h : Refines d root s m) (path : List UInt8) :
    s.world.data.resolve path = d.resolve path := by
  cases path with
  | nil => rfl
  | cons c rest => simp only [Memfs.resolve, h.tree.rootNode, h.tree.follow]

theorem Refines.findFree_eq (h : Refines d root s m) : findFree s.fileDescriptors = m.free := by
  unfold findFree Files.free
  congr 1
  funext k
  cases hk : m.handles k with
  | none => rw [h.free k hk]; rfl
  | some g =>
    obtain ⟨p, hp⟩ := h.live k g hk
    rw [hp]
    rfl

/-- A descriptor is in use in the code when it is in the model. -/
theorem Refines.lookup_none (h : Refines d root s m) {fd : Int32} (hfd : m.handle fd = none) :
    s.lookup fd = none := by
  unfold Files.handle at hfd
  unfold Vfs.lookup
  cases hs : slot fd with
  | none => rfl
  | some k =>
    rw [hs, Option.bind_some, Option.map_eq_none_iff] at hfd
    simp only [h.free k hfd, Option.map_none]

theorem Refines.lookup_some (h : Refines d root s m) {fd : Int32} {k : Fin 64} {g : Handle}
    (hfd : m.handle fd = some (k, g)) :
    ∃ p, s.lookup fd = some (k, p) ∧ s.fileDescriptors k = ⟨some p, UInt32.ofNat g.pos, O_RDWR⟩ ∧
      m.handles k = some g ∧ NodeFor s.world p g.inode ∧ InUse d root s.fileDescriptors m.handles p g.inode := by
  unfold Files.handle at hfd
  cases hs : slot fd with
  | none => rw [hs] at hfd; cases hfd
  | some j =>
    rw [hs, Option.bind_some, Option.map_eq_some_iff] at hfd
    obtain ⟨g', hg, heq⟩ := hfd
    cases heq
    obtain ⟨p, hp⟩ := h.live k g hg
    have huse : InUse d root s.fileDescriptors m.handles p g.inode := .inr ⟨k, g, hg, by rw [hp], rfl⟩
    exact ⟨p, lookup_eq_some.mpr ⟨hs, by rw [hp]⟩, hp, hg, h.sound.node huse, huse⟩

/-! ### The descriptor table, changed -/

/-- A descriptor put on a node that is apart from the blocks, in a state with these contents. -/
theorem Refines.setFd (h : Refines d root s m) {w : World Memfs} {content : UInt32 → List UInt8}
    (htree : SameTree d w.data) (hsound : Sound w (InUse d root s.fileDescriptors m.handles)) (k : Fin 64)
    {p c : UInt32} (hp : NodeFor w p c)
    (hapart : ∀ i a, (w.data.inode i).data = some a → Apart a (w.data.inode i).size.toNat p 312) {pos : ℕ}
    (hpos : pos < 2 ^ 31) (hcontent : ∀ i, w.content i = content i) :
    Refines d root ({ s with world := w }.setFd k ⟨some p, UInt32.ofNat pos, O_RDWR⟩)
      ({ m with content := content }.setHandle k (some ⟨c, pos⟩)) where
  fsRoot := h.fsRoot
  isDir := h.isDir
  tree := htree
  sound := by
    refine hsound.insert hp hapart ?_
    rintro q i (⟨rfl, rfl⟩ | ⟨j, g, hg, hq, rfl⟩)
    · exact .inl (.inl ⟨rfl, rfl⟩)
    · by_cases hj : j = k
      · subst hj
        simp only [Files.setHandle, Vfs.setFd, Function.update_self, Option.some.injEq] at hg hq
        subst hg hq
        exact .inr ⟨rfl, rfl⟩
      · simp only [Files.setHandle, Vfs.setFd, Function.update_of_ne hj] at hg hq
        exact .inl (.inr ⟨j, g, hg, hq, rfl⟩)
  free j hj := by
    by_cases hjk : j = k
    · subst hjk; simp [Files.setHandle] at hj
    · simp only [Files.setHandle, Vfs.setFd, Function.update_of_ne hjk] at hj ⊢
      exact h.free j hj
  live j g hg := by
    by_cases hjk : j = k
    · subst hjk
      simp only [Files.setHandle, Vfs.setFd, Function.update_self, Option.some.injEq] at hg ⊢
      exact ⟨p, by rw [← hg]⟩
    · simp only [Files.setHandle, Vfs.setFd, Function.update_of_ne hjk] at hg ⊢
      exact h.live j g hg
  bounded j g hg := by
    by_cases hjk : j = k
    · subst hjk
      simp only [Files.setHandle, Function.update_self, Option.some.injEq] at hg
      exact hg ▸ hpos
    · simp only [Files.setHandle, Function.update_of_ne hjk] at hg
      exact h.bounded j g hg
  content := hcontent

/-- A descriptor closed. -/
theorem Refines.closeFd (h : Refines d root s m) (k : Fin 64) :
    Refines d root (s.setFd k .free) (m.setHandle k none) where
  fsRoot := h.fsRoot
  isDir := h.isDir
  tree := h.tree
  sound := by
    refine h.sound.mono ?_
    rintro q i (⟨rfl, rfl⟩ | ⟨j, g, hg, hq, rfl⟩)
    · exact .inl ⟨rfl, rfl⟩
    · by_cases hj : j = k
      · subst hj; simp [Files.setHandle] at hg
      · simp only [Files.setHandle, Vfs.setFd, Function.update_of_ne hj] at hg hq
        exact .inr ⟨j, g, hg, hq, rfl⟩
  free j hj := by
    by_cases hjk : j = k
    · subst hjk; simp [Vfs.setFd, FileDescriptor.free]
    · simp only [Files.setHandle, Vfs.setFd, Function.update_of_ne hjk] at hj ⊢
      exact h.free j hj
  live j g hg := by
    by_cases hjk : j = k
    · subst hjk; simp [Files.setHandle] at hg
    · simp only [Files.setHandle, Vfs.setFd, Function.update_of_ne hjk] at hg ⊢
      exact h.live j g hg
  bounded j g hg := by
    by_cases hjk : j = k
    · subst hjk; simp [Files.setHandle] at hg
    · simp only [Files.setHandle, Function.update_of_ne hjk] at hg
      exact h.bounded j g hg
  content := h.content

/-- Nodes made, and none of them put in the table. -/
theorem Refines.grown (h : Refines d root s m) {w : World Memfs} {n : ℕ} (hg : Grown s.world w n) :
    Refines d root { s with world := w } m where
  fsRoot := h.fsRoot
  isDir := h.isDir
  tree := by rw [hg.data]; exact h.tree
  sound := (h.sound.grown hg).1
  free := h.free
  live := h.live
  bounded := h.bounded
  content i := ((h.sound.grown hg).2 i).trans (h.content i)

/-! ### One call -/

/-- The code and the model give the same reply and go to related states. -/
def Agrees (d : Memfs) (root : UInt32) (s : Vfs Memfs) (m : Files) (c : Call) : Prop :=
  (fdStep memfsDrivers s c).1 = (filesStep d m c).1 ∧
    Refines d root (fdStep memfsDrivers s c).2 (filesStep d m c).2

theorem open_agrees (h : Refines d root s m) (filename : CStr)
    (hmem : (fdOpen memfsDrivers s filename O_RDWR).2.world.heap.failures = s.world.heap.failures) :
    Agrees d root s m (.open_ filename O_RDWR) := by
  cases hk : m.free with
  | none =>
    have hopen : fdOpen memfsDrivers s filename O_RDWR = (-1, s) := by rw [fdOpen, h.findFree_eq, hk]
    simp only [Agrees, fdStep, filesStep, hopen, hk, true_and]
    exact h
  | some k =>
    have hfree := h.findFree_eq.trans hk
    rw [fdOpen_world hfree, h.fsRoot] at hmem
    obtain ⟨r, w, n, heq, hg, hcase⟩ := vfsOpen_memory h.mounted filename.noNul hmem
    have hopen := fdOpen_memfs hfree filename O_RDWR
    rw [← h.fsRoot] at heq
    rw [heq] at hopen
    rw [h.resolve] at hcase
    rcases hcase with ⟨hnone, rfl⟩ | ⟨c, q, hsome, rfl, hq, hqroot⟩
    · simp only [Agrees, fdStep, filesStep, hopen, hk, hnone, true_and]
      exact h.grown hg
    · obtain ⟨hsound, hcontent⟩ := h.sound.grown hg
      simp only [Agrees, fdStep, filesStep, hopen, hk, hsome, true_and]
      refine h.setFd (by rw [hg.data]; exact h.tree) hsound k hq ?_ (by decide : 0 < 2 ^ 31)
        fun i => (hcontent i).trans (h.content i)
      -- the node is the root's, or lies where no block did
      intro i a ha
      rcases hqroot with rfl | hge
      · exact hsound.apartNode ha (.inl ⟨rfl, rfl⟩)
      · rw [hg.data] at ha ⊢
        exact .inl ((h.sound.below ha).trans hge)

theorem close_agrees (h : Refines d root s m) (fd : Int32) : Agrees d root s m (.close fd) := by
  cases hfd : m.handle fd with
  | none =>
    simp only [Agrees, fdStep, filesStep, fdClose, h.lookup_none hfd, hfd, true_and]
    exact h
  | some kg =>
    obtain ⟨k, g⟩ := kg
    obtain ⟨p, hl, -⟩ := h.lookup_some hfd
    simp only [Agrees, fdStep, filesStep, fdClose, hl, hfd, memfsDrivers, ite_self, true_and]
    exact h.closeFd k

/-- The access mode of a descriptor opened to be read and written. -/
theorem O_RDWR_allows : ¬(O_RDWR &&& O_RDONLY = 0 ∧ O_RDWR &&& O_RDWR = 0) ∧
    ¬(O_RDWR &&& O_WRONLY = 0 ∧ O_RDWR &&& O_RDWR = 0) := by decide

theorem memfsReadAddr_ne_zero : memfsReadAddr ≠ 0 := by decide

theorem memfsWriteAddr_ne_zero : memfsWriteAddr ≠ 0 := by decide

theorem read_agrees (h : Refines d root s m) {fd : Int32} {buf : Mem} {size : UInt32}
    (hadm : Admissible m (.read fd buf size)) : Agrees d root s m (.read fd buf size) := by
  cases hfd : m.handle fd with
  | none =>
    simp only [Agrees, fdStep, filesStep, fdRead, h.lookup_none hfd, hfd, true_and]
    exact h
  | some kg =>
    obtain ⟨k, g⟩ := kg
    obtain ⟨p, hl, hdesc, hg, hp, huse⟩ := h.lookup_some hfd
    have hpos : g.pos + size.toNat < 2 ^ 31 := hadm (k, g) hfd
    have hposNat : (UInt32.ofNat g.pos).toNat = g.pos := toNat_ofNat (by omega)
    have hno : (UInt32.ofNat g.pos).toNat + size.toNat < 2 ^ 32 := by omega
    have hread := memfsRead_eq (h.sound.fileBlock g.inode) hp.fsSpecific hno buf
    rw [hposNat, h.content] at hread
    have hcall : fdRead memfsDrivers s fd buf size =
        (Int32.ofNat (((m.content g.inode).drop g.pos).take size.toNat).length,
          buf.put 0 (((m.content g.inode).drop g.pos).take size.toNat),
          s.setFd k ⟨some p, UInt32.ofNat (g.pos +
            (((m.content g.inode).drop g.pos).take size.toNat).length), O_RDWR⟩) := by
      simp only [fdRead, hl, hdesc, if_neg O_RDWR_allows.1, vfsRead, hp.read, ne_eq, memfsReadAddr_ne_zero,
        not_false_eq_true, if_true, memfsDrivers, hread, UInt32.ofNat_add]
      rfl
    simp only [Agrees, fdStep, filesStep, hcall, hfd, true_and]
    refine h.setFd h.tree h.sound k hp (fun i a ha => h.sound.apartNode ha huse) ?_ h.content
    rw [List.length_take]
    omega

theorem write_agrees (h : Refines d root s m) {fd : Int32} {buf : Mem} {size : UInt32}
    (hadm : Admissible m (.write fd buf size))
    (hmem : (fdWrite memfsDrivers s fd buf size).2.world.heap.failures = s.world.heap.failures) :
    Agrees d root s m (.write fd buf size) := by
  cases hfd : m.handle fd with
  | none =>
    simp only [Agrees, fdStep, filesStep, fdWrite, h.lookup_none hfd, hfd, true_and]
    exact h
  | some kg =>
    obtain ⟨k, g⟩ := kg
    obtain ⟨p, hl, hdesc, hg, hp, huse⟩ := h.lookup_some hfd
    have hpos : g.pos + size.toNat < 2 ^ 31 := hadm (k, g) hfd
    have hposNat : (UInt32.ofNat g.pos).toNat = g.pos := toNat_ofNat (by omega)
    have hlen := Mem.length_bytes buf 0 size.toNat
    have hcall : fdWrite memfsDrivers s fd buf size =
        ((memfsWrite s.world p (UInt32.ofNat g.pos) size buf).1.toInt32,
          { s with world := (memfsWrite s.world p (UInt32.ofNat g.pos) size buf).2 }.setFd k
            ⟨some p, UInt32.ofNat g.pos + (memfsWrite s.world p (UInt32.ofNat g.pos) size buf).1, O_RDWR⟩) := by
      simp only [fdWrite, hl, hdesc, if_neg O_RDWR_allows.2, vfsWrite, hp.write, ne_eq,
        memfsWriteAddr_ne_zero, not_false_eq_true, if_true, memfsDrivers]
    rw [hcall] at hmem
    cases hdir : (s.world.data.inode g.inode).isDir with
    | true =>
      rw [memfsWrite_dir hp hdir] at hcall
      rw [h.tree.isDir] at hdir
      simp only [Agrees, fdStep, filesStep, hcall, hfd, hdir, if_true, UInt32.add_zero]
      refine ⟨rfl, ?_⟩
      have hsame : s.setFd k ⟨some p, UInt32.ofNat g.pos, O_RDWR⟩ = s := by
        rw [Vfs.setFd, ← hdesc, Function.update_eq_self]
      rw [hsame]
      exact h
    | false =>
      obtain ⟨w, hwrite, hsound, htree, hothers, hself⟩ :=
        memfsWrite_sound h.sound hp hdir (by rw [hposNat]; exact hpos) hmem
      rw [h.tree.isDir] at hdir
      rw [hwrite] at hcall
      have hsize : size = UInt32.ofNat (buf.bytes 0 size.toNat).length := by rw [hlen, UInt32.ofNat_toNat]
      have hret : size.toInt32 = Int32.ofNat (buf.bytes 0 size.toNat).length :=
        congrArg UInt32.toInt32 hsize
      simp only [Agrees, fdStep, filesStep, hcall, hfd, hdir, Bool.false_eq_true, if_false]
      refine ⟨by rw [hret], ?_⟩
      have hpos' : g.pos + (buf.bytes 0 size.toNat).length < 2 ^ 31 := by rw [hlen]; exact hpos
      have hcontent : ∀ i, w.content i = Function.update m.content g.inode
          (patch (m.content g.inode) g.pos (buf.bytes 0 size.toNat)) i := by
        intro i
        by_cases hi : i = g.inode
        · subst hi
          rw [Function.update_self, hself, h.content, hposNat]
        · rw [Function.update_of_ne hi, hothers i hi, h.content]
      have hset := h.setFd (h.tree.trans htree) hsound k (hsound.node huse)
        (fun i a ha => hsound.apartNode ha huse) hpos' hcontent
      rw [UInt32.ofNat_add, ← hsize] at hset
      exact hset

/-- Words and signed words of the same bits. -/
theorem eq_ofNat_of_toInt32 {x : UInt32} {z : ℤ} (hz : 0 ≤ z) (h : x.toInt32 = Int32.ofInt z) :
    x = UInt32.ofNat z.toNat := by
  obtain ⟨n, rfl⟩ := Int.eq_ofNat_of_zero_le hz
  rw [← UInt32.toUInt32_toInt32 x, h, Int32.ofInt_eq_ofNat]
  rfl

/-- The position `lseek` computes. -/
theorem seek_toInt32 (n : ℕ) (x : Int32) :
    (UInt32.ofNat n + x.toUInt32).toInt32 = Int32.ofInt (n + x.toInt) := by
  rw [Int32.ofInt_add]
  simp only [UInt32.toInt32_add, Int32.toInt32_toUInt32, Int32.ofInt_toInt, Int32.ofInt_eq_ofNat]
  rfl

theorem lseek_agrees (h : Refines d root s m) {fd offset whence : Int32}
    (hadm : Admissible m (.lseek fd offset whence)) : Agrees d root s m (.lseek fd offset whence) := by
  cases hfd : m.handle fd with
  | none =>
    simp only [Agrees, fdStep, filesStep, fdLseek, h.lookup_none hfd, hfd, true_and]
    exact h
  | some kg =>
    obtain ⟨k, g⟩ := kg
    obtain ⟨p, hl, hdesc, hg, hp, huse⟩ := h.lookup_some hfd
    obtain ⟨hwhence, hnonneg, hlt⟩ := hadm (k, g) hfd
    have hcall : fdLseek s fd offset whence = (Int32.ofInt (seekTo g.pos offset whence),
        s.setFd k ⟨some p, UInt32.ofNat (seekTo g.pos offset whence).toNat, O_RDWR⟩) := by
      rcases hwhence with rfl | rfl
      · have hpos : offset.toUInt32 = UInt32.ofNat (seekTo g.pos offset SEEK_SET).toNat :=
          eq_ofNat_of_toInt32 hnonneg (by simp [seekTo])
        simp only [fdLseek, hl, hdesc, if_true, ← hpos]
        simp [seekTo]
      · have hset : SEEK_CUR ≠ SEEK_SET := by decide
        have hseek : seekTo g.pos offset SEEK_CUR = g.pos + offset.toInt := if_neg hset
        rw [hseek] at hnonneg ⊢
        simp only [fdLseek, hl, hdesc, if_neg hset, if_true,
          ← eq_ofNat_of_toInt32 hnonneg (seek_toInt32 g.pos offset), seek_toInt32]
    simp only [Agrees, fdStep, filesStep, hcall, hfd, true_and]
    exact h.setFd h.tree h.sound k hp (fun i a ha => h.sound.apartNode ha huse) (by simp only at hlt; omega)
      h.content

/-- **One call.** -/
theorem step_refines (h : Refines d root s m) {c : Call} (hadm : Admissible m c)
    (hmem : (fdStep memfsDrivers s c).2.world.heap.failures = s.world.heap.failures) :
    Agrees d root s m c := by
  cases c with
  | open_ filename flags =>
    obtain rfl : flags = O_RDWR := hadm
    exact open_agrees h filename hmem
  | close fd => exact close_agrees h fd
  | read fd buf size => exact read_agrees h hadm
  | write fd buf size => exact write_agrees h hadm hmem
  | lseek fd offset whence => exact lseek_agrees h hadm

/-! ### Any run -/

/-- The memory file system at the root, all its files empty, no descriptor in use, and the rest of
the heap as it was when the kernel was loaded. -/
structure Fresh (s : Vfs Memfs) (root : UInt32) : Prop where
  mounted : Mounted s.world root
  fsRoot : s.fsRoot = some root
  table : ∀ k, (s.fileDescriptors k).node = none
  size : ∀ i, (s.world.data.inode i).size = 0
  data : ∀ i, (s.world.data.inode i).data = none
  zero : ∀ x : UInt32, s.world.heap.heapPos.toNat ≤ x.toNat → x.toNat < 0x10000 → s.world.heap.mem x = 0

/-- `memfs_mount` makes it so, given a heap that is zero above its position. -/
theorem memfsMount_fresh {w : World Memfs} (hok : w.heap.Ok)
    (hdir : (w.data.inode w.data.rootNode).isDir = true) (hsize : ∀ i, (w.data.inode i).size = 0)
    (hdata : ∀ i, (w.data.inode i).data = none)
    (hzero : ∀ x : UInt32, w.heap.heapPos.toNat ≤ x.toNat → x.toNat < 0x10000 → w.heap.mem x = 0)
    {device : CStr} (h : (memfsMount w device).1 = some root) (filesystems : List FilesystemOps) :
    Fresh ⟨(memfsMount w device).2, some root, fun _ => .free, filesystems⟩ root := by
  obtain ⟨hmounted, hg⟩ := memfsMount_mounted hok hdir h
  refine ⟨hmounted, rfl, fun _ => rfl, ?_, ?_, ?_⟩
  · simp only [hg.data]; exact hsize
  · simp only [hg.data]; exact hdata
  · intro x hx hx'
    have := hg.heapPos
    simp only at hx ⊢
    rw [hg.above x hx, hzero x (by omega) hx']

/-- Such a state is that of files that are all empty. -/
theorem Fresh.refines (h : Fresh s root) : Refines s.world.data root s .initial where
  fsRoot := h.fsRoot
  isDir := h.mounted.isDir
  tree := .refl _
  sound :=
    { ok := h.mounted.ok
      node := by
        rintro p i (⟨rfl, rfl⟩ | ⟨k, g, hg, -⟩)
        · exact h.mounted.nodeFor
        · cases hg
      empty := fun _ => h.size _
      aligned := fun hd => by rw [h.data] at hd; cases hd
      below := fun hd => by rw [h.data] at hd; cases hd
      apart := fun _ hd => by rw [h.data] at hd; cases hd
      apartNode := fun hd => by rw [h.data] at hd; cases hd
      zero := h.zero }
  free k _ := h.table k
  live _ _ hg := by cases hg
  bounded _ _ hg := by cases hg
  content i := by simp only [World.content, h.data]; rfl

/-- **The file calls refine byte arrays**: over any run of calls that are admissible, with no
`kmalloc` returning `NULL`, every value returned and every byte read is that of the model. -/
theorem run_refines (h : Fresh s root) {calls : List Call}
    (hadm : Along (filesStep s.world.data) Admissible .initial calls)
    (hmem : (run (fdStep memfsDrivers) s calls).2.world.heap.failures = s.world.heap.failures) :
    (run (fdStep memfsDrivers) s calls).1 = (run (filesStep s.world.data) .initial calls).1 := by
  have hstep : ∀ s' m c, Refines s.world.data root s' m →
      (fdStep memfsDrivers s' c).2.world.heap.failures = s'.world.heap.failures → Admissible m c →
      Agrees s.world.data root s' m c := fun _ _ _ hR hP hQ => step_refines hR hQ hP
  exact (run_sim hstep h.refines (along_of_run_eq failures_le_fdStep hmem) hadm).1

theorem smallVfs_fresh : Fresh smallVfs 0 :=
  memfsMount_fresh Heap.initial_ok rfl (fun i => by simp only [smallTree]; split_ifs <;> rfl)
    (fun i => by simp only [smallTree]; split_ifs <;> rfl) (fun _ _ _ => rfl) rfl [memfsOps]

/-- Two descriptors on `/d/f`: the file grows through one, then past a gap through the other. -/
def smallCalls : List Call :=
  let path : CStr := ⟨ascii ['/', 'd', '/', 'f'], by decide⟩
  [.open_ path O_RDWR, .open_ path O_RDWR, .write 0 (bufferOf (ascii ['a', 'b', 'c'])) 3,
    .lseek 1 5 SEEK_SET, .write 1 (bufferOf (ascii ['z'])) 1, .read 0 (bufferOf []) 10]

/-- What is read is the gap and the byte after it. -/
theorem run_refines_small : (run (fdStep memfsDrivers) smallVfs smallCalls).1.map
    (fun r => (r.ret, r.buf.map fun b => b.bytes 0 3)) =
      [(0, none), (1, none), (3, none), (5, none), (1, none), (3, some (0 :: 0 :: ascii ['z']))] := by
  rw [run_refines smallVfs_fresh (by decide +kernel) (by decide +kernel)]
  decide +kernel

end Basedos.Fs
