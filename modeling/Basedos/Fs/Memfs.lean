import Basedos.Fs.Vfs
import Basedos.Lib.Pieces

/-!
# The memory file system

`fs/memfs.c`: files and directories kept in memory as a tree of inodes, each file's
content a block of the kernel heap.

## The model

An inode is named by its address. The children of a directory, which the source
links through `children` and `next`, are the list of their addresses in that order;
`parent` is never read and is left out. `is_dir` is only ever tested for zero.

What is stored in the `fs_node_t` the functions make is stored in the heap's bytes
(`Basedos.Fs.Node`); of the inodes themselves only the fields are modelled, not
where their 28 bytes lie. The addresses of the functions are whatever the linker
makes them; the model takes some that are not `NULL`.

Creating files is not implemented in the source (`memfs_alloc_inode` returns
`NULL`), so the tree of names never changes; the size and the block of a file do.
-/

namespace Basedos.Fs

open Basedos.Lib Basedos.CLib Basedos.Kernel

/-- `memfs_inode_t`. -/
structure Inode where
  /-- The name. -/
  name : CStr
  /-- The number of bytes of the content. -/
  size : UInt32
  /-- The block that holds the content. -/
  data : Ptr
  /-- Is it a directory? -/
  isDir : Bool
  /-- The children, in the order they are linked. -/
  children : List UInt32

/-- The static variables of `memfs.c`: the inodes, by address, and the root's address. -/
structure Memfs where
  /-- The inode at an address. -/
  inode : UInt32 → Inode
  /-- `root_node`. -/
  rootNode : UInt32

/-! ### The addresses of the functions -/

def memfsReadAddr : UInt32 := 0x2000
def memfsWriteAddr : UInt32 := 0x2100
def memfsOpenAddr : UInt32 := 0x2200
def memfsCloseAddr : UInt32 := 0x2300
def memfsReaddirAddr : UInt32 := 0x2400
def memfsFinddirAddr : UInt32 := 0x2500
def memfsMountAddr : UInt32 := 0x2600

/-! ### The functions -/

/-- The node `memfs_mount` makes of the root. -/
def rootFields (rootNode : UInt32) : List (Field × UInt32) :=
  [(.mask, 0x1FF), (.uid, 0), (.gid, 0), (.flags, FS_DIRECTORY), (.inode, 0), (.length, 0),
   (.read, memfsReadAddr), (.write, memfsWriteAddr), (.open_, memfsOpenAddr),
   (.close, memfsCloseAddr), (.readdir, memfsReaddirAddr), (.finddir, memfsFinddirAddr),
   (.fsSpecific, rootNode)]

/-- `memfs_mount`. -/
def memfsMount (w : World Memfs) (_device : CStr) : Ptr × World Memfs :=
  match kmalloc w.heap nodeSize with
  | (none, h) => (none, { w with heap := h })
  | (some root, h) =>
    (some root,
      { w with heap := fillNode h (some root) (ascii ['r', 'o', 'o', 't']) (rootFields w.data.rootNode) })

/-- The inode a node stands for. -/
def World.inodeOf (w : World Memfs) (node : UInt32) : Inode := w.data.inode (w.node node).fsSpecific

/-- `memfs_read`. -/
def memfsRead (w : World Memfs) (node offset size : UInt32) (buffer : Mem) : UInt32 × Mem × World Memfs :=
  let inode := w.inodeOf node
  if offset ≥ inode.size then (0, buffer, w)
  else
    let size := if offset + size > inode.size then inode.size - offset else size
    match inode.data with
    | some data => (size, buffer.put 0 (w.heap.mem.bytes (data + offset) size.toNat), w)
    | none => (size, buffer, w)

/-- `memcpy(dest + offset, buffer, bs.length)`, with the bytes `bs` of the buffer. -/
def copyIn (h : Heap) (dest : Ptr) (offset : UInt32) (bs : List UInt8) : Heap :=
  match dest with
  | some d => { h with mem := h.mem.put (d + offset) bs }
  | none => if bs = [] then h else h.nullAccess

/-- `memcpy(new_data, data, size); kfree(data);` -/
def moveData (h : Heap) (newData : Ptr) (data size : UInt32) : Heap :=
  let h :=
    match newData with
    | some d => { h with mem := memcpy h.mem d data size.toNat }
    | none => if size = 0 then h else h.nullAccess
  kfree h (some data)

/-- The growth of `memfs_write`: a block of the new size, with the content moved over. -/
def growInode (h : Heap) (inode : Inode) (newSize : UInt32) : Inode × Heap :=
  let r := kmalloc h newSize
  let h :=
    match inode.data with
    | some data => moveData r.2 r.1 data inode.size
    | none => r.2
  ({ inode with data := r.1, size := newSize }, h)

/-- `memfs_write`. -/
def memfsWrite (w : World Memfs) (node offset size : UInt32) (buffer : Mem) : UInt32 × World Memfs :=
  let i := (w.node node).fsSpecific
  let inode := w.data.inode i
  if inode.isDir then (0, w)
  else
    let r := if offset + size > inode.size then growInode w.heap inode (offset + size) else (inode, w.heap)
    let h := copyIn r.2 r.1.data offset (buffer.bytes 0 size.toNat)
    (size, { heap := h, data := { w.data with inode := Function.update w.data.inode i r.1 } })

/-- The node `memfs_finddir` makes of a child. -/
def childFields (child : UInt32) (c : Inode) : List (Field × UInt32) :=
  [(.mask, 0), (.uid, 0), (.gid, 0), (.flags, if c.isDir then FS_DIRECTORY else FS_FILE),
   (.inode, child), (.length, c.size), (.read, memfsReadAddr), (.write, memfsWriteAddr),
   (.open_, memfsOpenAddr), (.close, memfsCloseAddr),
   (.readdir, if c.isDir then memfsReaddirAddr else 0),
   (.finddir, if c.isDir then memfsFinddirAddr else 0), (.fsSpecific, child)]

/-- `memfs_finddir`: the result of `kmalloc` is not tested. -/
def memfsFinddir (w : World Memfs) (node : UInt32) (name : List UInt8) : Ptr × World Memfs :=
  let inode := w.inodeOf node
  if ¬ inode.isDir then (none, w)
  else
    match inode.children.find? fun c => strcmp (w.data.inode c).name.bytes name = 0 with
    | none => (none, w)
    | some child =>
      let c := w.data.inode child
      let r := kmalloc w.heap nodeSize
      (r.1, { w with heap := fillNode r.2 r.1 c.name.bytes (childFields child c) })

/-- What the code at the addresses of these functions does. `memfs_open` and `memfs_close` do
nothing. -/
def memfsDrivers : Drivers Memfs where
  read a w node offset size buffer :=
    if a = memfsReadAddr then memfsRead w node offset size buffer else (0, buffer, w)
  write a w node offset size buffer :=
    if a = memfsWriteAddr then memfsWrite w node offset size buffer else (0, w)
  open_ _ w _ _ := w
  close _ w _ := w
  finddir a w node name := if a = memfsFinddirAddr then memfsFinddir w node name else (none, w)
  mount a w device := if a = memfsMountAddr then memfsMount w device else (none, w)

/-- `memfs_readdir`. The name is copied to a static entry, which has room for one of 255 characters;
the copy of a longer one is not modelled. -/
def memfsReaddir (w : World Memfs) (node index : UInt32) : Option Dirent × World Memfs :=
  let inode := w.inodeOf node
  if ¬ inode.isDir then (none, w)
  else
    match inode.children[index.toNat]? with
    | none => (none, w)
    | some child => (some ⟨child, (w.data.inode child).name⟩, w)

/-- The same functions, with `memfs_readdir`. -/
def memfsDirDrivers : DirDrivers Memfs :=
  { memfsDrivers with
    readdir a w node index := if a = memfsReaddirAddr then memfsReaddir w node index else (none, w) }

/-- `"memfs"`. -/
def memfsName : CStr := ⟨ascii ['m', 'e', 'm', 'f', 's'], by decide⟩

/-- The name of the root inode. -/
def rootName : CStr := ⟨[slash], by decide⟩

/-- `memfs_ops`. -/
def memfsOps : FilesystemOps := ⟨memfsName, memfsMountAddr⟩

/-- `sizeof(memfs_inode_t)`. -/
def inodeSize : UInt32 := 28

/-- `memfs_initialize`: 64 inodes, of which the first is the root, a bitmap of 128 bytes, and
4 MiB of blocks, for which there is no room in the heap. -/
def memfsInitialize (s : Vfs Memfs) : Vfs Memfs :=
  let r := kmalloc s.world.heap (64 * inodeSize)
  let h := match r.1 with
    | some nodes => { r.2 with mem := r.2.mem.put nodes (List.replicate (64 * inodeSize).toNat 0) }
    | none => r.2.nullAccess
  let b := kmalloc h (1024 / 8)
  let h := match b.1 with
    | some bitmap => { b.2 with mem := b.2.mem.put bitmap (List.replicate (1024 / 8) 0) }
    | none => b.2.nullAccess
  let h := (kmalloc h (1024 * 4096)).2
  match r.1 with
  | none => registerFilesystem { s with world := { s.world with heap := h.nullAccess } } memfsOps
  | some root =>
    let rootInode : Inode := ⟨rootName, 0, none, true, []⟩
    registerFilesystem
      { s with world := ⟨h, ⟨Function.update s.world.data.inode root rootInode, root⟩⟩ } memfsOps

@[simp] theorem failures_fillNode (h : Heap) (p : Ptr) (name : List UInt8) (fs : List (Field × UInt32)) :
    (fillNode h p name fs).failures = h.failures := by
  cases p <;> rfl

@[simp] theorem failures_copyIn (h : Heap) (dest : Ptr) (offset : UInt32) (bs : List UInt8) :
    (copyIn h dest offset bs).failures = h.failures := by
  cases dest with
  | none => simp only [copyIn]; split <;> rfl
  | some d => rfl

@[simp] theorem failures_moveData (h : Heap) (newData : Ptr) (data size : UInt32) :
    (moveData h newData data size).failures = h.failures := by
  cases newData with
  | none => simp only [moveData, failures_kfree]; split <;> rfl
  | some d => simp only [moveData, failures_kfree]

theorem failures_growInode (h : Heap) (inode : Inode) (newSize : UInt32) :
    (growInode h inode newSize).2.failures = (kmalloc h newSize).2.failures := by
  unfold growInode
  cases inode.data <;> simp

/-! ### The tree the inodes make -/

variable (d : Memfs)

/-- The first child of that name. -/
def Memfs.child (i : UInt32) (name : List UInt8) : Option UInt32 :=
  (d.inode i).children.find? fun c => (d.inode c).name.bytes = name

/-- One lookup: of a name of fewer than 256 characters, in a directory. -/
def Memfs.lookup (i : UInt32) (name : List UInt8) : Option UInt32 :=
  if name.length < 256 ∧ (d.inode i).isDir then d.child i name else none

/-- The pieces of a path followed one child at a time. -/
def Memfs.follow (i : UInt32) : List (List UInt8) → Option UInt32
  | [] => some i
  | p :: ps => (d.lookup i p).bind fun c => Memfs.follow c ps

/-- How many of the pieces are found before the first that is not. -/
def Memfs.found (i : UInt32) : List (List UInt8) → ℕ
  | [] => 0
  | p :: ps => match d.lookup i p with
    | none => 0
    | some c => Memfs.found c ps + 1

/-- The reference: the inode a path stands for. -/
def Memfs.resolve (path : List UInt8) : Option UInt32 :=
  match path with
  | [] => none
  | c :: rest => if c = slash then d.follow d.rootNode (pieces slash rest) else none

theorem Memfs.resolve_relative {path : List UInt8} (h : path.head? ≠ some slash) : d.resolve path = none := by
  cases path with
  | nil => rfl
  | cons c rest => exact if_neg fun hc => h (by rw [hc]; rfl)

/-- `strcmp` finds the child of that name. -/
theorem find_strcmp (i : UInt32) {name : List UInt8} (hname : 0 ∉ name) :
    ((d.inode i).children.find? fun c => strcmp (d.inode c).name.bytes name = 0) = d.child i name := by
  unfold Memfs.child
  congr 1
  funext c
  rw [decide_eq_decide]
  exact strcmp_eq_zero_iff (d.inode c).name.noNul hname

theorem Memfs.child_name {i c : UInt32} {name : List UInt8} (h : d.child i name = some c) :
    (d.inode c).name.bytes = name := by
  have := List.find?_some h
  simpa using this

/-- The same names in the same directories. -/
structure SameTree (d d' : Memfs) : Prop where
  rootNode : d'.rootNode = d.rootNode
  name : ∀ i, (d'.inode i).name = (d.inode i).name
  isDir : ∀ i, (d'.inode i).isDir = (d.inode i).isDir
  children : ∀ i, (d'.inode i).children = (d.inode i).children

theorem SameTree.refl (d : Memfs) : SameTree d d := ⟨rfl, fun _ => rfl, fun _ => rfl, fun _ => rfl⟩

theorem SameTree.trans {d₁ d₂ d₃ : Memfs} (h₁ : SameTree d₁ d₂) (h₂ : SameTree d₂ d₃) : SameTree d₁ d₃ :=
  ⟨h₂.rootNode.trans h₁.rootNode, fun i => (h₂.name i).trans (h₁.name i),
    fun i => (h₂.isDir i).trans (h₁.isDir i), fun i => (h₂.children i).trans (h₁.children i)⟩

theorem SameTree.follow {d d' : Memfs} (h : SameTree d d') (i : UInt32) (ps : List (List UInt8)) :
    d'.follow i ps = d.follow i ps := by
  have hlookup : ∀ i p, d'.lookup i p = d.lookup i p := fun i p => by
    simp only [Memfs.lookup, Memfs.child, h.isDir, h.children, h.name]
  induction ps generalizing i with
  | nil => rfl
  | cons p ps ih => simp only [Memfs.follow, hlookup, ih]

end Basedos.Fs
