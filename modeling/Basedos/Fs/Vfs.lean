import Basedos.Fs.Node
import Basedos.Lib.Run
import Mathlib.Data.Fin.Tuple.Basic
import Mathlib.Data.List.FinRange

/-!
# The virtual file system

`fs/vfs.c`: the global root, the table of registered file systems, path lookup, and
the POSIX-like calls on a table of 64 file descriptors.

## The model

The kernel's memory is a `World`: the heap, where the nodes lie, and whatever data
of its own a file system keeps (`D`). A node's functions are reached through the
addresses stored in it, and what the code at an address does is given by `Drivers`,
of which nothing is assumed here: a file system may do anything to the heap and to
its own data, but not to the static variables of `vfs.c`, which it cannot name.

A buffer a caller passes is a memory of its own, counted from the start of the
buffer: `read` gives back the buffer as it is left.

`next_fd` is written and never read, and is left out, as is the `unmount` function of a
file system, which nothing here calls.
-/

namespace Basedos.Fs

open Basedos.Lib Basedos.CLib Basedos.Kernel

/-! ### Constants -/

def FS_FILE : UInt32 := 0x01
def FS_DIRECTORY : UInt32 := 0x02

def O_RDONLY : UInt32 := 0x0000
def O_WRONLY : UInt32 := 0x0001
def O_RDWR : UInt32 := 0x0002
def O_CREAT : UInt32 := 0x0100

def SEEK_SET : Int32 := 0
def SEEK_CUR : Int32 := 1
def SEEK_END : Int32 := 2

/-- `MAX_FILESYSTEMS`. -/
def MAX_FILESYSTEMS : ℕ := 8

/-- The character `/`. -/
def slash : UInt8 := 47

/-! ### The state -/

/-- `file_descriptor_t`. -/
structure FileDescriptor where
  /-- The node this descriptor points to. -/
  node : Ptr
  /-- The position in the file. -/
  pos : UInt32
  /-- The flags used when opening the file. -/
  flags : UInt32
  deriving DecidableEq

/-- `filesystem_ops_t`, with the address of its `mount`. -/
structure FilesystemOps where
  /-- The name of the file system. -/
  name : CStr
  /-- Its mount function. -/
  mount : UInt32
  deriving DecidableEq

universe u

/-- The memory the calls work on: the heap, and the data of the file systems. -/
structure World (D : Type u) where
  /-- The heap. -/
  heap : Heap
  /-- The file systems' own data. -/
  data : D

/-- What the code at an address does, when called as one of the functions of a node. -/
structure Drivers (D : Type u) where
  /-- `node->read(node, offset, size, buffer)`: the count, and the buffer after it. -/
  read : UInt32 → World D → UInt32 → UInt32 → UInt32 → Mem → UInt32 × Mem × World D
  /-- `node->write(node, offset, size, buffer)`. -/
  write : UInt32 → World D → UInt32 → UInt32 → UInt32 → Mem → UInt32 × World D
  /-- `node->open(node, flags)`. -/
  open_ : UInt32 → World D → UInt32 → UInt32 → World D
  /-- `node->close(node)`. -/
  close : UInt32 → World D → UInt32 → World D
  /-- `node->finddir(node, name)`. -/
  finddir : UInt32 → World D → UInt32 → List UInt8 → Ptr × World D
  /-- `fs_ops->mount(device)`. -/
  mount : UInt32 → World D → CStr → Ptr × World D

/-- `dirent_t`. -/
structure Dirent where
  /-- `d_ino`. -/
  dIno : UInt32
  /-- `d_name`. -/
  dName : CStr
  deriving DecidableEq

/-- The same, with what the code does as a node's `readdir`. -/
structure DirDrivers (D : Type u) extends Drivers D where
  /-- `node->readdir(node, index)`. -/
  readdir : UInt32 → World D → UInt32 → UInt32 → Option Dirent × World D

/-- The static variables of `vfs.c`, with the memory. -/
structure Vfs (D : Type u) where
  /-- The memory. -/
  world : World D
  /-- `fs_root`. -/
  fsRoot : Ptr
  /-- `file_descriptors`. -/
  fileDescriptors : Fin 64 → FileDescriptor
  /-- `filesystems`, the first `num_filesystems` of them. -/
  filesystems : List FilesystemOps

variable {D : Type u} (K : Drivers D)

/-- The node at an address. -/
def World.node (w : World D) (p : UInt32) : FsNode := loadNode w.heap.mem p

/-- A read or a write through `NULL`. -/
def World.nullAccess (w : World D) : World D := { w with heap := w.heap.nullAccess }

/-! ### Start, registration, mounting -/

/-- A descriptor not in use. -/
def FileDescriptor.free : FileDescriptor := ⟨none, 0, 0⟩

/-- `vfs_initialize`. -/
def vfsInitialize (s : Vfs D) : Vfs D :=
  let r := kmalloc s.world.heap nodeSize
  let h := fillNode r.2 r.1 (ascii ['r', 'o', 'o', 't'])
    [(.mask, 0x1FF), (.uid, 0), (.gid, 0), (.flags, FS_DIRECTORY), (.inode, 0), (.length, 0)]
  { world := { s.world with heap := h }, fsRoot := r.1, fileDescriptors := fun _ => .free, filesystems := [] }

/-- `register_filesystem`. -/
def registerFilesystem (s : Vfs D) (ops : FilesystemOps) : Vfs D :=
  if s.filesystems.length ≥ MAX_FILESYSTEMS then s
  else { s with filesystems := s.filesystems ++ [ops] }

/-- The loop of `vfs_mount`: the first registered file system of that name. -/
def findFilesystem (filesystems : List FilesystemOps) (fsType : CStr) : Option FilesystemOps :=
  filesystems.find? fun ops => strcmp ops.name.bytes fsType.bytes = 0

/-- `memcpy` within the heap: byte by byte, first to last. -/
def memcpy (m : Mem) (dest src : UInt32) : ℕ → Mem
  | 0 => m
  | n + 1 => memcpy (m.put dest [m src]) (dest + 1) (src + 1) n

/-- `vfs_mount`. The local `fs_root`, the root the file system's `mount` returned, hides the
global one: the copy is from the node returned to itself, and the global root stays. -/
def vfsMount (s : Vfs D) (device mountpoint fsType : CStr) : Int32 × Vfs D :=
  match findFilesystem s.filesystems fsType with
  | none => (-1, s)
  | some ops =>
    match K.mount ops.mount s.world device with
    | (none, w) => (-1, { s with world := w })
    | (some root, w) =>
      if strcmp mountpoint.bytes [slash] = 0 then
        let m := memcpy w.heap.mem root root nodeSize.toNat
        let m := storeField m root .flags (loadField m root .flags ||| FS_DIRECTORY)
        (0, { s with world := { w with heap := { w.heap with mem := m } } })
      else (0, { s with world := w })

/-! ### Path lookup -/

/-- `vfs_finddir`. -/
def vfsFinddir (w : World D) (node : Ptr) (name : List UInt8) : Ptr × World D :=
  match node with
  | none => (none, w.nullAccess)
  | some p =>
    if (w.node p).flags &&& 0x7 = FS_DIRECTORY ∧ (w.node p).finddir ≠ 0 then
      K.finddir (w.node p).finddir w p name
    else (none, w)

/-- The length of the next component: up to the next `/`, or to the end. -/
def componentLength (path : List UInt8) : ℕ :=
  match strchr path slash with
  | some rest => path.length - rest.length
  | none => path.length

/-- `path += len; if (*path == '/') path++;` -/
def advance (path : List UInt8) (len : ℕ) : List UInt8 :=
  if (path.drop len).head? = some slash then (path.drop len).tail else path.drop len

/-- Every round of the loop moves the path on: an empty component ends at a `/`. -/
theorem length_advance_lt {path : List UInt8} (h : path ≠ []) :
    (advance path (componentLength path)).length < path.length := by
  have hpos : 0 < path.length := List.length_pos_iff.mpr h
  cases hc : strchr path slash with
  | none =>
    simp only [componentLength, hc, advance, List.drop_length]
    simp
    omega
  | some rest =>
    obtain ⟨s₁, s₂, rfl, rfl, -⟩ := strchr_eq_some hc
    have hlen : (s₁ ++ slash :: s₂).length - (slash :: s₂).length = s₁.length := by simp
    simp only [componentLength, hc, advance, hlen, List.drop_left]
    simp
    omega

/-- The loop of `vfs_open`. Whether `O_CREAT` is set makes no difference: the file is not
created. -/
def vfsOpenLoop (flags : UInt32) (w : World D) (current : Ptr) (path : List UInt8) : Ptr × World D :=
  if _h : path = [] then (current, w)
  else
    let len := componentLength path
    if len ≥ 256 then (none, w)
    else
      match vfsFinddir K w current (path.take len) with
      | (none, w) =>
        if flags &&& O_CREAT ≠ 0 ∧ strchr path slash = none then (none, w) else (none, w)
      | (some next, w) => vfsOpenLoop flags w (some next) (advance path len)
termination_by path.length
decreasing_by exact length_advance_lt _h

/-- `vfs_open`. -/
def vfsOpen (w : World D) (fsRoot : Ptr) (filename : List UInt8) (flags : UInt32) : Ptr × World D :=
  match filename with
  | c :: path =>
    if c = slash then
      if path = [] then (fsRoot, w) else vfsOpenLoop K flags w fsRoot path
    else (none, w)
  | [] => (none, w)

/-! ### Calls through a node -/

/-- `vfs_read`. -/
def vfsRead (w : World D) (node offset size : UInt32) (buffer : Mem) : UInt32 × Mem × World D :=
  if (w.node node).read ≠ 0 then K.read (w.node node).read w node offset size buffer else (0, buffer, w)

/-- `vfs_write`. -/
def vfsWrite (w : World D) (node offset size : UInt32) (buffer : Mem) : UInt32 × World D :=
  if (w.node node).write ≠ 0 then K.write (w.node node).write w node offset size buffer else (0, w)

/-- `vfs_close`. -/
def vfsClose (w : World D) (node : UInt32) : World D :=
  if (w.node node).close ≠ 0 then K.close (w.node node).close w node else w

/-- `vfs_readdir`. -/
def vfsReaddir (K : DirDrivers D) (w : World D) (node index : UInt32) : Option Dirent × World D :=
  if (w.node node).readdir ≠ 0 then K.readdir (w.node node).readdir w node index else (none, w)

/-! ### File descriptors -/

/-- The slot a descriptor names, when it is one of `0..63`. -/
def slot (fd : Int32) : Option (Fin 64) :=
  if h : 0 ≤ fd.toInt ∧ fd.toInt < 64 then some ⟨fd.toInt.toNat, by omega⟩ else none

/-- The test all the calls begin with: the slot of a descriptor in use, and its node. -/
def Vfs.lookup (s : Vfs D) (fd : Int32) : Option (Fin 64 × UInt32) :=
  match slot fd with
  | none => none
  | some i => (s.fileDescriptors i).node.map fun p => (i, p)

/-- The loop of `open`: the first slot not in use. -/
def findFree (table : Fin 64 → FileDescriptor) : Option (Fin 64) :=
  (List.finRange 64).find? fun i => (table i).node.isNone

/-- `file_descriptors[i] = d`. -/
def Vfs.setFd (s : Vfs D) (i : Fin 64) (d : FileDescriptor) : Vfs D :=
  { s with fileDescriptors := Function.update s.fileDescriptors i d }

/-- `open`. -/
def fdOpen (s : Vfs D) (filename : CStr) (flags : UInt32) : Int32 × Vfs D :=
  match findFree s.fileDescriptors with
  | none => (-1, s)
  | some fd =>
    match vfsOpen K s.world s.fsRoot filename.bytes flags with
    | (none, w) => (-1, { s with world := w })
    | (some node, w) =>
      let s := { s with world := w }.setFd fd ⟨some node, 0, flags⟩
      let w := if (w.node node).open_ ≠ 0 then K.open_ (w.node node).open_ w node flags else w
      (Int32.ofNat fd, { s with world := w })

/-- `close`. -/
def fdClose (s : Vfs D) (fd : Int32) : Int32 × Vfs D :=
  match s.lookup fd with
  | none => (-1, s)
  | some (i, node) =>
    let w := if (s.world.node node).close ≠ 0 then K.close (s.world.node node).close s.world node else s.world
    (0, { s with world := w }.setFd i .free)

/-- `read`: the value returned, and the buffer after it. -/
def fdRead (s : Vfs D) (fd : Int32) (buf : Mem) (size : UInt32) : Int32 × Mem × Vfs D :=
  match s.lookup fd with
  | none => (-1, buf, s)
  | some (i, node) =>
    let desc := s.fileDescriptors i
    if desc.flags &&& O_RDONLY = 0 ∧ desc.flags &&& O_RDWR = 0 then (-1, buf, s)
    else
      let r := vfsRead K s.world node desc.pos size buf
      (r.1.toInt32, r.2.1, { s with world := r.2.2 }.setFd i { desc with pos := desc.pos + r.1 })

/-- `write`. -/
def fdWrite (s : Vfs D) (fd : Int32) (buf : Mem) (size : UInt32) : Int32 × Vfs D :=
  match s.lookup fd with
  | none => (-1, s)
  | some (i, node) =>
    let desc := s.fileDescriptors i
    if desc.flags &&& O_WRONLY = 0 ∧ desc.flags &&& O_RDWR = 0 then (-1, s)
    else
      let r := vfsWrite K s.world node desc.pos size buf
      (r.1.toInt32, { s with world := r.2 }.setFd i { desc with pos := desc.pos + r.1 })

/-- `lseek`: the new position is returned as it is, as a signed number. -/
def fdLseek (s : Vfs D) (fd offset whence : Int32) : Int32 × Vfs D :=
  match s.lookup fd with
  | none => (-1, s)
  | some (i, node) =>
    let desc := s.fileDescriptors i
    if whence = SEEK_SET then
      (offset, s.setFd i { desc with pos := offset.toUInt32 })
    else if whence = SEEK_CUR then
      ((desc.pos + offset.toUInt32).toInt32, s.setFd i { desc with pos := desc.pos + offset.toUInt32 })
    else if whence = SEEK_END then
      (((s.world.node node).length + offset.toUInt32).toInt32,
        s.setFd i { desc with pos := (s.world.node node).length + offset.toUInt32 })
    else (-1, s)

/-! ### Any call -/

/-- A call. -/
inductive Call where
  | open_ (filename : CStr) (flags : UInt32)
  | close (fd : Int32)
  | read (fd : Int32) (buf : Mem) (size : UInt32)
  | write (fd : Int32) (buf : Mem) (size : UInt32)
  | lseek (fd offset whence : Int32)

/-- What a call gives back: the value returned, and for `read` the buffer. -/
structure Reply where
  /-- The value returned. -/
  ret : Int32
  /-- The buffer of a `read`, as it is left. -/
  buf : Option Mem

/-- One call. -/
def fdStep (s : Vfs D) : Call → Reply × Vfs D
  | .open_ filename flags => let r := fdOpen K s filename flags; (⟨r.1, none⟩, r.2)
  | .close fd => let r := fdClose K s fd; (⟨r.1, none⟩, r.2)
  | .read fd buf size => let r := fdRead K s fd buf size; (⟨r.1, some r.2.1⟩, r.2.2)
  | .write fd buf size => let r := fdWrite K s fd buf size; (⟨r.1, none⟩, r.2)
  | .lseek fd offset whence => let r := fdLseek s fd offset whence; (⟨r.1, none⟩, r.2)

end Basedos.Fs
