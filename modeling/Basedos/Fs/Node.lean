import Basedos.CLib.String
import Basedos.Kernel.Memory

/-!
# File system nodes in memory

`fs_node_t` of `include/fs/vfs.h` as it lies in the heap: a name of 256 bytes, then
fourteen 32-bit words, 312 bytes in all. A pointer to a function is the function's
address, and `0` is `NULL`.

Every node the kernel makes is made the same way (`makeNode`): a block taken from
`kmalloc` is cleared with `memset`, the name is copied in with `strcpy`, and the
fields are stored one by one. `loadField_makeNode` says what is read back, and
`makeNode_bytes` that nothing outside the 312 bytes changes.
-/

namespace Basedos.Fs

open Basedos.Lib Basedos.CLib Basedos.Kernel

/-- The word fields of `fs_node_t`. -/
inductive Field where
  | mask | uid | gid | flags | inode | length | impl
  | read | write | open_ | close | readdir | finddir | fsSpecific
  deriving DecidableEq

/-- Where a field lies. -/
def Field.offset : Field → UInt32
  | mask => 256 | uid => 260 | gid => 264 | flags => 268 | inode => 272 | length => 276
  | impl => 280 | read => 284 | write => 288 | open_ => 292 | close => 296 | readdir => 300
  | finddir => 304 | fsSpecific => 308

/-- `sizeof(fs_node_t)`. -/
def nodeSize : UInt32 := 312

/-- A node's fields. (Nothing in the kernel reads a node's name back.) -/
structure FsNode where
  /-- The permissions mask. -/
  mask : UInt32
  /-- The owning user. -/
  uid : UInt32
  /-- The owning group. -/
  gid : UInt32
  /-- Includes the node type. -/
  flags : UInt32
  /-- The device-specific number of the file. -/
  inode : UInt32
  /-- The size of the file in bytes. -/
  length : UInt32
  /-- An implementation-defined number. -/
  impl : UInt32
  /-- The functions of the file system for this node. -/
  read : UInt32
  write : UInt32
  open_ : UInt32
  close : UInt32
  readdir : UInt32
  finddir : UInt32
  /-- The file system's own data for this node. -/
  fsSpecific : UInt32
  deriving DecidableEq

/-- `p->f`. -/
def loadField (m : Mem) (p : UInt32) (f : Field) : UInt32 := m.word (p + f.offset)

/-- `p->f = v`. -/
def storeField (m : Mem) (p : UInt32) (f : Field) (v : UInt32) : Mem := m.put (p + f.offset) (le4 v)

/-- `*p`. -/
def loadNode (m : Mem) (p : UInt32) : FsNode where
  mask := loadField m p .mask
  uid := loadField m p .uid
  gid := loadField m p .gid
  flags := loadField m p .flags
  inode := loadField m p .inode
  length := loadField m p .length
  impl := loadField m p .impl
  read := loadField m p .read
  write := loadField m p .write
  open_ := loadField m p .open_
  close := loadField m p .close
  readdir := loadField m p .readdir
  finddir := loadField m p .finddir
  fsSpecific := loadField m p .fsSpecific

/-- `memset(p, 0, sizeof(fs_node_t)); strcpy(p->name, name);` and the assignments of `fs`,
in order. -/
def makeNode (m : Mem) (p : UInt32) (name : List UInt8) (fs : List (Field × UInt32)) : Mem :=
  fs.foldl (fun m fv => storeField m p fv.1 fv.2)
    ((m.put p (List.replicate nodeSize.toNat 0)).put p (name ++ [0]))

/-- The same through a pointer that may be `NULL`. -/
def fillNode (h : Heap) (ptr : Ptr) (name : List UInt8) (fs : List (Field × UInt32)) : Heap :=
  match ptr with
  | none => h.nullAccess
  | some p => { h with mem := makeNode h.mem p name fs }

/-- What the assignments leave in a field: the last value assigned, or `0`. -/
def assigned (fs : List (Field × UInt32)) (f : Field) : UInt32 :=
  fs.foldl (fun v fv => if fv.1 = f then fv.2 else v) 0

/-! ### The layout -/

theorem offset_bounds (f : Field) : 256 ≤ f.offset.toNat ∧ f.offset.toNat + 4 ≤ 312 := by
  cases f <;> decide

theorem offset_apart {f g : Field} (h : f ≠ g) :
    f.offset.toNat + 4 ≤ g.offset.toNat ∨ g.offset.toNat + 4 ≤ f.offset.toNat := by
  cases f <;> cases g <;> first | exact absurd rfl h | decide

variable {m m' : Mem} {p : UInt32}

/-- Where a field of a node that fits lies. -/
theorem toNat_add_offset (hp : Fits p 312) (f : Field) :
    (p + f.offset).toNat = p.toNat + f.offset.toNat := by
  have := offset_bounds f
  have := hp.le
  exact toNat_add_of_lt (by omega)

/-- A field's four bytes, as part of the node. -/
theorem fits_field (hp : Fits p 312) (f : Field) : Fits (p + f.offset) 4 := by
  have := offset_bounds f
  have := hp.le
  exact .of_le (by rw [toNat_add_offset hp f]; omega)

theorem loadField_storeField_self (hp : Fits p 312) (f : Field) (v : UInt32) :
    loadField (storeField m p f v) p f = v :=
  Mem.word_put_self v (fits_field hp f)

theorem loadField_storeField_of_ne (hp : Fits p 312) {f g : Field} (h : f ≠ g) (v : UInt32) :
    loadField (storeField m p f v) p g = loadField m p g := by
  refine Mem.word_put_of_disjoint (fits_field hp f) (fits_field hp g) ?_
  have := offset_apart h
  simp only [Apart, length_le4, toNat_add_offset hp]
  omega

/-- A field reads only the node's bytes. -/
theorem loadField_congr (h : m.bytes p 312 = m'.bytes p 312) (f : Field) :
    loadField m p f = loadField m' p f := by
  refine Mem.word_congr (Mem.bytes_congr fun i hi => ?_)
  have hb := offset_bounds f
  have hi' : f.offset.toNat + i < 312 := by omega
  have hx : p + f.offset + UInt32.ofNat i = p + UInt32.ofNat (f.offset.toNat + i) := by
    rw [UInt32.add_assoc, UInt32.ofNat_add, UInt32.ofNat_toNat]
  have hg := congrArg (fun l => l.getD (f.offset.toNat + i) 0) h
  simp only [Mem.getD_bytes hi'] at hg
  rw [hx, hg]

/-- A node reads only its bytes. -/
theorem loadNode_congr (h : m.bytes p 312 = m'.bytes p 312) :
    loadNode m p = loadNode m' p := by
  simp only [loadNode, loadField_congr h]

/-- The assignments, one after the other. -/
theorem loadField_foldl (hp : Fits p 312) (f : Field) (fs : List (Field × UInt32)) (m : Mem) :
    loadField (fs.foldl (fun m fv => storeField m p fv.1 fv.2) m) p f =
      fs.foldl (fun v fv => if fv.1 = f then fv.2 else v) (loadField m p f) := by
  induction fs generalizing m with
  | nil => rfl
  | cons fv fs ih =>
    simp only [List.foldl_cons, ih]
    refine congrArg (List.foldl _ · fs) ?_
    by_cases h : fv.1 = f
    · rw [if_pos h, ← h, loadField_storeField_self hp]
    · rw [if_neg h, loadField_storeField_of_ne hp h]

/-- The word of four zero bytes. -/
theorem word_eq_zero {a : UInt32} (h : ∀ i < 4, m (a + UInt32.ofNat i) = 0) : m.word a = 0 := by
  have h0 := h 0 (by omega)
  have h1 := h 1 (by omega)
  have h2 := h 2 (by omega)
  have h3 := h 3 (by omega)
  simp at h0 h1 h2 h3
  simp [Mem.word, h0, h1, h2, h3]

/-- **What is read back from a node just made**: the last value assigned to the field, or
`0`. The name must fit its 256 bytes. -/
theorem loadField_makeNode (hp : Fits p 312) {name : List UInt8} (hn : name.length < 256)
    (fs : List (Field × UInt32)) (f : Field) : loadField (makeNode m p name fs) p f = assigned fs f := by
  rw [makeNode, loadField_foldl hp, assigned]
  refine congrArg (List.foldl _ · fs) ?_
  have hb := offset_bounds f
  have hp' : p.toNat + 312 ≤ 2 ^ 32 := hp
  refine word_eq_zero fun i hi => ?_
  have hx : p + f.offset + UInt32.ofNat i = p + UInt32.ofNat (f.offset.toNat + i) := by
    rw [UInt32.add_assoc, UInt32.ofNat_add, UInt32.ofNat_toNat]
  have hx' : (p + UInt32.ofNat (f.offset.toNat + i)).toNat = p.toNat + (f.offset.toNat + i) :=
    toNat_add_ofNat (by omega)
  have hlen : (List.replicate nodeSize.toNat (0 : UInt8)).length = 312 := List.length_replicate
  rw [hx, Mem.put_of_le (by rw [hx']; simp; omega), Mem.put_of_mem (by rw [hlen]; exact hp) (by omega)]
  exact List.getD_replicate _ (by rw [List.length_replicate] at hlen; omega)

/-- Making a node changes nothing outside its 312 bytes. -/
theorem makeNode_bytes (hp : Fits p 312) {name : List UInt8} (hn : name.length < 256)
    (fs : List (Field × UInt32)) {b : UInt32} {n : ℕ} (hb : Fits b n) (h : Apart p 312 b n) :
    (makeNode m p name fs).bytes b n = m.bytes b n := by
  have hp' : p.toNat + 312 ≤ 2 ^ 32 := hp
  have hfold : ∀ m : Mem, (fs.foldl (fun m fv => storeField m p fv.1 fv.2) m).bytes b n = m.bytes b n := by
    induction fs with
    | nil => exact fun _ => rfl
    | cons fv fs ih =>
      intro m
      rw [List.foldl_cons, ih]
      refine Mem.bytes_put_of_disjoint (fits_field hp fv.1) hb ?_
      have := offset_bounds fv.1
      simp only [Apart, length_le4, toNat_add_offset hp] at h ⊢
      omega
  rw [makeNode, hfold]
  have hlen : (List.replicate nodeSize.toNat (0 : UInt8)).length = 312 := List.length_replicate
  rw [Mem.bytes_put_of_disjoint (by simp [Fits]; omega) hb (h.mono (by simp; omega) le_rfl)]
  exact Mem.bytes_put_of_disjoint (by rw [hlen]; exact hp) hb (by rw [hlen]; exact h)

end Basedos.Fs
