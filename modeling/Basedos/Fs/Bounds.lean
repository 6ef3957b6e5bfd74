import Basedos.Fs.Content
import Basedos.Fs.Cycles
import Basedos.Fs.AccessModes

/-!
# The bounds of reads and writes

`memfs_read` and `memfs_write` are given any 32-bit offset and size, and compute where the
range ends as a 32-bit sum. When the sum wraps round, the end of a range far past the file
looks like a place inside it. `memfs_write` also asks for a block of that size, and does not
look at what `kmalloc` returned.

## What is proved

* `memfsRead_exact_iff` — **exactly when** a read gives just the bytes there are: it starts
  past the end, or its range does not run past the last address.
* `memfsWrite_safe_iff` — **exactly when** a write is done inside the file's block or not at
  all: its range lies in the file, or the heap has room for a block as long as it reaches.
-/

namespace Basedos.Fs

open Basedos.Lib Basedos.CLib Basedos.Kernel

variable {w : World Memfs} {p offset size : UInt32} {buffer : Mem}

/-! ### Reading -/

/-- What is asked of a read through the node at `p`, of a file that holds `size` bytes. -/
structure ReadExact (w : World Memfs) (p offset size : UInt32) (buffer : Mem) : Prop where
  /-- The count is what there is of what was asked for. -/
  count : (memfsRead w p offset size buffer).1.toNat =
    min size.toNat ((w.inodeOf p).size.toNat - offset.toNat)
  /-- That many bytes are copied, from the offset on. -/
  copied : ∀ k < (memfsRead w p offset size buffer).1.toNat,
    (memfsRead w p offset size buffer).2.1 (UInt32.ofNat k) =
      (w.content (w.node p).fsSpecific).getD (offset.toNat + k) 0
  /-- The buffer is not touched past them. -/
  frame : ∀ x : UInt32, (memfsRead w p offset size buffer).1.toNat ≤ x.toNat →
    (memfsRead w p offset size buffer).2.1 x = buffer x
  /-- No byte past the content is looked at: with other bytes there, the result is the same. -/
  reads : ∀ w' : World Memfs, w'.data = w.data → (w'.node p).fsSpecific = (w.node p).fsSpecific →
    w'.content (w.node p).fsSpecific = w.content (w.node p).fsSpecific →
    (memfsRead w' p offset size buffer).1 = (memfsRead w p offset size buffer).1 ∧
      (memfsRead w' p offset size buffer).2.1 = (memfsRead w p offset size buffer).2.1
  /-- Nothing else changes. -/
  world : (memfsRead w p offset size buffer).2.2 = w
  /-- A descriptor on the node is not moved past the end by `read`. -/
  position : ∀ (s : Vfs Memfs) (fd : Int32) (k : Fin 64), s.world = w → s.lookup fd = some (k, p) →
    (s.fileDescriptors k).pos = offset →
    ((fdRead memfsDrivers s fd buffer size).2.2.fileDescriptors k).pos.toNat ≤
      max offset.toNat (w.inodeOf p).size.toNat

/-- A read from the end of the file on. -/
theorem memfsRead_end (h : (w.inodeOf p).size.toNat ≤ offset.toNat) :
    memfsRead w p offset size buffer = (0, buffer, w) := by
  simp only [memfsRead, ge_iff_le, UInt32.le_iff_toNat_le, if_pos h]

/-- A range that starts inside the file and runs past the last address is not cut: its end wraps
round to before its start. -/
theorem memfsRead_wraps (hin : offset.toNat < (w.inodeOf p).size.toNat)
    (hwrap : 2 ^ 32 ≤ offset.toNat + size.toNat) : (memfsRead w p offset size buffer).1 = size := by
  have hs := size.toNat_lt
  have hsum : (offset + size).toNat = offset.toNat + size.toNat - 2 ^ 32 := by
    have := offset.toNat_lt
    rw [UInt32.toNat_add]
    omega
  have hcut : ¬ offset + size > (w.inodeOf p).size := by
    rw [gt_iff_lt, UInt32.lt_iff_toNat_lt, hsum]
    omega
  simp only [memfsRead, ge_iff_le, UInt32.le_iff_toNat_le, if_neg (Nat.not_le.mpr hin), if_neg hcut]
  cases (w.inodeOf p).data <;> rfl

/-- The result of a read that does not wrap round, whatever the memory past the content. -/
theorem memfsRead_content (h : FileBlock w (w.node p).fsSpecific)
    (hno : (w.inodeOf p).size.toNat ≤ offset.toNat ∨ offset.toNat + size.toNat < 2 ^ 32) :
    memfsRead w p offset size buffer =
      (UInt32.ofNat (((w.content (w.node p).fsSpecific).drop offset.toNat).take size.toNat).length,
        buffer.put 0 (((w.content (w.node p).fsSpecific).drop offset.toNat).take size.toNat), w) := by
  rcases hno with hend | hno
  · have hlen : (w.content (w.node p).fsSpecific).length = (w.inodeOf p).size.toNat := h.length_content
    rw [memfsRead_end hend, List.drop_eq_nil_of_le (by omega)]
    simp
  · exact memfsRead_eq h rfl hno buffer

/-- A read that does not wrap round looks at no byte past the content. -/
theorem memfsRead_congr {w' : World Memfs} (hdata : w'.data = w.data)
    (hnode : (w'.node p).fsSpecific = (w.node p).fsSpecific)
    (hcontent : w'.content (w.node p).fsSpecific = w.content (w.node p).fsSpecific)
    (hno : (w.inodeOf p).size.toNat ≤ offset.toNat ∨ offset.toNat + size.toNat < 2 ^ 32) :
    (memfsRead w' p offset size buffer).1 = (memfsRead w p offset size buffer).1 ∧
      (memfsRead w' p offset size buffer).2.1 = (memfsRead w p offset size buffer).2.1 := by
  have hinode : w'.inodeOf p = w.inodeOf p := by rw [World.inodeOf, World.inodeOf, hnode, hdata]
  rcases hno with hend | hno
  · rw [memfsRead_end hend, memfsRead_end (by rw [hinode]; exact hend)]
    exact ⟨rfl, rfl⟩
  · have hsum : (offset + size).toNat = offset.toNat + size.toNat := toNat_add_of_lt hno
    simp only [memfsRead, hinode]
    split
    · exact ⟨rfl, rfl⟩
    · next hin =>
      rw [ge_iff_le, UInt32.le_iff_toNat_le] at hin
      have hsub : ((w.inodeOf p).size - offset).toNat = (w.inodeOf p).size.toNat - offset.toNat :=
        UInt32.toNat_sub_of_le _ _ (by rw [UInt32.le_iff_toNat_le]; omega)
      generalize hn : (if offset + size > (w.inodeOf p).size then (w.inodeOf p).size - offset else size) = n
      have hle : offset.toNat + n.toNat ≤ (w.inodeOf p).size.toNat := by
        simp only [gt_iff_lt, UInt32.lt_iff_toNat_lt, hsum] at hn
        split at hn <;> subst hn <;> omega
      cases hd : (w.inodeOf p).data with
      | none => exact ⟨rfl, rfl⟩
      | some a =>
        have hd' : (w.data.inode (w.node p).fsSpecific).data = some a := hd
        simp only [World.content, hdata, hd'] at hcontent
        have hbytes := congrArg (fun l => (l.drop offset.toNat).take n.toNat) hcontent
        simp only [Mem.take_drop_bytes _ _ (show _ ≤ (w.data.inode (w.node p).fsSpecific).size.toNat from hle),
          UInt32.ofNat_toNat] at hbytes
        exact ⟨rfl, by simp only [hbytes]⟩

/-- The position after a `read` that returned no more than there was. -/
theorem fdRead_position (hcount : offset.toNat + (memfsRead w p offset size buffer).1.toNat ≤
      max offset.toNat (w.inodeOf p).size.toNat)
    (s : Vfs Memfs) (fd : Int32) (k : Fin 64) (hw : s.world = w) (hl : s.lookup fd = some (k, p))
    (hpos : (s.fileDescriptors k).pos = offset) :
    ((fdRead memfsDrivers s fd buffer size).2.2.fileDescriptors k).pos.toNat ≤
      max offset.toNat (w.inodeOf p).size.toNat := by
  have hmax : max offset.toNat (w.inodeOf p).size.toNat < 2 ^ 32 :=
    max_lt offset.toNat_lt (w.inodeOf p).size.toNat_lt
  subst hw
  simp only [fdRead, hl]
  split
  · rw [hpos]
    exact le_max_left _ _
  · simp only [setFd_fileDescriptors, Function.update_self, hpos, vfsRead, memfsDrivers]
    split
    · split
      · rw [toNat_add_of_lt (by omega)]
        exact hcount
      · simp
    · simp

/-- **When a read is exact**: its range starts past the end of the file or does not run past the last
address. -/
theorem memfsRead_exact_iff (h : FileBlock w (w.node p).fsSpecific) (offset size : UInt32) (buffer : Mem) :
    ReadExact w p offset size buffer ↔
      (w.inodeOf p).size.toNat ≤ offset.toNat ∨ offset.toNat + size.toNat < 2 ^ 32 := by
  have hlen : (w.content (w.node p).fsSpecific).length = (w.inodeOf p).size.toNat := h.length_content
  constructor
  · intro hexact
    by_contra hno
    have hcount := hexact.count
    rw [memfsRead_wraps (by omega) (by omega)] at hcount
    have := (w.inodeOf p).size.toNat_lt
    omega
  · intro hno
    have hread : memfsRead w p offset size buffer = _ := memfsRead_content h hno
    have hbytes : (((w.content (w.node p).fsSpecific).drop offset.toNat).take size.toNat).length =
        min size.toNat ((w.inodeOf p).size.toNat - offset.toNat) := by
      rw [List.length_take, List.length_drop, hlen]
    have hcount : (memfsRead w p offset size buffer).1.toNat =
        min size.toNat ((w.inodeOf p).size.toNat - offset.toNat) := by
      have := size.toNat_lt
      rw [hread]
      simp only [hbytes]
      exact toNat_ofNat (by omega)
    refine ⟨hcount, ?copied, ?frame, ?reads, by rw [hread], fdRead_position (by omega)⟩
    case copied =>
      intro k hk
      rw [hcount, ← hbytes] at hk
      have hput := Mem.put_of_mem (m := buffer) (a := 0) (i := k)
        (.of_le (by rw [hbytes]; have := size.toNat_lt; simp; omega)) hk
      rw [UInt32.zero_add] at hput
      rw [hread]
      simp only [hput, List.getD_eq_getElem?_getD, List.getElem?_take, List.getElem?_drop]
      rw [if_pos (by rw [hbytes] at hk; omega)]
    case frame =>
      intro x hx
      rw [hcount, ← hbytes] at hx
      rw [hread]
      exact Mem.put_of_le (by simpa using hx)
    case reads =>
      exact fun w' hdata hnode hcontent => memfsRead_congr hdata hnode hcontent hno

/-- `/d/f` of the small tree, opened: its node is at 624. -/
def openedWorld : World Memfs := (fdOpen memfsDrivers smallVfs smallPath O_RDWR).2.world

/-- The same with the five bytes `hello` in it. -/
def helloWorld : World Memfs :=
  (memfsWrite openedWorld 624 0 5 (bufferOf (ascii ['h', 'e', 'l', 'l', 'o']))).2

theorem helloWorld_fileBlock : FileBlock helloWorld (helloWorld.node 624).fsSpecific := by
  have hdata : (helloWorld.data.inode (helloWorld.node 624).fsSpecific).data = some 936 := by decide +kernel
  refine ⟨⟨by decide +kernel, by decide +kernel⟩, fun h => ?_, fun h => ?_, fun h => ?_⟩ <;> rw [hdata] at h
  · cases h
  · cases h
    decide
  · cases h
    decide +kernel

theorem memfsRead_exact_hello : ReadExact helloWorld 624 1 100 (bufferOf []) :=
  (memfsRead_exact_iff helloWorld_fileBlock 1 100 (bufferOf [])).mpr (.inr (by decide))

/-- A read of `0xFFFFFFFC` bytes from the last of the five on says that it read them all. -/
theorem not_forall_memfsRead_exact : ¬ ∀ (w : World Memfs) (p : UInt32), FileBlock w (w.node p).fsSpecific →
    ∀ offset size buffer, ReadExact w p offset size buffer := by
  intro h
  have hcount := (h helloWorld 624 helloWorld_fileBlock 4 0xFFFFFFFC (bufferOf [])).count
  rw [memfsRead_wraps (by decide +kernel) (by decide)] at hcount
  revert hcount
  decide +kernel

/-! ### Writing -/

/-- What is asked of a write that was done, to the file `i`: it left a block of its own, the old or a new
one, with the bytes in it. -/
structure Wrote (w w' : World Memfs) (i offset size : UInt32) (buffer : Mem) : Prop where
  /-- The block the file has now is as long as the file. -/
  fileBlock : FileBlock w' i
  /-- It is the block it had, or one there was not before. -/
  block : ∀ {a}, (w'.data.inode i).data = some a → (w.data.inode i).data = some a ∨ a = w.heap.heapPos
  /-- The size is the old one, or how far the write reaches. -/
  length : (w'.data.inode i).size.toNat = max (w.data.inode i).size.toNat (offset.toNat + size.toNat)
  /-- No byte outside the block is written. -/
  frame : ∀ x : UInt32, (∀ a, (w'.data.inode i).data = some a →
      x.toNat < a.toNat ∨ a.toNat + (w'.data.inode i).size.toNat ≤ x.toNat) → w'.heap.mem x = w.heap.mem x
  /-- Nor is anything written through `NULL`. -/
  noNull : w'.heap.nullAccesses = w.heap.nullAccesses
  /-- The bytes are in the content. -/
  written : ∀ k < size.toNat, (w'.content i).getD (offset.toNat + k) 0 = buffer (UInt32.ofNat k)
  /-- The old content is kept outside the range. -/
  kept : ∀ k < (w.data.inode i).size.toNat, k < offset.toNat ∨ offset.toNat + size.toNat ≤ k →
    (w'.content i).getD k 0 = (w.content i).getD k 0

/-- A write through the node at `p` is done or it is not. -/
def WriteSafe (w : World Memfs) (p offset size : UInt32) (buffer : Mem) : Prop :=
  let r := memfsWrite w p offset size buffer
  (r.1 = size ∧ Wrote w r.2 (w.node p).fsSpecific offset size buffer) ∨ (r.1 = 0 ∧ r.2 = w)

/-- A store into the block at `a`, of a memory that holds the old content there. -/
theorem wrote_put {i a : UInt32} {new : Inode} {heap : Heap} {m : Mem} (hok : heap.Ok) (haligned : a.toNat % 4 = 0)
    (hdata : new.data = some a) (hbelow : a.toNat + new.size.toNat ≤ heap.heapPos.toNat)
    (hblock : (w.data.inode i).data = some a ∨ a = w.heap.heapPos)
    (hsize : new.size.toNat = max (w.data.inode i).size.toNat (offset.toNat + size.toNat))
    (hmem : heap.mem = m.put (a + offset) (buffer.bytes 0 size.toNat))
    (hframe : ∀ x : UInt32, x.toNat < a.toNat ∨ a.toNat + new.size.toNat ≤ x.toNat → m x = w.heap.mem x)
    (hkept : ∀ k < (w.data.inode i).size.toNat, m (a + UInt32.ofNat k) = (w.content i).getD k 0)
    (hnull : heap.nullAccesses = w.heap.nullAccesses) :
    Wrote w ⟨heap, { w.data with inode := Function.update w.data.inode i new }⟩ i offset size buffer := by
  have hbound := hok.bounded
  have hlen := Mem.length_bytes buffer 0 size.toNat
  have hoff : (a + offset).toNat = a.toNat + offset.toNat := toNat_add_of_lt (by omega)
  have hfits : Fits (a + offset) (buffer.bytes 0 size.toNat).length := .of_le (by omega)
  have hcontent : World.content ⟨heap, { w.data with inode := Function.update w.data.inode i new }⟩ i =
      heap.mem.bytes a new.size.toNat := by
    simp only [World.content, Function.update_self, hdata]
  refine ⟨⟨hok, ?empty, ?aligned, ?below⟩, ?block, ?length, ?frame, hnull, ?written, ?kept⟩
  case empty => simp [hdata]
  case aligned =>
    intro b hb
    simp only [Function.update_self, hdata, Option.some.injEq] at hb
    exact hb ▸ haligned
  case below =>
    intro b hb
    simp only [Function.update_self, hdata, Option.some.injEq] at hb ⊢
    exact hb ▸ hbelow
  case block =>
    intro b hb
    simp only [Function.update_self, hdata, Option.some.injEq] at hb
    exact hb ▸ hblock
  case length => simpa only [Function.update_self] using hsize
  case frame =>
    intro x hx
    simp only [Function.update_self, hdata, Option.some.injEq, forall_eq'] at hx
    have hput : heap.mem x = m x := by
      rw [hmem]
      rcases hx with hx | hx
      · exact Mem.put_of_lt hfits (by omega)
      · exact Mem.put_of_le (by omega)
    exact hput.trans (hframe x hx)
  case written =>
    intro k hk
    have hk' : a + UInt32.ofNat (offset.toNat + k) = a + offset + UInt32.ofNat k := by
      rw [UInt32.add_assoc, UInt32.ofNat_add, UInt32.ofNat_toNat]
    rw [hcontent, Mem.getD_bytes (by omega), hmem, hk', Mem.put_of_mem hfits (by omega), Mem.getD_bytes hk,
      UInt32.zero_add]
  case kept =>
    intro k hk hout
    have hk' : (a + UInt32.ofNat k).toNat = a.toNat + k := toNat_add_ofNat (by omega)
    rw [hcontent, Mem.getD_bytes (by omega), hmem, ← hkept k hk]
    rcases hout with hout | hout
    · exact Mem.put_of_lt hfits (by omega)
    · exact Mem.put_of_le (by omega)

/-- A write to a file, by the two ways it goes. -/
theorem memfsWrite_file (hfile : (w.inodeOf p).isDir = false) :
    memfsWrite w p offset size buffer =
      let i := (w.node p).fsSpecific
      let r := if offset + size > (w.inodeOf p).size then growInode w.heap (w.inodeOf p) (offset + size)
        else (w.inodeOf p, w.heap)
      (size, ⟨copyIn r.2 r.1.data offset (buffer.bytes 0 size.toNat),
        { w.data with inode := Function.update w.data.inode i r.1 }⟩) := by
  have hfile' : (w.data.inode (w.node p).fsSpecific).isDir = false := hfile
  simp only [memfsWrite, hfile', Bool.false_eq_true, if_false]
  rfl

/-- A write that grows the file, with room for the block. -/
theorem writeSafe_grow (h : FileBlock w (w.node p).fsSpecific) (hfile : (w.inodeOf p).isDir = false)
    (hgrow : (w.inodeOf p).size.toNat < offset.toNat + size.toNat)
    (hroom : w.heap.heapPos.toNat + (offset.toNat + size.toNat) ≤ 0x10000) :
    WriteSafe w p offset size buffer := by
  have hlen : (w.content (w.node p).fsSpecific).length = (w.inodeOf p).size.toNat := h.length_content
  have hsum : (offset + size).toNat = offset.toNat + size.toNat := toNat_add_of_lt (by omega)
  have hgt : offset + size > (w.inodeOf p).size := by
    rw [gt_iff_lt, UInt32.lt_iff_toNat_lt, hsum]
    exact hgrow
  have hnew := @growInode_eq w _ h (offset + size) (by rw [hsum]; exact hgrow.le) (by rw [hsum]; exact hroom)
  have hok := kmalloc_ok h.ok (offset + size)
  have hpos := @toNat_heapPos_add w.heap h.ok (offset + size) (by rw [hsum]; exact hroom)
  have hbound := h.ok.aligned
  refine .inl ⟨by rw [memfsWrite_file hfile], ?_⟩
  rw [memfsWrite_file hfile]
  simp only [if_pos hgt]
  rw [World.inodeOf, hnew]
  refine wrote_put ⟨by simp only [copyIn]; omega, by simp only [copyIn]; omega⟩ h.ok.aligned rfl
    (by simp only [copyIn]; omega) (.inr rfl) ?_ rfl (fun x hx => ?_) (fun k hk => ?_) rfl
  · rw [World.inodeOf] at hgrow
    simp only [hsum]
    omega
  · simp only [hsum] at hx
    rcases hx with hx | hx
    · exact Mem.put_of_lt (.of_le (by omega)) hx
    · exact Mem.put_of_le (by omega)
  · exact Mem.put_of_mem (.of_le (by omega)) (by rw [hlen]; exact hk)

/-- A write inside the file. -/
theorem writeSafe_inside (h : FileBlock w (w.node p).fsSpecific) (hfile : (w.inodeOf p).isDir = false)
    (hin : offset.toNat + size.toNat ≤ (w.inodeOf p).size.toNat) : WriteSafe w p offset size buffer := by
  have hsum : (offset + size).toNat = offset.toNat + size.toNat :=
    toNat_add_of_lt (by have := (w.inodeOf p).size.toNat_lt; omega)
  have hle : ¬ offset + size > (w.inodeOf p).size := by
    rw [gt_iff_lt, UInt32.lt_iff_toNat_lt, hsum]
    omega
  cases hd : (w.data.inode (w.node p).fsSpecific).data with
  | none =>
    have hempty : (w.inodeOf p).size.toNat = 0 := by rw [World.inodeOf, h.empty hd]; rfl
    have hsize : size = 0 := UInt32.toNat_inj.mp (by simp; omega)
    have hd' : (w.inodeOf p).data = none := hd
    refine .inr ⟨by rw [memfsWrite_file hfile, hsize], ?_⟩
    rw [memfsWrite_file hfile]
    simp only [if_neg hle, hd', copyIn]
    simp only [hsize, UInt32.toNat_zero, Mem.bytes_zero, if_true, World.inodeOf, Function.update_eq_self]
  | some a =>
    have hd' : (w.inodeOf p).data = some a := hd
    refine .inl ⟨by rw [memfsWrite_file hfile], ?_⟩
    rw [memfsWrite_file hfile]
    simp only [if_neg hle, hd', copyIn]
    refine wrote_put ⟨h.ok.aligned, h.ok.bounded⟩ (h.aligned hd) hd' (h.below hd) (.inl hd) ?_ rfl
      (fun _ _ => rfl) (fun k hk => ?_) rfl
    · rw [World.inodeOf] at hin ⊢
      omega
    · simp only [World.content, hd]
      rw [Mem.getD_bytes hk]

/-- A write done does not wrap round. -/
theorem Wrote.noWrap {w' : World Memfs} {i : UInt32} (h : Wrote w w' i offset size buffer) :
    offset.toNat + size.toNat < 2 ^ 32 := by
  have := h.length
  have := (w'.data.inode i).size.toNat_lt
  omega

/-- A write done at a new block had room for it. -/
theorem Wrote.room {w' : World Memfs} {i : UInt32} (h : Wrote w w' i offset size buffer)
    (hdata : (w'.data.inode i).data = some w.heap.heapPos) :
    w.heap.heapPos.toNat + (offset.toNat + size.toNat) ≤ 0x10000 := by
  have := h.length
  have := h.fileBlock.below hdata
  have := h.fileBlock.ok.bounded
  omega

/-- A write that reaches past the end, with no room for a block of that length: the sum has wrapped round, or
the file has a size and no block of that size. -/
theorem not_writeSafe (hfile : (w.inodeOf p).isDir = false)
    (hgrow : (w.inodeOf p).size.toNat < offset.toNat + size.toNat)
    (hroom : 0x10000 < w.heap.heapPos.toNat + (offset.toNat + size.toNat)) :
    ¬ WriteSafe w p offset size buffer := by
  intro hsafe
  by_cases hwrap : 2 ^ 32 ≤ offset.toNat + size.toNat
  · rcases hsafe with ⟨-, hwrote⟩ | ⟨hzero, -⟩
    · have := hwrote.noWrap
      omega
    · rw [memfsWrite_file hfile] at hzero
      have : size.toNat = 0 := congrArg UInt32.toNat hzero
      have := offset.toNat_lt
      omega
  · have hsum : (offset + size).toNat = offset.toNat + size.toNat := toNat_add_of_lt (by omega)
    have hgt : offset + size > (w.inodeOf p).size := by
      rw [gt_iff_lt, UInt32.lt_iff_toNat_lt, hsum]
      exact hgrow
    have hnew : (memfsWrite w p offset size buffer).2.data.inode (w.node p).fsSpecific =
        { w.inodeOf p with data := (kmalloc w.heap (offset + size)).1, size := offset + size } := by
      rw [memfsWrite_file hfile]
      simp only [if_pos hgt, Function.update_self]
      rfl
    rcases hsafe with ⟨-, hwrote⟩ | ⟨-, hsame⟩
    · rcases kmalloc_cases w.heap (offset + size) with ⟨-, hk⟩ | ⟨-, hk⟩ <;> rw [hk] at hnew
      · have hempty := hwrote.fileBlock.empty (by rw [hnew])
        rw [hnew] at hempty
        have : (offset + size).toNat = 0 := congrArg UInt32.toNat hempty
        omega
      · have := hwrote.room (by rw [hnew])
        omega
    · rw [hsame] at hnew
      have hlen : (w.inodeOf p).size = offset + size := congrArg Inode.size hnew
      rw [hlen] at hgt
      exact absurd hgt (UInt32.lt_irrefl _)

/-- **When a write is safe**: its range lies in the file, or there is room in the heap for a block that
reaches as far as it does. -/
theorem memfsWrite_safe_iff (h : FileBlock w (w.node p).fsSpecific) (hfile : (w.inodeOf p).isDir = false)
    (offset size : UInt32) (buffer : Mem) : WriteSafe w p offset size buffer ↔
      offset.toNat + size.toNat ≤ (w.inodeOf p).size.toNat ∨
        w.heap.heapPos.toNat + (offset.toNat + size.toNat) ≤ 0x10000 := by
  constructor
  · intro hsafe
    by_contra hno
    rw [not_or, Nat.not_le, Nat.not_le] at hno
    exact not_writeSafe hfile hno.1 hno.2 hsafe
  · intro hroom
    by_cases hin : offset.toNat + size.toNat ≤ (w.inodeOf p).size.toNat
    · exact writeSafe_inside h hfile hin
    · exact writeSafe_grow h hfile (Nat.not_le.mp hin) (hroom.resolve_left hin)

theorem memfsWrite_safe_hello : WriteSafe helloWorld 624 3 100 (bufferOf []) :=
  (memfsWrite_safe_iff helloWorld_fileBlock (by decide +kernel) 3 100 (bufferOf [])).mpr
    (.inr (by decide +kernel))

/-- A write of 65536 bytes says that it wrote them all, through `NULL`. -/
theorem not_forall_memfsWrite_safe : ¬ ∀ (w : World Memfs) (p : UInt32),
    FileBlock w (w.node p).fsSpecific → (w.inodeOf p).isDir = false →
      ∀ offset size buffer, WriteSafe w p offset size buffer := by
  intro h
  exact not_writeSafe (by decide +kernel) (by decide +kernel) (by decide +kernel)
    (h helloWorld 624 helloWorld_fileBlock (by decide +kernel) 0 65536 (bufferOf []))

end Basedos.Fs
