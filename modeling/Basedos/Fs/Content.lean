import Basedos.CLib.Memmove
import Basedos.Fs.Lookup
import Basedos.Lib.Bytes

/-!
# The contents of files in the heap

A file's content is a block of the heap. `Sound` is what keeps the blocks of the files
and the nodes in use out of each other's way: all of them lie below the heap's
position, no two of the blocks overlap, no block overlaps a node, and the heap above
its position has never been written.

## What is proved

* `memfsRead_eq` — a read gives the part of the content asked for.
* `memfsWrite_sound` — **a write** that finds memory patches the content of its file,
  whether the block is grown (a new block, the old content moved over, zeros in a gap)
  or not, leaves the others' alone, and keeps `Sound`.
* `Sound.grown` — so does making nodes.
-/

namespace Basedos.Fs

open Basedos.Lib Basedos.CLib Basedos.Kernel

/-! ### Contents -/

/-- The content of an inode. -/
def World.content (w : World Memfs) (i : UInt32) : List UInt8 :=
  match (w.data.inode i).data with
  | none => []
  | some a => w.heap.mem.bytes a (w.data.inode i).size.toNat

/-- The blocks and the nodes in the heap: `N p i` says that the node at `p`, for inode `i`, is
in use. -/
structure Sound (w : World Memfs) (N : UInt32 → UInt32 → Prop) : Prop where
  ok : w.heap.Ok
  node : ∀ {p i}, N p i → NodeFor w p i
  empty : ∀ {i}, (w.data.inode i).data = none → (w.data.inode i).size = 0
  aligned : ∀ {i a}, (w.data.inode i).data = some a → a.toNat % 4 = 0
  below : ∀ {i a}, (w.data.inode i).data = some a →
    a.toNat + (w.data.inode i).size.toNat ≤ w.heap.heapPos.toNat
  apart : ∀ {i j a b}, i ≠ j → (w.data.inode i).data = some a → (w.data.inode j).data = some b →
    Apart a (w.data.inode i).size.toNat b (w.data.inode j).size.toNat
  apartNode : ∀ {i a p j}, (w.data.inode i).data = some a → N p j →
    Apart a (w.data.inode i).size.toNat p 312
  zero : ∀ x : UInt32, w.heap.heapPos.toNat ≤ x.toNat → x.toNat < 0x10000 → w.heap.mem x = 0

/-- What is promised of one file: its data is a block below the heap's position of at least `size`
bytes, or `NULL` with size `0`. -/
structure FileBlock (w : World Memfs) (i : UInt32) : Prop where
  ok : w.heap.Ok
  empty : (w.data.inode i).data = none → (w.data.inode i).size = 0
  aligned : ∀ {a}, (w.data.inode i).data = some a → a.toNat % 4 = 0
  below : ∀ {a}, (w.data.inode i).data = some a →
    a.toNat + (w.data.inode i).size.toNat ≤ w.heap.heapPos.toNat

variable {w w' : World Memfs} {N N' : UInt32 → UInt32 → Prop}

theorem Sound.fileBlock (h : Sound w N) (i : UInt32) : FileBlock w i := ⟨h.ok, h.empty, h.aligned, h.below⟩

/-- Nodes made at the heap's position do not touch the block. -/
theorem FileBlock.grown {i : UInt32} {n : ℕ} (h : FileBlock w i) (hg : Grown w w' n) : FileBlock w' i where
  ok := hg.ok
  empty := by rw [hg.data]; exact h.empty
  aligned := by rw [hg.data]; exact h.aligned
  below := by
    intro a ha
    rw [hg.data] at ha ⊢
    have := h.below ha
    rw [hg.heapPos]
    omega

/-- A block given to a file. -/
theorem FileBlock.replace {j : UInt32} (h : FileBlock w j) {i : UInt32} {new : Inode} {heap : Heap} (hok : heap.Ok)
    (hpos : w.heap.heapPos.toNat ≤ heap.heapPos.toNat) (hempty : new.data = none → new.size = 0)
    (haligned : ∀ {a}, new.data = some a → a.toNat % 4 = 0)
    (hbelow : ∀ {a}, new.data = some a → a.toNat + new.size.toNat ≤ heap.heapPos.toNat) :
    FileBlock ⟨heap, { w.data with inode := Function.update w.data.inode i new }⟩ j := by
  by_cases hj : j = i
  · subst hj
    refine ⟨hok, ?_, ?_, ?_⟩ <;> simp only [Function.update_self]
    · exact hempty
    · exact haligned
    · exact hbelow
  · refine ⟨hok, ?_, ?_, ?_⟩ <;> simp only [Function.update_of_ne hj]
    · exact h.empty
    · exact h.aligned
    · exact fun ha => (h.below ha).trans hpos

/-- No kind changes when the inode put in has the kind of the one before. -/
theorem isDir_update {f : UInt32 → Inode} {i : UInt32} {new : Inode} (hdir : new.isDir = (f i).isDir) (j : UInt32) :
    (Function.update f i new j).isDir = (f j).isDir := by
  by_cases hj : j = i
  · subst hj
    rw [Function.update_self, hdir]
  · rw [Function.update_of_ne hj]

theorem FileBlock.length_content {i : UInt32} (h : FileBlock w i) :
    (w.content i).length = (w.data.inode i).size.toNat := by
  unfold World.content
  cases hd : (w.data.inode i).data with
  | none => rw [h.empty hd]; rfl
  | some a => simp

theorem Sound.length_content (h : Sound w N) (i : UInt32) :
    (w.content i).length = (w.data.inode i).size.toNat :=
  (h.fileBlock i).length_content

/-- Fewer nodes in use. -/
theorem Sound.mono (h : Sound w N) (hN : ∀ p i, N' p i → N p i) : Sound w N' :=
  { h with
    node := fun hp => h.node (hN _ _ hp)
    apartNode := fun hd hp => h.apartNode hd (hN _ _ hp) }

/-- One more node in use, apart from the blocks. -/
theorem Sound.insert (h : Sound w N) {q c : UInt32} (hq : NodeFor w q c)
    (hapart : ∀ i a, (w.data.inode i).data = some a → Apart a (w.data.inode i).size.toNat q 312)
    (hN : ∀ p i, N' p i → N p i ∨ p = q ∧ i = c) : Sound w N' :=
  { h with
    node := fun hp => by
      rcases hN _ _ hp with hp | ⟨rfl, rfl⟩
      · exact h.node hp
      · exact hq
    apartNode := fun hd hp => by
      rcases hN _ _ hp with hp | ⟨rfl, rfl⟩
      · exact h.apartNode hd hp
      · exact hapart _ _ hd }

/-- Nodes made at the heap's position. -/
theorem Sound.grown {n : ℕ} (h : Sound w N) (hg : Grown w w' n) :
    Sound w' N ∧ ∀ i, w'.content i = w.content i := by
  have hpos : w.heap.heapPos.toNat ≤ w'.heap.heapPos.toNat := by rw [hg.heapPos]; omega
  have hblock : ∀ i, FileBlock w' i := fun i => (h.fileBlock i).grown hg
  refine ⟨⟨hg.ok, fun hp => (h.node hp).grown hg, (hblock _).empty, (hblock _).aligned, (hblock _).below, ?_, ?_, ?_⟩,
    fun i => ?_⟩
  · rw [hg.data]; exact h.apart
  · rw [hg.data]; exact h.apartNode
  · intro x hx hx'
    rw [hg.above x hx, h.zero x (by omega) hx']
  · unfold World.content
    rw [hg.data]
    cases hd : (w.data.inode i).data with
    | none => rfl
    | some a => exact hg.below a _ (h.below hd)

/-! ### Reading -/

/-- **What `memfs_read` gives**: the bytes of the content from the offset on, at most as many as
asked for. -/
theorem memfsRead_eq {p i : UInt32} (h : FileBlock w i) (hp : (w.node p).fsSpecific = i) {offset size : UInt32}
    (hno : offset.toNat + size.toNat < 2 ^ 32) (buffer : Mem) :
    memfsRead w p offset size buffer =
      (UInt32.ofNat (((w.content i).drop offset.toNat).take size.toNat).length,
        buffer.put 0 (((w.content i).drop offset.toNat).take size.toNat), w) := by
  have hlen := h.length_content
  have hsum : (offset + size).toNat = offset.toNat + size.toNat := toNat_add_of_lt hno
  simp only [memfsRead, World.inodeOf, hp, ge_iff_le, UInt32.le_iff_toNat_le, gt_iff_lt, UInt32.lt_iff_toNat_lt, hsum]
  by_cases hend : (w.data.inode i).size.toNat ≤ offset.toNat
  · rw [if_pos hend, List.drop_eq_nil_of_le (by omega)]
    simp
  · rw [if_neg hend]
    have hsub : ((w.data.inode i).size - offset).toNat = (w.data.inode i).size.toNat - offset.toNat :=
      UInt32.toNat_sub_of_le _ _ (by rw [UInt32.le_iff_toNat_le]; omega)
    cases hd : (w.data.inode i).data with
    | none =>
      rw [h.empty hd] at hend
      simp at hend
    | some a =>
      have hc : w.content i = w.heap.mem.bytes a (w.data.inode i).size.toNat := by
        simp only [World.content, hd]
      have hoff : UInt32.ofNat offset.toNat = offset := UInt32.ofNat_toNat
      simp only [List.length_take, List.length_drop, hlen]
      split
      · next hlt =>
        rw [hsub, List.take_of_length_le (by rw [List.length_drop]; omega),
          ← List.take_of_length_le (i := (w.data.inode i).size.toNat - offset.toNat)
            (l := (w.content i).drop offset.toNat) (by rw [List.length_drop]; omega),
          hc, Mem.take_drop_bytes _ _ (by omega), hoff, Nat.min_eq_right (by omega), ← hsub,
          UInt32.ofNat_toNat]
      · next hge =>
        rw [hc, Mem.take_drop_bytes _ _ (by omega), hoff, Nat.min_eq_left (by omega), UInt32.ofNat_toNat]

/-! ### Writing -/

/-- The loop of `memcpy` is the one of `memmove` that goes forwards. -/
theorem memcpy_eq_copyForwards (m : Mem) (d a : UInt32) (n : ℕ) : memcpy m d a n = CLib.copyForwards m d a n := by
  induction n generalizing m d a with
  | zero => rfl
  | succ n ih => exact ih _ _ _

/-- `memcpy` between ranges that are apart. -/
theorem memcpy_eq_put (m : Mem) {d a : UInt32} {n : ℕ} (hd : Fits d n) (ha : Fits a n)
    (h : Apart d n a n) : memcpy m d a n = m.put d (m.bytes a n) := by
  rw [memcpy_eq_copyForwards, CLib.copyForwards_eq m hd ha (by unfold Apart at h; omega)]

/-- A block from `kmalloc`, with room for it, for a file that grows. -/
theorem growInode_eq {i : UInt32} (h : FileBlock w i) {newSize : UInt32}
    (hgrow : (w.data.inode i).size.toNat ≤ newSize.toNat)
    (hfit : w.heap.heapPos.toNat + newSize.toNat ≤ 0x10000) :
    growInode w.heap (w.data.inode i) newSize =
      ({ w.data.inode i with data := some w.heap.heapPos, size := newSize },
        { w.heap with
          mem := w.heap.mem.put w.heap.heapPos (w.content i)
          heapPos := w.heap.heapPos + align4 newSize }) := by
  have hk : kmalloc w.heap newSize =
      (some w.heap.heapPos, { w.heap with heapPos := w.heap.heapPos + align4 newSize }) := by
    rcases kmalloc_cases w.heap newSize with ⟨hlt, -⟩ | ⟨-, heq⟩
    · omega
    · exact heq
  have hok := kmalloc_ok h.ok newSize
  rw [hk] at hok
  unfold growInode World.content
  rw [hk]
  cases hd : (w.data.inode i).data with
  | none => simp
  | some a =>
    have hb := h.below hd
    have hcopy : memcpy w.heap.mem w.heap.heapPos a (w.data.inode i).size.toNat =
        w.heap.mem.put w.heap.heapPos (w.heap.mem.bytes a (w.data.inode i).size.toNat) :=
      memcpy_eq_put _ (.of_le (by omega)) (.of_le (by omega)) (.inr hb)
    have hfree : ∀ m, kfree { w.heap with mem := m, heapPos := w.heap.heapPos + align4 newSize } (some a) =
        { w.heap with mem := m, heapPos := w.heap.heapPos + align4 newSize } := by
      intro m
      apply kfree_eq
      · exact ⟨hok.aligned, hok.bounded⟩
      · rintro p ⟨⟩
        exact h.aligned hd
    simp only [moveData, hcopy, hfree]

/-- A file given a block, its own or a new one, that is apart from the others'. -/
theorem Sound.replace (h : Sound w N) {i a : UInt32} {new : Inode} {heap : Heap}
    (hdata : new.data = some a) (hdir : new.isDir = (w.data.inode i).isDir)
    (hok : heap.Ok) (hpos : w.heap.heapPos.toNat ≤ heap.heapPos.toNat) (haligned : a.toNat % 4 = 0)
    (hbelow : a.toNat + new.size.toNat ≤ heap.heapPos.toNat)
    (hothers : ∀ j b, j ≠ i → (w.data.inode j).data = some b →
      Apart a new.size.toNat b (w.data.inode j).size.toNat)
    (hnodes : ∀ p j, N p j → Apart a new.size.toNat p 312)
    (hframe : ∀ b k, b.toNat + k ≤ w.heap.heapPos.toNat → Apart a new.size.toNat b k →
      heap.mem.bytes b k = w.heap.mem.bytes b k)
    (hzero : ∀ x : UInt32, heap.heapPos.toNat ≤ x.toNat → x.toNat < 0x10000 → heap.mem x = 0) :
    Sound ⟨heap, { w.data with inode := Function.update w.data.inode i new }⟩ N ∧
      ∀ j, j ≠ i → World.content ⟨heap, { w.data with inode := Function.update w.data.inode i new }⟩ j =
        w.content j := by
  have hblock : ∀ j, FileBlock ⟨heap, { w.data with inode := Function.update w.data.inode i new }⟩ j := by
    intro j
    apply (h.fileBlock j).replace hok hpos <;> rw [hdata]
    · rintro ⟨⟩
    · rintro b ⟨⟩
      exact haligned
    · rintro b ⟨⟩
      exact hbelow
  refine ⟨{
    ok := hok, node := ?node, empty := (hblock _).empty, aligned := (hblock _).aligned, below := (hblock _).below,
    apart := ?apart, apartNode := ?apartNode, zero := hzero }, ?content⟩
  case node =>
    intro p j hp
    have hn := h.node hp
    exact hn.congr hpos (hframe p 312 hn.below (hnodes p j hp)) (isDir_update hdir j)
  case apart =>
    intro j k b c hjk hj hk
    by_cases hji : j = i
    · subst hji
      simp only [Function.update_self, hdata, Option.some.injEq, Function.update_of_ne hjk.symm] at hj hk ⊢
      exact hj ▸ hothers k c hjk.symm hk
    · by_cases hki : k = i
      · subst hki
        simp only [Function.update_self, hdata, Option.some.injEq, Function.update_of_ne hji] at hj hk ⊢
        exact hk ▸ (hothers j b hji hj).symm
      · simp only [Function.update_of_ne hji, Function.update_of_ne hki] at hj hk ⊢
        exact h.apart hjk hj hk
  case apartNode =>
    intro j b p k hj hp
    by_cases hji : j = i
    · subst hji
      simp only [Function.update_self, hdata, Option.some.injEq] at hj ⊢
      exact hj ▸ hnodes p k hp
    · simp only [Function.update_of_ne hji] at hj ⊢
      exact h.apartNode hj hp
  case content =>
    intro j hji
    simp only [World.content, Function.update_of_ne hji]
    cases hj : (w.data.inode j).data with
    | none => rfl
    | some b => exact hframe b _ (h.below hj) (hothers j b hji hj)

/-- A write through a node for a directory. -/
theorem memfsWrite_dir {p i : UInt32} (hp : NodeFor w p i) (hdir : (w.data.inode i).isDir = true)
    (offset size : UInt32) (buffer : Mem) : memfsWrite w p offset size buffer = (0, w) := by
  simp only [memfsWrite, hp.fsSpecific, hdir, if_true]

/-- A write past the end: the content is moved to a new block at the heap's position. -/
theorem write_grow (h : Sound w N) (i : UInt32) {offset newSize : UInt32} {bs : List UInt8}
    (hsize : newSize.toNat = offset.toNat + bs.length)
    (hgrow : (w.data.inode i).size.toNat < newSize.toNat)
    (hfit : w.heap.heapPos.toNat + newSize.toNat ≤ 0x10000) {new : Inode} {heap : Heap}
    (hnew : new = { w.data.inode i with data := some w.heap.heapPos, size := newSize })
    (hheap : heap = { w.heap with
      mem := (w.heap.mem.put w.heap.heapPos (w.content i)).put (w.heap.heapPos + offset) bs
      heapPos := w.heap.heapPos + align4 newSize }) :
    let w' : World Memfs := ⟨heap, { w.data with inode := Function.update w.data.inode i new }⟩
    Sound w' N ∧ (∀ j, j ≠ i → w'.content j = w.content j) ∧
      w'.content i = patch (w.content i) offset.toNat bs := by
  have hlen := h.length_content i
  have haligned := h.ok.aligned
  have hend : heap.heapPos.toNat = w.heap.heapPos.toNat + (newSize.toNat + 3) / 4 * 4 := by
    rw [hheap]; exact toNat_heapPos_add h.ok hfit
  have hmem : heap.mem =
      (w.heap.mem.put w.heap.heapPos (w.content i)).put (w.heap.heapPos + offset) bs := by rw [hheap]
  have hdata : new.data = some w.heap.heapPos := by rw [hnew]
  have hnewSize : new.size = newSize := by rw [hnew]
  have hdir : new.isDir = (w.data.inode i).isDir := by rw [hnew]
  have hok : heap.Ok := ⟨by omega, by omega⟩
  have hoff : (w.heap.heapPos + offset).toNat = w.heap.heapPos.toNat + offset.toNat :=
    toNat_add_of_lt (by omega)
  have hf₁ : Fits w.heap.heapPos (w.content i).length := .of_le (by omega)
  have hf₂ : Fits (w.heap.heapPos + offset) bs.length := .of_le (by omega)
  clear hheap
  obtain ⟨hsound, hothers⟩ := h.replace hdata hdir
    hok (by omega) haligned (by rw [hnewSize]; omega)
    (fun j b _ hj => .inr (h.below hj)) (fun p j hp => .inr (h.node hp).below)
    (fun b k hb _ => by
      rw [hmem, Mem.bytes_put_of_disjoint hf₂ (.of_le (by omega)) (.inr (by omega)),
        Mem.bytes_put_of_disjoint hf₁ (.of_le (by omega)) (.inr (by omega))])
    (fun x hx hx' => by
      rw [hmem, Mem.put_of_le (by omega), Mem.put_of_le (by omega)]
      exact h.zero x (by omega) hx')
  refine ⟨hsound, hothers, ?_⟩
  have hpatch : ((w.heap.mem.put w.heap.heapPos (w.content i)).put
      (w.heap.heapPos + UInt32.ofNat offset.toNat) bs).bytes w.heap.heapPos newSize.toNat =
        patch (w.content i) offset.toNat bs := by
    refine bytes_put_patch (.of_le (by omega)) (by omega) fun k hk _ => ?_
    by_cases hkl : k < (w.content i).length
    · exact Mem.put_of_mem hf₁ hkl
    · have hk' : (w.heap.heapPos + UInt32.ofNat k).toNat = w.heap.heapPos.toNat + k :=
        toNat_add_ofNat (by omega)
      rw [Mem.put_of_le (by omega), h.zero _ (by omega) (by omega), List.getD_eq_default _ _ (by omega)]
  rw [UInt32.ofNat_toNat, ← hmem] at hpatch
  simp only [World.content, Function.update_self, hdata, hnewSize]
  exact hpatch

/-- A write into the block there is. -/
theorem write_inPlace (h : Sound w N) {i a : UInt32} (hdata : (w.data.inode i).data = some a)
    {offset : UInt32} {bs : List UInt8}
    (hin : offset.toNat + bs.length ≤ (w.data.inode i).size.toNat) {heap : Heap}
    (hheap : heap = { w.heap with mem := w.heap.mem.put (a + offset) bs }) :
    let w' : World Memfs := ⟨heap, { w.data with inode := Function.update w.data.inode i (w.data.inode i) }⟩
    Sound w' N ∧ (∀ j, j ≠ i → w'.content j = w.content j) ∧
      w'.content i = patch (w.content i) offset.toNat bs := by
  have hlen := h.length_content i
  have hbound := h.ok.bounded
  have hb := h.below hdata
  have hpos : heap.heapPos = w.heap.heapPos := by rw [hheap]
  have hmem : heap.mem = w.heap.mem.put (a + offset) bs := by rw [hheap]
  have hok : heap.Ok := by rw [hheap]; exact ⟨h.ok.aligned, h.ok.bounded⟩
  have hoff : (a + offset).toNat = a.toNat + offset.toNat := toNat_add_of_lt (by omega)
  have hf : Fits (a + offset) bs.length := .of_le (by omega)
  clear hheap
  obtain ⟨hsound, hothers⟩ := h.replace hdata rfl hok (by rw [hpos])
    (h.aligned hdata) (by rw [hpos]; exact hb)
    (fun j b hj hd => h.apart hj.symm hdata hd) (fun p j hp => h.apartNode hdata hp)
    (fun b k hbk hapart => by
      rw [hmem, Mem.bytes_put_of_disjoint hf (.of_le (by omega)) (by unfold Apart at *; omega)])
    (fun x hx hx' => by
      rw [hpos] at hx
      rw [hmem, Mem.put_of_le (by omega)]
      exact h.zero x hx hx')
  refine ⟨hsound, hothers, ?_⟩
  have hc : w.content i = w.heap.mem.bytes a (w.data.inode i).size.toNat := by
    simp only [World.content, hdata]
  have hpatch : (w.heap.mem.put (a + UInt32.ofNat offset.toNat) bs).bytes a (w.data.inode i).size.toNat =
      patch (w.content i) offset.toNat bs :=
    bytes_put_patch (.of_le (by omega)) (by omega) fun k hk _ => by rw [hc, Mem.getD_bytes hk]
  rw [UInt32.ofNat_toNat, ← hmem] at hpatch
  simp only [World.content, Function.update_self, hdata] at hpatch ⊢
  exact hpatch

/-- **What `memfs_write` does to a file**, when `kmalloc` does not return `NULL`. -/
theorem memfsWrite_sound (h : Sound w N) {p i : UInt32} (hp : NodeFor w p i)
    (hdir : (w.data.inode i).isDir = false) {offset size : UInt32}
    (hno : offset.toNat + size.toNat < 2 ^ 31) {buffer : Mem}
    (hmem : (memfsWrite w p offset size buffer).2.heap.failures = w.heap.failures) :
    ∃ w', memfsWrite w p offset size buffer = (size, w') ∧ Sound w' N ∧ SameTree w.data w'.data ∧
      (∀ j, j ≠ i → w'.content j = w.content j) ∧
      w'.content i = patch (w.content i) offset.toNat (buffer.bytes 0 size.toNat) := by
  have hsum : (offset + size).toNat = offset.toNat + size.toNat := toNat_add_of_lt (by omega)
  have hbs := Mem.length_bytes buffer 0 size.toNat
  have hbound := h.ok.bounded
  simp only [memfsWrite, hp.fsSpecific, hdir, Bool.false_eq_true, if_false] at hmem ⊢
  have htree : ∀ new : Inode, new.name = (w.data.inode i).name → new.isDir = (w.data.inode i).isDir →
      new.children = (w.data.inode i).children →
      SameTree w.data { w.data with inode := Function.update w.data.inode i new } := by
    intro new hname hisDir hchildren
    refine ⟨rfl, fun j => ?_, fun j => ?_, fun j => ?_⟩ <;> by_cases hj : j = i
    all_goals first | subst hj; simp [*] | simp [Function.update_of_ne hj]
  by_cases hgt : offset + size > (w.data.inode i).size
  · simp only [if_pos hgt] at hmem ⊢
    rw [gt_iff_lt, UInt32.lt_iff_toNat_lt, hsum] at hgt
    have hfit : w.heap.heapPos.toNat + (offset + size).toNat ≤ 0x10000 := by
      refine kmalloc_fits ?_ (by omega)
      rw [← failures_growInode w.heap (w.data.inode i)]
      simpa using hmem
    have hgrow := growInode_eq (h.fileBlock i) (by omega) hfit
    have hsize : (offset + size).toNat = offset.toNat + (buffer.bytes 0 size.toNat).length := by
      rw [hsum, hbs]
    obtain ⟨hsound, hothers, hcontent⟩ := write_grow h i hsize (by omega) hfit rfl rfl
    simp only [hgrow, copyIn]
    exact ⟨_, rfl, hsound, htree _ rfl rfl rfl, hothers, hcontent⟩
  · simp only [if_neg hgt] at hmem ⊢
    rw [gt_iff_lt, UInt32.lt_iff_toNat_lt, hsum] at hgt
    cases hdata : (w.data.inode i).data with
    | some a =>
      have hin : offset.toNat + (buffer.bytes 0 size.toNat).length ≤ (w.data.inode i).size.toNat := by omega
      obtain ⟨hsound, hothers, hcontent⟩ := write_inPlace h hdata hin rfl
      simp only [copyIn]
      exact ⟨_, rfl, hsound, htree _ rfl rfl rfl, hothers, hcontent⟩
    | none =>
      have hzero : (w.data.inode i).size.toNat = 0 := by rw [h.empty hdata]; rfl
      have hs : size.toNat = 0 := by omega
      have ho : offset.toNat = 0 := by omega
      have hupdate : Function.update w.data.inode i (w.data.inode i) = w.data.inode :=
        Function.update_eq_self i w.data.inode
      simp only [copyIn, hs, ho, Mem.bytes_zero, if_true, hupdate]
      refine ⟨_, rfl, h, .refl _, fun _ _ => rfl, ?_⟩
      have hnil : w.content i = [] := by simp only [World.content, hdata]
      rw [hnil]
      rfl

end Basedos.Fs
