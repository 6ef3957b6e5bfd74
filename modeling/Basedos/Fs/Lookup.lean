import Basedos.Fs.Memfs
import Basedos.Fs.Path

/-!
# Lookup in a memory file system

What `vfs_open` does when `fs_root` is a node of the memory file system: every piece
found takes a fresh node from the heap, and nothing else changes.

## What is proved

* `lookupPieces_room` — with room for the nodes, the lookup ends where following the
  pieces in the tree ends, at a node for that inode (a new one, unless there are no
  pieces), and has moved the heap on by 312 bytes for each piece found (`Grown`).
* `lookupPieces_noRoom` — without, `kmalloc` returns `NULL` once, the node is cleared
  and filled in through that `NULL`, and the lookup ends with `NULL`.
* `vfsOpen_reference` — **path resolution equals its reference.** The loop ends
  because every round moves the path on (`length_advance_lt`).
-/

namespace Basedos.Fs

open Basedos.Lib Basedos.CLib Basedos.Kernel

/-! ### Nodes that stand for an inode -/

/-- The node at `p`, in the part of the heap handed out, stands for inode `i`. -/
structure NodeFor (w : World Memfs) (p i : UInt32) : Prop where
  below : p.toNat + 312 ≤ w.heap.heapPos.toNat
  flags : (w.node p).flags = if (w.data.inode i).isDir then FS_DIRECTORY else FS_FILE
  read : (w.node p).read = memfsReadAddr
  write : (w.node p).write = memfsWriteAddr
  finddir : (w.node p).finddir = if (w.data.inode i).isDir then memfsFinddirAddr else 0
  fsSpecific : (w.node p).fsSpecific = i

theorem NodeFor.inodeOf {w : World Memfs} {p i : UInt32} (h : NodeFor w p i) :
    w.inodeOf p = w.data.inode i := by
  rw [World.inodeOf, h.fsSpecific]

/-- A node filled in by assignments stands for the inode they say. -/
theorem nodeFor_of_load {w : World Memfs} {p i : UInt32} {fs : List (Field × UInt32)}
    (hp : p.toNat + 312 ≤ w.heap.heapPos.toNat) (hload : ∀ f, loadField w.heap.mem p f = assigned fs f)
    (hflags : assigned fs .flags = if (w.data.inode i).isDir then FS_DIRECTORY else FS_FILE)
    (hread : assigned fs .read = memfsReadAddr) (hwrite : assigned fs .write = memfsWriteAddr)
    (hfinddir : assigned fs .finddir = if (w.data.inode i).isDir then memfsFinddirAddr else 0)
    (hspecific : assigned fs .fsSpecific = i) : NodeFor w p i :=
  ⟨hp, (hload _).trans hflags, (hload _).trans hread, (hload _).trans hwrite, (hload _).trans hfinddir,
    (hload _).trans hspecific⟩

/-- Of two states: the second has `n` more nodes in the heap and is otherwise the same. -/
structure Grown (w w' : World Memfs) (n : ℕ) : Prop where
  data : w'.data = w.data
  heapPos : w'.heap.heapPos.toNat = w.heap.heapPos.toNat + n * 312
  ok : w'.heap.Ok
  failures : w'.heap.failures = w.heap.failures
  nullAccesses : w'.heap.nullAccesses = w.heap.nullAccesses
  below : ∀ b k, b.toNat + k ≤ w.heap.heapPos.toNat → w'.heap.mem.bytes b k = w.heap.mem.bytes b k
  above : ∀ x : UInt32, w'.heap.heapPos.toNat ≤ x.toNat → w'.heap.mem x = w.heap.mem x

theorem Grown.refl {w : World Memfs} (h : w.heap.Ok) : Grown w w 0 :=
  ⟨rfl, rfl, h, rfl, rfl, fun _ _ _ => rfl, fun _ _ => rfl⟩

theorem Grown.trans {w₁ w₂ w₃ : World Memfs} {n k : ℕ} (h₁ : Grown w₁ w₂ n) (h₂ : Grown w₂ w₃ k) :
    Grown w₁ w₃ (n + k) where
  data := h₂.data.trans h₁.data
  heapPos := by rw [h₂.heapPos, h₁.heapPos]; omega
  ok := h₂.ok
  failures := h₂.failures.trans h₁.failures
  nullAccesses := h₂.nullAccesses.trans h₁.nullAccesses
  below b k hb := by
    rw [h₂.below b k (by rw [h₁.heapPos]; omega), h₁.below b k hb]
  above x hx := by
    rw [h₂.above x hx, h₁.above x (by rw [h₂.heapPos] at hx; omega)]

/-- A node stands for its inode as long as its bytes are kept, and the kind of the inode. -/
theorem NodeFor.congr {w w' : World Memfs} {p i : UInt32} (hp : NodeFor w p i)
    (hpos : w.heap.heapPos.toNat ≤ w'.heap.heapPos.toNat)
    (hbytes : w'.heap.mem.bytes p 312 = w.heap.mem.bytes p 312)
    (hdir : (w'.data.inode i).isDir = (w.data.inode i).isDir) : NodeFor w' p i := by
  have hnode : w'.node p = w.node p := loadNode_congr hbytes
  refine ⟨hp.below.trans hpos, ?_, ?_, ?_, ?_, ?_⟩ <;> rw [hnode]
  · rw [hdir]
    exact hp.flags
  · exact hp.read
  · exact hp.write
  · rw [hdir]
    exact hp.finddir
  · exact hp.fsSpecific

/-- So it does when nodes are made. -/
theorem NodeFor.grown {w w' : World Memfs} {p i : UInt32} {n : ℕ} (hp : NodeFor w p i)
    (h : Grown w w' n) : NodeFor w' p i :=
  hp.congr (by rw [h.heapPos]; omega) (h.below p 312 hp.below) (by rw [h.data])

/-! ### A new node -/

/-- The state after a node has been made in a block from `kmalloc`. -/
def withNode (w : World Memfs) (name : List UInt8) (fs : List (Field × UInt32)) : World Memfs :=
  { w with heap := fillNode (kmalloc w.heap nodeSize).2 (kmalloc w.heap nodeSize).1 name fs }

variable {w : World Memfs}

/-- With room for it, the node lies where the heap's position was, and nothing else changes. -/
theorem withNode_room (hok : w.heap.Ok) (hroom : w.heap.heapPos.toNat + 312 ≤ 0x10000)
    {name : List UInt8} (hname : name.length < 256) (fs : List (Field × UInt32)) :
    (kmalloc w.heap nodeSize).1 = some w.heap.heapPos ∧ Grown w (withNode w name fs) 1 ∧
      ∀ f, loadField (withNode w name fs).heap.mem w.heap.heapPos f = assigned fs f := by
  have hsize : nodeSize.toNat = 312 := rfl
  have hfits : Fits w.heap.heapPos 312 := .of_le (by omega)
  rcases kmalloc_cases w.heap nodeSize with ⟨hlt, -⟩ | ⟨-, heq⟩
  · rw [hsize] at hlt
    omega
  · have hok' := kmalloc_ok hok nodeSize
    have hpos := toNat_heapPos_add hok (show w.heap.heapPos.toNat + nodeSize.toNat ≤ 0x10000 from hroom)
    have hw : (withNode w name fs).heap = { w.heap with
        heapPos := w.heap.heapPos + align4 nodeSize, mem := makeNode w.heap.mem w.heap.heapPos name fs } := by
      rw [withNode, heq]; rfl
    rw [hsize] at hpos
    refine ⟨by rw [heq], ⟨rfl, ?_, ?_, ?_, ?_, ?_, ?_⟩, ?_⟩
    · rw [hw, hpos]
    · rw [hw]
      rw [heq] at hok'
      exact ⟨hok'.aligned, hok'.bounded⟩
    · rw [hw]
    · rw [hw]
    · intro b k hb
      rw [hw]
      exact makeNode_bytes hfits hname fs (.of_le (by omega)) (.inr (by omega))
    · intro x hx
      rw [hw] at hx ⊢
      rw [hpos] at hx
      have hx' := x.toNat_lt
      have hbytes := makeNode_bytes (m := w.heap.mem) hfits hname fs (b := x) (n := 1)
        (.of_le (by omega)) (.inl (by omega))
      simpa [Mem.bytes] using hbytes
    · intro f
      rw [hw]
      exact loadField_makeNode hfits hname fs f

/-- Without, `kmalloc` returns `NULL` and the node is made through it. -/
theorem withNode_noRoom (hok : w.heap.Ok) (hroom : 0x10000 < w.heap.heapPos.toNat + 312)
    (name : List UInt8) (fs : List (Field × UInt32)) :
    (kmalloc w.heap nodeSize).1 = none ∧ withNode w name fs = { w with heap :=
      { w.heap with failures := w.heap.failures + 1, nullAccesses := w.heap.nullAccesses + 1 } } := by
  have hsize : nodeSize.toNat = 312 := rfl
  have := hok.bounded
  rcases kmalloc_cases w.heap nodeSize with ⟨-, heq⟩ | ⟨hle, -⟩
  · exact ⟨by rw [heq], by rw [withNode, heq]; rfl⟩
  · rw [hsize] at hle
    omega

/-! ### One lookup -/

/-- A lookup in a node for a directory: a node for the child found is made. -/
theorem vfsFinddir_dir {p i : UInt32} (hp : NodeFor w p i) (hdir : (w.data.inode i).isDir) {name : List UInt8}
    (hname : 0 ∉ name) :
    vfsFinddir memfsDrivers w (some p) name =
      match w.data.child i name with
      | none => (none, w)
      | some c => ((kmalloc w.heap nodeSize).1, withNode w name (childFields c (w.data.inode c))) := by
  have hflags : (w.node p).flags &&& 0x7 = FS_DIRECTORY := by rw [hp.flags, if_pos hdir]; rfl
  have hfind : (w.node p).finddir = memfsFinddirAddr := by rw [hp.finddir, if_pos hdir]
  have hne : memfsFinddirAddr ≠ 0 := by decide
  simp only [vfsFinddir, hflags, hfind, hne, ne_eq, not_false_eq_true, and_self, if_true, memfsDrivers,
    memfsFinddir, hp.inodeOf, hdir, not_true_eq_false, if_false, find_strcmp w.data i hname]
  cases hc : w.data.child i name with
  | none => rfl
  | some c => simp only [w.data.child_name hc]; rfl

/-- A lookup in a node for inode `i`. -/
theorem vfsFinddir_eq {p i : UInt32} (hp : NodeFor w p i) {name : List UInt8} (hname : 0 ∉ name)
    (hlen : name.length < 256) :
    vfsFinddir memfsDrivers w (some p) name =
      match w.data.lookup i name with
      | none => (none, w)
      | some c => ((kmalloc w.heap nodeSize).1, withNode w name (childFields c (w.data.inode c))) := by
  by_cases hdir : (w.data.inode i).isDir
  · rw [vfsFinddir_dir hp hdir hname, Memfs.lookup, if_pos ⟨hlen, hdir⟩]
  · have hfind : (w.node p).finddir = 0 := by rw [hp.finddir, if_neg hdir]
    simp [vfsFinddir, hfind, Memfs.lookup, hdir]

/-- The node `memfs_finddir` makes stands for the child. -/
theorem withNode_nodeFor (hok : w.heap.Ok) (hroom : w.heap.heapPos.toNat + 312 ≤ 0x10000)
    {name : List UInt8} (hname : name.length < 256) (c : UInt32) :
    NodeFor (withNode w name (childFields c (w.data.inode c))) w.heap.heapPos c := by
  obtain ⟨-, hgrown, hload⟩ := withNode_room hok hroom hname (childFields c (w.data.inode c))
  exact nodeFor_of_load (by rw [hgrown.heapPos]) hload rfl rfl rfl rfl rfl

/-! ### All the pieces -/

/-- **One piece**: there is no child of that name, or there is no room for its node, or the lookup goes on
from a node for it. -/
theorem lookupPieces_cases {p i : UInt32} (hp : NodeFor w p i) (hok : w.heap.Ok) {name : List UInt8}
    (hname : 0 ∉ name) (ps : List (List UInt8)) :
    (w.data.lookup i name = none ∧ lookupPieces memfsDrivers w (some p) (name :: ps) = (none, w)) ∨
    ∃ c, w.data.lookup i name = some c ∧
      (0x10000 < w.heap.heapPos.toNat + 312 ∧
          lookupPieces memfsDrivers w (some p) (name :: ps) = (none, { w with heap :=
            { w.heap with failures := w.heap.failures + 1, nullAccesses := w.heap.nullAccesses + 1 } }) ∨
        w.heap.heapPos.toNat + 312 ≤ 0x10000 ∧ ∃ w', Grown w w' 1 ∧ NodeFor w' w.heap.heapPos c ∧
          (w'.node w.heap.heapPos).length = (w.data.inode c).size ∧
          lookupPieces memfsDrivers w (some p) (name :: ps) =
            lookupPieces memfsDrivers w' (some w.heap.heapPos) ps) := by
  rw [lookupPieces]
  by_cases hlen : name.length < 256
  · rw [if_neg (Nat.not_le.mpr hlen), vfsFinddir_eq hp hname hlen]
    cases w.data.lookup i name with
    | none => exact .inl ⟨rfl, rfl⟩
    | some c =>
      refine .inr ⟨c, rfl, ?_⟩
      by_cases hfit : w.heap.heapPos.toNat + 312 ≤ 0x10000
      · obtain ⟨hk, hgrown, hload⟩ := withNode_room hok hfit hlen (childFields c (w.data.inode c))
        refine .inr ⟨hfit, _, hgrown, withNode_nodeFor hok hfit hlen c, hload .length, ?_⟩
        simp only [hk]
      · obtain ⟨hk, heq⟩ := withNode_noRoom hok (Nat.not_le.mp hfit) name (childFields c (w.data.inode c))
        refine .inl ⟨Nat.not_le.mp hfit, ?_⟩
        simp only [hk, heq]
  · have hl : w.data.lookup i name = none := if_neg (by simp [hlen])
    exact .inl ⟨hl, if_pos (Nat.not_lt.mp hlen)⟩

/-- **Lookup with room for the nodes**: it ends where following the pieces in the tree does. -/
theorem lookupPieces_room {p i : UInt32} (hp : NodeFor w p i) (hok : w.heap.Ok)
    {ps : List (List UInt8)} (hps : ∀ q ∈ ps, 0 ∉ q)
    (hroom : w.heap.heapPos.toNat + w.data.found i ps * 312 ≤ 0x10000) :
    ∃ r w', lookupPieces memfsDrivers w (some p) ps = (r, w') ∧ Grown w w' (w.data.found i ps) ∧
      (w.data.follow i ps = none ∧ r = none ∨
        ∃ c q, w.data.follow i ps = some c ∧ r = some q ∧ NodeFor w' q c ∧
          (q = p ∨ w.heap.heapPos.toNat ≤ q.toNat)) := by
  induction ps generalizing w p i with
  | nil => exact ⟨some p, w, rfl, .refl hok, .inr ⟨i, p, rfl, rfl, hp, .inl rfl⟩⟩
  | cons name ps ih =>
    obtain ⟨hname, hrest⟩ := List.forall_mem_cons.mp hps
    rcases lookupPieces_cases hp hok hname ps with
      ⟨hc, heq⟩ | ⟨c, hc, ⟨hno, -⟩ | ⟨-, w₁, hgrown, hnode, -, heq⟩⟩
    · simp only [Memfs.follow, Memfs.found, hc]
      exact ⟨none, w, heq, .refl hok, .inl ⟨rfl, rfl⟩⟩
    · simp only [Memfs.found, hc] at hroom
      omega
    · simp only [Memfs.follow, Memfs.found, hc, Option.bind_some] at hroom ⊢
      have hpos := hgrown.heapPos
      rw [heq]
      rw [← hgrown.data] at hroom ⊢
      obtain ⟨r, w', heq', hgrown', hcase⟩ := ih hnode hgrown.ok hrest (by omega)
      refine ⟨r, w', heq', by rw [Nat.add_comm]; exact hgrown.trans hgrown', hcase.imp_right ?_⟩
      rintro ⟨c', q, hc', hr, hq, hqp⟩
      refine ⟨c', q, hc', hr, hq, .inr ?_⟩
      rcases hqp with rfl | hle
      · exact le_rfl
      · omega

/-- **Lookup without room for a node**: one `kmalloc` returns `NULL`, which is written through
and ends the lookup. -/
theorem lookupPieces_noRoom {p i : UInt32} (hp : NodeFor w p i) (hok : w.heap.Ok)
    {ps : List (List UInt8)} (hps : ∀ q ∈ ps, 0 ∉ q)
    (hroom : 0x10000 < w.heap.heapPos.toNat + w.data.found i ps * 312) :
    ∃ w', lookupPieces memfsDrivers w (some p) ps = (none, w') ∧ w'.data = w.data ∧
      w'.heap.failures = w.heap.failures + 1 ∧ w'.heap.nullAccesses = w.heap.nullAccesses + 1 := by
  have hbound := hok.bounded
  induction ps generalizing w p i with
  | nil => simp only [Memfs.found] at hroom; omega
  | cons name ps ih =>
    obtain ⟨hname, hrest⟩ := List.forall_mem_cons.mp hps
    rcases lookupPieces_cases hp hok hname ps with
      ⟨hc, -⟩ | ⟨c, hc, ⟨-, heq⟩ | ⟨-, w₁, hgrown, hnode, -, heq⟩⟩
    · simp only [Memfs.found, hc] at hroom
      omega
    · exact ⟨_, heq, rfl, rfl, rfl⟩
    · simp only [Memfs.found, hc] at hroom
      have hpos := hgrown.heapPos
      rw [← hgrown.data] at hroom
      obtain ⟨w', heq', hdata, hfail, hnull⟩ := ih hnode hgrown.ok hrest (by omega) hgrown.ok.bounded
      exact ⟨w', heq.trans heq', hdata.trans hgrown.data, by rw [hfail, hgrown.failures],
        by rw [hnull, hgrown.nullAccesses]⟩

/-! ### From the root -/

/-- The memory file system at the root: `root` is its root directory's node. -/
structure Mounted (w : World Memfs) (root : UInt32) : Prop where
  ok : w.heap.Ok
  nodeFor : NodeFor w root w.data.rootNode
  isDir : (w.data.inode w.data.rootNode).isDir = true

theorem length_root : (ascii ['r', 'o', 'o', 't']).length < 256 := by decide

/-- `memfs_mount`, with room for the node and without. -/
theorem memfsMount_cases (hok : w.heap.Ok) (device : CStr) :
    (w.heap.heapPos.toNat + 312 ≤ 0x10000 ∧ memfsMount w device =
      (some w.heap.heapPos, withNode w (ascii ['r', 'o', 'o', 't']) (rootFields w.data.rootNode))) ∨
    (0x10000 < w.heap.heapPos.toNat + 312 ∧ (memfsMount w device).1 = none) := by
  by_cases hfit : w.heap.heapPos.toNat + 312 ≤ 0x10000
  · obtain ⟨hk, -, -⟩ := withNode_room hok hfit length_root []
    refine .inl ⟨hfit, ?_⟩
    rw [memfsMount, withNode]
    rcases hk' : kmalloc w.heap nodeSize with ⟨_ | q, h'⟩ <;> rw [hk'] at hk <;> cases hk
    rfl
  · obtain ⟨hk, -⟩ := withNode_noRoom hok (Nat.not_le.mp hfit) [] []
    refine .inr ⟨Nat.not_le.mp hfit, ?_⟩
    rw [memfsMount]
    rcases hk' : kmalloc w.heap nodeSize with ⟨_ | q, h'⟩
    · rfl
    · rw [hk'] at hk
      cases hk

/-- `memfs_mount` makes such a root. -/
theorem memfsMount_mounted (hok : w.heap.Ok) (hdir : (w.data.inode w.data.rootNode).isDir = true)
    {device : CStr} {root : UInt32} (h : (memfsMount w device).1 = some root) :
    Mounted (memfsMount w device).2 root ∧ Grown w (memfsMount w device).2 1 := by
  rcases memfsMount_cases hok device with ⟨hfit, heq⟩ | ⟨-, hnone⟩
  · obtain ⟨-, hgrown, hload⟩ :=
      withNode_room hok hfit length_root (rootFields w.data.rootNode)
    rw [heq] at h ⊢
    cases h
    exact ⟨⟨hgrown.ok, nodeFor_of_load (by rw [hgrown.heapPos]) hload (if_pos hdir).symm rfl rfl
      (if_pos hdir).symm rfl, hdir⟩, hgrown⟩
  · rw [hnone] at h
    cases h

/-! ### Following the pieces of a path -/

section

variable {d : Memfs}

theorem Memfs.follow_append {i : UInt32} (ps qs : List (List UInt8)) :
    d.follow i (ps ++ qs) = (d.follow i ps).bind fun j => d.follow j qs := by
  induction ps generalizing i with
  | nil => rfl
  | cons p ps ih =>
    simp only [List.cons_append, Memfs.follow]
    cases d.lookup i p with
    | none => rfl
    | some c => exact ih

/-- A piece is not found for one of three reasons. -/
theorem Memfs.lookup_eq_none {i : UInt32} {p : List UInt8} : d.lookup i p = none ↔
    256 ≤ p.length ∨ (d.inode i).isDir = false ∨ ∀ c ∈ (d.inode i).children, (d.inode c).name.bytes ≠ p := by
  rw [Memfs.lookup]
  split
  · next h =>
    simp only [Memfs.child, List.find?_eq_none, decide_eq_true_eq, h.2, Bool.true_eq_false, false_or]
    exact ⟨.inr, fun h' => h'.resolve_left (by omega)⟩
  · next h =>
    simp only [true_iff]
    by_cases hlen : 256 ≤ p.length
    · exact .inl hlen
    · exact .inr (.inl (by simpa [Nat.not_le.mp hlen] using h))

/-- The pieces cannot be followed when one of them is not found where the ones before it lead. -/
theorem Memfs.follow_eq_none {i : UInt32} {ps : List (List UInt8)} : d.follow i ps = none ↔
    ∃ qs p rs j, ps = qs ++ p :: rs ∧ d.follow i qs = some j ∧ d.lookup j p = none := by
  constructor
  · intro h
    induction ps generalizing i with
    | nil => cases h
    | cons p ps ih =>
      rw [Memfs.follow] at h
      cases hc : d.lookup i p with
      | none => exact ⟨[], p, ps, i, rfl, rfl, hc⟩
      | some c =>
        rw [hc, Option.bind_some] at h
        obtain ⟨qs, q, rs, j, rfl, hj, hq⟩ := ih h
        exact ⟨p :: qs, q, rs, j, rfl, by rw [Memfs.follow, hc, Option.bind_some, hj], hq⟩
  · rintro ⟨qs, p, rs, j, rfl, hj, hp⟩
    rw [Memfs.follow_append, hj, Option.bind_some, Memfs.follow, hp, Option.bind_none]

/-- No piece of 256 characters is ever found. -/
theorem Memfs.follow_of_long {i : UInt32} {ps : List (List UInt8)} {p : List UInt8} (hp : p ∈ ps)
    (hlen : 256 ≤ p.length) : d.follow i ps = none := by
  obtain ⟨qs, rs, rfl⟩ := List.append_of_mem hp
  rw [Memfs.follow_append]
  cases hj : d.follow i qs with
  | none => rfl
  | some j =>
    rw [Option.bind_some, Memfs.follow, Memfs.lookup_eq_none.mpr (.inl hlen), Option.bind_none]

/-- Why the pieces cannot be followed: one is too long, or is looked up in a file, or is missing. -/
theorem Memfs.follow_eq_none_reasons {i : UInt32} {ps : List (List UInt8)} : d.follow i ps = none ↔
    (∃ p ∈ ps, 256 ≤ p.length) ∨
      ∃ qs p rs j, ps = qs ++ p :: rs ∧ d.follow i qs = some j ∧
        ((d.inode j).isDir = false ∨ ∀ c ∈ (d.inode j).children, (d.inode c).name.bytes ≠ p) := by
  constructor
  · intro hnone
    obtain ⟨qs, p, rs, j, hps, hj, hp⟩ := Memfs.follow_eq_none.mp hnone
    rcases Memfs.lookup_eq_none.mp hp with hlen | hp
    · exact .inl ⟨p, by rw [hps]; simp, hlen⟩
    · exact .inr ⟨qs, p, rs, j, hps, hj, hp⟩
  · rintro (⟨p, hp, hlen⟩ | ⟨qs, p, rs, j, hps, hj, hp⟩)
    · exact Memfs.follow_of_long hp hlen
    · exact Memfs.follow_eq_none.mpr ⟨qs, p, rs, j, hps, hj, Memfs.lookup_eq_none.mpr (.inr hp)⟩

end

/-! ### Path resolution -/

variable {root : UInt32}

theorem not_mem_pieces {rest : List UInt8} (h : 0 ∉ rest) : ∀ q ∈ pieces slash rest, 0 ∉ q :=
  fun _ hq h0 => h (mem_of_mem_pieces hq h0)

/-- How many nodes the lookup of an absolute path makes. -/
def Memfs.nodesFor (d : Memfs) (path : List UInt8) : ℕ := d.found d.rootNode (pieces slash path.tail)

/-- **The lookup of an absolute path with room for the nodes.** -/
theorem vfsOpen_room (h : Mounted w root) {rest : List UInt8} (hrest : 0 ∉ rest) (flags : UInt32)
    (hroom : w.heap.heapPos.toNat + w.data.nodesFor (slash :: rest) * 312 ≤ 0x10000) :
    ∃ r w', vfsOpen memfsDrivers w (some root) (slash :: rest) flags = (r, w') ∧
      Grown w w' (w.data.nodesFor (slash :: rest)) ∧
      (w.data.resolve (slash :: rest) = none ∧ r = none ∨
        ∃ c q, w.data.resolve (slash :: rest) = some c ∧ r = some q ∧ NodeFor w' q c ∧
          (q = root ∨ w.heap.heapPos.toNat ≤ q.toNat)) := by
  rw [vfsOpen_absolute, Memfs.resolve, if_pos rfl]
  exact lookupPieces_room h.nodeFor h.ok (not_mem_pieces hrest) hroom

/-- The lookup of an absolute path without room for the nodes. -/
theorem vfsOpen_noRoom (h : Mounted w root) {rest : List UInt8} (hrest : 0 ∉ rest) (flags : UInt32)
    (hroom : 0x10000 < w.heap.heapPos.toNat + w.data.nodesFor (slash :: rest) * 312) :
    ∃ w', vfsOpen memfsDrivers w (some root) (slash :: rest) flags = (none, w') ∧ w'.data = w.data ∧
      w'.heap.failures = w.heap.failures + 1 ∧ w'.heap.nullAccesses = w.heap.nullAccesses + 1 := by
  rw [vfsOpen_absolute]
  exact lookupPieces_noRoom h.nodeFor h.ok (not_mem_pieces hrest) hroom

/-- When `kmalloc` has not returned `NULL`, there was room. -/
theorem room_of_failures (h : Mounted w root) {rest : List UInt8} (hrest : 0 ∉ rest) {flags : UInt32}
    (hmem : (vfsOpen memfsDrivers w (some root) (slash :: rest) flags).2.heap.failures = w.heap.failures) :
    w.heap.heapPos.toNat + w.data.nodesFor (slash :: rest) * 312 ≤ 0x10000 := by
  by_contra hroom
  obtain ⟨w', heq, -, hfail, -⟩ := vfsOpen_noRoom h hrest flags (Nat.not_le.mp hroom)
  rw [heq] at hmem
  simp only [hfail] at hmem
  omega

/-- **The lookup of any path**, when no `kmalloc` returns `NULL`. -/
theorem vfsOpen_memory (h : Mounted w root) {path : List UInt8} (hpath : 0 ∉ path) {flags : UInt32}
    (hmem : (vfsOpen memfsDrivers w (some root) path flags).2.heap.failures = w.heap.failures) :
    ∃ r w' n, vfsOpen memfsDrivers w (some root) path flags = (r, w') ∧ Grown w w' n ∧
      (w.data.resolve path = none ∧ r = none ∨
        ∃ c q, w.data.resolve path = some c ∧ r = some q ∧ NodeFor w' q c ∧
          (q = root ∨ w.heap.heapPos.toNat ≤ q.toNat)) := by
  by_cases habs : path.head? = some slash
  · obtain ⟨rest, rfl⟩ := List.head?_eq_some_iff.mp habs
    have hrest : 0 ∉ rest := fun h0 => hpath (List.mem_cons_of_mem _ h0)
    obtain ⟨r, w', hopen⟩ := vfsOpen_room h hrest flags (room_of_failures h hrest hmem)
    exact ⟨r, w', _, hopen⟩
  · exact ⟨none, w, 0, vfsOpen_relative habs flags, .refl h.ok, .inl ⟨Memfs.resolve_relative _ habs, rfl⟩⟩

/-- The inode of the node a lookup gives. -/
def inodeAt (r : Ptr × World Memfs) : Option UInt32 := r.1.map fun q => (r.2.node q).fsSpecific

/-- The lookup gives a node for the inode the path stands for. -/
theorem vfsOpen_resolve (h : Mounted w root) {path : List UInt8} (hpath : 0 ∉ path) {flags : UInt32}
    (hmem : (vfsOpen memfsDrivers w (some root) path flags).2.heap.failures = w.heap.failures) :
    inodeAt (vfsOpen memfsDrivers w (some root) path flags) = w.data.resolve path := by
  obtain ⟨r, w', n, heq, -, hcase⟩ := vfsOpen_memory h hpath hmem
  rw [heq]
  rcases hcase with ⟨hnone, rfl⟩ | ⟨c, q, hsome, rfl, hq, -⟩
  · rw [hnone]
    rfl
  · rw [hsome]
    exact congrArg some hq.fsSpecific

/-- When no `kmalloc` has returned `NULL` in the lookup of a path, none has in that of its first
part: a lookup of the first part that fails is the whole lookup. -/
theorem failures_vfsOpen_append (h : Mounted w root) {rest q : List UInt8} (hrest : 0 ∉ rest)
    (hend : (slash :: rest).getLast? ≠ some slash) {flags : UInt32}
    (hmem : (vfsOpen memfsDrivers w (some root) (slash :: rest ++ slash :: q) flags).2.heap.failures =
      w.heap.failures) :
    (vfsOpen memfsDrivers w (some root) (slash :: rest) flags).2.heap.failures = w.heap.failures := by
  rw [vfsOpen_append rfl hend] at hmem
  by_cases hroom : w.heap.heapPos.toNat + w.data.nodesFor (slash :: rest) * 312 ≤ 0x10000
  · obtain ⟨r, w', heq, hgrown, -⟩ := vfsOpen_room h hrest flags hroom
    rw [heq]
    exact hgrown.failures
  · obtain ⟨w', heq, -⟩ := vfsOpen_noRoom h hrest flags (Nat.not_le.mp hroom)
    rw [heq] at hmem ⊢
    exact hmem

/-- **Path resolution equals its reference**: for every tree, every path and all flags, when no
`kmalloc` returns `NULL`. -/
theorem vfsOpen_reference (h : Mounted w root) (path : CStr) (flags : UInt32)
    (hmem : (vfsOpen memfsDrivers w (some root) path.bytes flags).2.heap.failures = w.heap.failures) :
    let r := vfsOpen memfsDrivers w (some root) path.bytes flags
    let top := w.data.rootNode
    (path.bytes.head? ≠ some slash → r.1 = none) ∧
    (path.bytes = [slash] → r.1 = some root) ∧
    (∀ rest, path.bytes = slash :: rest →
      inodeAt r = w.data.follow top (pieces slash rest) ∧
      (r.1 = none ↔ (∃ p ∈ pieces slash rest, 256 ≤ p.length) ∨
        ∃ ps p qs i, pieces slash rest = ps ++ p :: qs ∧ w.data.follow top ps = some i ∧
          ((w.data.inode i).isDir = false ∨
            ∀ c ∈ (w.data.inode i).children, (w.data.inode c).name.bytes ≠ p))) ∧
    (∀ flags', vfsOpen memfsDrivers w (some root) path.bytes flags' = r) ∧
    (∀ p q, path.bytes = p ++ slash :: q → p.head? = some slash → p.getLast? ≠ some slash →
      q ≠ [] → q.head? ≠ some slash →
      inodeAt r = (inodeAt (vfsOpen memfsDrivers w (some root) p flags)).bind
        fun i => w.data.follow i (pieces slash q)) := by
  have hresolve := vfsOpen_resolve h path.noNul hmem
  refine ⟨fun habs => by rw [vfsOpen_relative habs], ?_, ?_, ?_, ?_⟩
  · intro hp
    rw [hp, vfsOpen_absolute, pieces_nil]
    rfl
  · intro rest hp
    rw [hp] at hresolve ⊢
    rw [Memfs.resolve, if_pos rfl] at hresolve
    refine ⟨hresolve, ?_⟩
    have hnone : (vfsOpen memfsDrivers w (some root) (slash :: rest) flags).1 = none ↔
        w.data.follow w.data.rootNode (pieces slash rest) = none := by
      rw [← hresolve, inodeAt, Option.map_eq_none_iff]
    rw [hnone]
    exact Memfs.follow_eq_none_reasons
  · exact fun flags' => vfsOpen_flags _ _ _
  · intro p q hpq hp hend hq hq'
    obtain ⟨t, rfl⟩ := List.head?_eq_some_iff.mp hp
    have ht : t ≠ [] := by
      rintro rfl
      simp at hend
    have hnul : 0 ∉ slash :: t := fun h0 => path.noNul (by rw [hpq]; exact List.mem_append_left _ h0)
    have hmem' : (vfsOpen memfsDrivers w (some root) (slash :: t) flags).2.heap.failures =
        w.heap.failures := by
      rw [hpq] at hmem
      exact failures_vfsOpen_append h (fun h0 => hnul (List.mem_cons_of_mem _ h0)) hend hmem
    rw [hresolve, vfsOpen_resolve h hnul hmem', hpq, List.cons_append, Memfs.resolve, if_pos rfl,
      Memfs.resolve, if_pos rfl, pieces_append ht (by rwa [List.getLast?_cons_of_ne_nil ht] at hend),
      Memfs.follow_append]

/-- A directory `d` in the root, an empty file `f` in it. -/
def smallTree : Memfs where
  inode i :=
    if i = 2 then ⟨⟨ascii ['d'], by decide⟩, 0, none, true, [3]⟩
    else if i = 3 then ⟨⟨ascii ['f'], by decide⟩, 0, none, false, []⟩
    else ⟨rootName, 0, none, true, [2]⟩
  rootNode := 1

/-- The small tree mounted by `memfs_mount`, as the first thing in the heap. -/
def smallWorld : World Memfs := (memfsMount ⟨.initial, smallTree⟩ .empty).2

theorem smallWorld_mounted : Mounted smallWorld 0 :=
  (memfsMount_mounted Heap.initial_ok rfl rfl).1

/-- `/d/f` in the small tree. -/
theorem vfsOpen_reference_small :
    inodeAt (vfsOpen memfsDrivers smallWorld (some 0) (ascii ['/', 'd', '/', 'f']) O_RDWR) = some 3 :=
  (((vfsOpen_reference smallWorld_mounted ⟨ascii ['/', 'd', '/', 'f'], by decide⟩ O_RDWR
    (by decide +kernel)).2.2.1 (ascii ['d', '/', 'f']) rfl).1).trans (by decide +kernel)

end Basedos.Fs
