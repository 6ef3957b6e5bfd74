import Basedos.Fs.Exhaustion

/-!
# Listing a directory

`memfs_readdir` and `memfs_finddir` each walk the list of a directory's children, one as far
as an index, the other up to a name.

## The model

The list in memory ends, and no inode is on it twice (`Linked`); so it is shorter than the range of
an index. `DirNode` is the node of a directory: `memfs_mount` makes one of the root
(`memfsMount_dirNode`), `memfs_finddir` one of each directory it finds (`withNode_dirNode`).

## What is proved

`listing_lookup` — **the two walks agree**: the entries are the children in their order, and a name is found
just when one of them has it, as the first that has it.
-/

namespace Basedos.Fs

open Basedos.Lib Basedos.CLib Basedos.Kernel

variable {w : World Memfs} {p i : UInt32}

/-! ### The walk to an index -/

/-- The loop of `memfs_readdir`: `child = child->next` for as long as `i < index` and there is a child. -/
def readdirLoop (index : UInt32) : UInt32 → List UInt32 → Option UInt32
  | _, [] => none
  | i, child :: next => if i < index then readdirLoop index (i + 1) next else some child

/-- The loop goes as many children on as are missing to the index. -/
theorem readdirLoop_eq {index i : UInt32} (h : i ≤ index) (children : List UInt32) :
    readdirLoop index i children = children[index.toNat - i.toNat]? := by
  induction children generalizing i with
  | nil => rfl
  | cons child next ih =>
    rw [UInt32.le_iff_toNat_le] at h
    have hlt := index.toNat_lt
    rw [readdirLoop]
    split
    · next hi =>
      rw [UInt32.lt_iff_toNat_lt] at hi
      have hsucc : (i + 1).toNat = i.toNat + 1 := toNat_add_of_lt (by simp only [UInt32.reduceToNat]; omega)
      rw [ih (by rw [UInt32.le_iff_toNat_le, hsucc]; omega), hsucc,
        show index.toNat - i.toNat = index.toNat - (i.toNat + 1) + 1 by omega, List.getElem?_cons_succ]
    · next hi =>
      rw [UInt32.lt_iff_toNat_lt] at hi
      rw [show index.toNat - i.toNat = 0 by omega, List.getElem?_cons_zero]

/-- The child `memfs_readdir` gives the entry of is the one its loop ends at. -/
theorem memfsReaddir_loop (w : World Memfs) (node index : UInt32) :
    memfsReaddir w node index =
      if (w.inodeOf node).isDir then
        ((readdirLoop index 0 (w.inodeOf node).children).map fun c => ⟨c, (w.data.inode c).name⟩, w)
      else (none, w) := by
  rw [readdirLoop_eq UInt32.zero_le, memfsReaddir]
  cases (w.inodeOf node).isDir with
  | false => rfl
  | true =>
    simp only [UInt32.toNat_zero, Nat.sub_zero, not_true_eq_false, if_false, if_true]
    cases (w.inodeOf node).children[index.toNat]? with
    | none => rfl
    | some c => rfl

/-! ### Directories -/

/-- The node at `p` is one of a directory. -/
structure DirNode (w : World Memfs) (p i : UInt32) : Prop where
  nodeFor : NodeFor w p i
  isDir : (w.data.inode i).isDir = true
  readdir : (w.node p).readdir = memfsReaddirAddr

/-- `memfs_mount` makes one of the root. -/
theorem memfsMount_dirNode (hok : w.heap.Ok) (hdir : (w.data.inode w.data.rootNode).isDir = true) {device : CStr}
    {root : UInt32} (h : (memfsMount w device).1 = some root) :
    DirNode (memfsMount w device).2 root w.data.rootNode := by
  obtain ⟨hmounted, hgrown⟩ := memfsMount_mounted hok hdir h
  have hnode := hmounted.nodeFor
  rw [hgrown.data] at hnode
  refine ⟨hnode, by rw [hgrown.data]; exact hdir, ?_⟩
  rcases memfsMount_cases hok device with ⟨hfit, heq⟩ | ⟨-, hnone⟩
  · obtain ⟨-, -, hload⟩ := withNode_room hok hfit length_root (rootFields w.data.rootNode)
    rw [heq] at h ⊢
    cases h
    exact hload .readdir
  · rw [hnone] at h
    cases h

/-- `memfs_finddir` makes one of every directory it finds. -/
theorem withNode_dirNode (hok : w.heap.Ok) (hroom : w.heap.heapPos.toNat + 312 ≤ 0x10000) {name : List UInt8}
    (hname : name.length < 256) {c : UInt32} (hdir : (w.data.inode c).isDir = true) :
    DirNode (withNode w name (childFields c (w.data.inode c))) w.heap.heapPos c := by
  obtain ⟨-, hgrown, hload⟩ := withNode_room hok hroom hname (childFields c (w.data.inode c))
  refine ⟨withNode_nodeFor hok hroom hname c, by rw [hgrown.data]; exact hdir, (hload .readdir).trans ?_⟩
  exact if_pos hdir

/-- The children are a list in memory that ends: no inode is on it twice, and none is at `NULL`. -/
structure Linked (d : Memfs) (i : UInt32) : Prop where
  nodup : (d.inode i).children.Nodup
  notNull : 0 ∉ (d.inode i).children

/-- Such a list is shorter than the range of an index. -/
theorem Linked.length_lt {d : Memfs} (h : Linked d i) : (d.inode i).children.length < 2 ^ 32 := by
  have hnodup : ((d.inode i).children.map UInt32.toNat).Nodup := h.nodup.map fun _ _ => UInt32.toNat_inj.mp
  have hsub : (d.inode i).children.map UInt32.toNat ⊆ List.range' 1 (2 ^ 32 - 1) := by
    intro n hn
    obtain ⟨c, hc, rfl⟩ := List.mem_map.mp hn
    have hne : c.toNat ≠ 0 := fun h0 => h.notNull (UInt32.toNat_inj.mp (h0.trans UInt32.toNat_zero.symm) ▸ hc)
    have hlt := c.toNat_lt
    exact List.mem_range'_1.mpr ⟨by omega, by omega⟩
  have hle := (hnodup.subperm hsub).length_le
  rw [List.length_map, List.length_range'] at hle
  omega

/-! ### The entries -/

/-- The entry `vfs_readdir` returns for an index. -/
def World.entry (w : World Memfs) (node index : UInt32) : Option Dirent := (vfsReaddir memfsDirDrivers w node index).1

/-- It is that of the child at that place of the list. -/
theorem DirNode.entry (h : DirNode w p i) (index : UInt32) :
    w.entry p index = (w.data.inode i).children[index.toNat]?.map fun c => ⟨c, (w.data.inode c).name⟩ := by
  have hne : memfsReaddirAddr ≠ 0 := by decide
  simp only [World.entry, vfsReaddir, h.readdir, ne_eq, hne, not_false_eq_true, if_true, memfsDirDrivers,
    memfsReaddir_loop, h.nodeFor.inodeOf, h.isDir, readdirLoop_eq UInt32.zero_le, UInt32.toNat_zero, Nat.sub_zero]

/-- The entry is the first of that name: it is at some index, and none before it has the name. -/
def FirstEntry (w : World Memfs) (node : UInt32) (name : CStr) (e : Dirent) : Prop :=
  e.dName = name ∧ ∃ index, w.entry node index = some e ∧
    ∀ j < index, ∀ e', w.entry node j = some e' → e'.dName ≠ name

/-- A node says of an inode what it is: its number, whether it is a directory, its size. -/
structure Describes (w : World Memfs) (node c : UInt32) : Prop where
  inode : (w.node node).inode = c
  flags : (w.node node).flags = if (w.data.inode c).isDir then FS_DIRECTORY else FS_FILE
  length : (w.node node).length = (w.data.inode c).size

/-- The child of a name is the one of the first entry with it. -/
theorem child_firstEntry (h : DirNode w p i) (hlinked : Linked w.data i) {name : CStr} {c : UInt32}
    (hc : w.data.child i name.bytes = some c) : FirstEntry w p name ⟨c, (w.data.inode c).name⟩ := by
  have hname : (w.data.inode c).name = name := CStr.bytes_inj (w.data.child_name hc)
  obtain ⟨-, before, after, hsplit, hbefore⟩ := List.find?_eq_some_iff_append.mp hc
  have hlen := hlinked.length_lt
  rw [hsplit, List.length_append, List.length_cons] at hlen
  have hindex : (UInt32.ofNat before.length).toNat = before.length := toNat_ofNat (by omega)
  refine ⟨hname, UInt32.ofNat before.length, ?_, fun j hj e' he' => ?_⟩
  · rw [h.entry, hindex, hsplit, List.getElem?_append_right le_rfl, Nat.sub_self, List.getElem?_cons_zero,
      Option.map_some]
  · rw [UInt32.lt_iff_toNat_lt, hindex] at hj
    rw [h.entry, hsplit, List.getElem?_append_left hj, Option.map_eq_some_iff] at he'
    obtain ⟨c', hc', rfl⟩ := he'
    have hne := hbefore c' (List.mem_of_getElem? hc')
    simp only [Bool.not_eq_true', decide_eq_false_iff_not] at hne
    exact fun heq => hne (congrArg CStr.bytes heq)

/-- The entries from `0` on are the children. -/
theorem DirNode.entries (h : DirNode w p i) (hlinked : Linked w.data i) :
    ((List.range (w.data.inode i).children.length).map fun k => w.entry p (UInt32.ofNat k)) =
      ((w.data.inode i).children.map fun c => some ⟨c, (w.data.inode c).name⟩) := by
  have hlen := hlinked.length_lt
  apply List.ext_getElem
  · simp
  · intro k hk hk'
    simp only [List.length_map, List.length_range] at hk
    rw [List.getElem_map, List.getElem_range, h.entry, toNat_ofNat (by omega), List.getElem_map,
      List.getElem?_eq_getElem hk, Option.map_some]

/-- Some child has a name just when an entry has it. -/
theorem DirNode.child_iff (h : DirNode w p i) (hlinked : Linked w.data i) (name : CStr) :
    (∃ c, w.data.child i name.bytes = some c) ↔ ∃ index e, w.entry p index = some e ∧ e.dName = name := by
  constructor
  · rintro ⟨c, hc⟩
    obtain ⟨hname, index, hentry, -⟩ := child_firstEntry h hlinked hc
    exact ⟨index, _, hentry, hname⟩
  · rintro ⟨index, e, hentry, rfl⟩
    rw [h.entry, Option.map_eq_some_iff] at hentry
    obtain ⟨c, hc, rfl⟩ := hentry
    apply Option.isSome_iff_exists.mp
    rw [Memfs.child, List.find?_isSome]
    exact ⟨c, List.mem_of_getElem? hc, by simp⟩

/-- With room for a node, a child found has a node that describes it. -/
theorem DirNode.finddir_child (h : DirNode w p i) (hok : w.heap.Ok)
    (hlong : ∀ c ∈ (w.data.inode i).children, (w.data.inode c).name.bytes.length ≤ 255)
    (hroom : w.heap.heapPos.toNat + 312 ≤ 0x10000) {name : CStr} {c : UInt32}
    (hc : w.data.child i name.bytes = some c) :
    ∃ w', vfsFinddir memfsDrivers w (some p) name.bytes = (some w.heap.heapPos, w') ∧
      Describes w' w.heap.heapPos c := by
  have hshort : name.bytes.length < 256 := by
    have := hlong c (List.mem_of_find?_eq_some hc)
    rw [w.data.child_name hc] at this
    omega
  obtain ⟨hk, hgrown, hload⟩ := withNode_room hok hroom hshort (childFields c (w.data.inode c))
  rw [vfsFinddir_dir h.nodeFor h.isDir name.noNul, hc]
  refine ⟨_, by rw [← hk], hload .inode, (hload .flags).trans ?_, (hload .length).trans ?_⟩
  · rw [hgrown.data]
    rfl
  · rw [hgrown.data]
    rfl

/-- A name found is a child's. -/
theorem DirNode.child_of_finddir (h : DirNode w p i) {name : CStr} {q : UInt32}
    (hq : (vfsFinddir memfsDrivers w (some p) name.bytes).1 = some q) : ∃ c, w.data.child i name.bytes = some c := by
  rw [vfsFinddir_dir h.nodeFor h.isDir name.noNul] at hq
  cases hc : w.data.child i name.bytes with
  | none =>
    rw [hc] at hq
    cases hq
  | some c => exact ⟨c, rfl⟩

/-- **Listing and lookup agree**, in any directory whose children are a list that ends and have names of 1 to
255 characters, with room in the heap for one node. The entries of the indices from 0 on are the children in
their order, and every later one is `NULL`; a name is found just when it is listed, at a node
that says what the first child listed under it is. -/
theorem listing_lookup (h : DirNode w p i) (hok : w.heap.Ok) (hlinked : Linked w.data i)
    (hnames : ∀ c ∈ (w.data.inode i).children,
      1 ≤ (w.data.inode c).name.bytes.length ∧ (w.data.inode c).name.bytes.length ≤ 255)
    (hroom : w.heap.heapPos.toNat + 312 ≤ 0x10000) :
    ((List.range (w.data.inode i).children.length).map fun k => w.entry p (UInt32.ofNat k)) =
      ((w.data.inode i).children.map fun c => some ⟨c, (w.data.inode c).name⟩) ∧
    (∀ index, (w.data.inode i).children.length ≤ index.toNat → w.entry p index = none) ∧
    (∀ name : CStr, (∃ q, (vfsFinddir memfsDrivers w (some p) name.bytes).1 = some q) ↔
      ∃ index e, w.entry p index = some e ∧ e.dName = name) ∧
    (∀ (name : CStr) q w', vfsFinddir memfsDrivers w (some p) name.bytes = (some q, w') →
      ∃ e, FirstEntry w p name e ∧ Describes w' q e.dIno) := by
  have hfind : ∀ {name : CStr} {c}, w.data.child i name.bytes = some c →
      ∃ w', vfsFinddir memfsDrivers w (some p) name.bytes = (some w.heap.heapPos, w') ∧
        Describes w' w.heap.heapPos c := h.finddir_child hok (fun c hc => (hnames c hc).2) hroom
  refine ⟨h.entries hlinked, fun index hle => ?_, fun name => ?_, fun name q w' hq => ?_⟩
  · rw [h.entry, List.getElem?_eq_none hle, Option.map_none]
  · rw [← h.child_iff hlinked]
    constructor
    · rintro ⟨q, hq⟩
      exact h.child_of_finddir hq
    · rintro ⟨c, hc⟩
      obtain ⟨w', heq, -⟩ := hfind hc
      exact ⟨_, congrArg Prod.fst heq⟩
  · obtain ⟨c, hc⟩ := h.child_of_finddir (congrArg Prod.fst hq)
    obtain ⟨w₁, heq, hdescribes⟩ := hfind hc
    rw [heq] at hq
    cases hq
    exact ⟨_, child_firstEntry h hlinked hc, hdescribes⟩

theorem letterA_noNul : 0 ∉ ascii ['a'] := by decide

theorem lettersAb_noNul : 0 ∉ ascii ['a', 'b'] := by decide

/-- `a`. -/
def letterA : CStr := ⟨ascii ['a'], letterA_noNul⟩

/-- `ab`. -/
def lettersAb : CStr := ⟨ascii ['a', 'b'], lettersAb_noNul⟩

/-- Two files and a directory between them: the files have the same name, which begins the directory's. -/
def twinTree : Memfs where
  inode i :=
    if i = 2 then ⟨letterA, 0, none, false, []⟩
    else if i = 3 then ⟨lettersAb, 0, none, true, []⟩
    else if i = 4 then ⟨letterA, 0, none, false, []⟩
    else ⟨rootName, 0, none, true, [2, 3, 4]⟩
  rootNode := 1

/-- That tree mounted. -/
def twinWorld : World Memfs := (memfsMount ⟨.initial, twinTree⟩ .empty).2

/-- All three are listed, and by the name of the two files one is found. -/
theorem listing_lookup_small :
    ((List.range 3).map fun k => twinWorld.entry 0 (UInt32.ofNat k)) =
      [some ⟨2, letterA⟩, some ⟨3, lettersAb⟩, some ⟨4, letterA⟩] ∧
    ∃ q w e, vfsFinddir memfsDrivers twinWorld (some 0) letterA.bytes = (some q, w) ∧
      FirstEntry twinWorld 0 letterA e ∧ Describes w q e.dIno := by
  have hnode : DirNode twinWorld 0 1 := memfsMount_dirNode Heap.initial_ok rfl rfl
  have hmounted : Mounted twinWorld 0 := (memfsMount_mounted Heap.initial_ok rfl rfl).1
  have hnames : ∀ c ∈ (twinWorld.data.inode 1).children,
      1 ≤ (twinWorld.data.inode c).name.bytes.length ∧ (twinWorld.data.inode c).name.bytes.length ≤ 255 := by
    intro c hc
    have hchildren : (twinWorld.data.inode 1).children = [2, 3, 4] := rfl
    simp only [hchildren, List.mem_cons, List.not_mem_nil, or_false] at hc
    rcases hc with rfl | rfl | rfl <;> decide +kernel
  have hroom : twinWorld.heap.heapPos.toNat + 312 ≤ 0x10000 := by decide +kernel
  obtain ⟨hlist, -, hfound, hfirst⟩ :=
    listing_lookup hnode hmounted.ok ⟨by decide, by decide⟩ hnames hroom
  obtain ⟨q, hq⟩ := (hfound letterA).mpr ⟨0, ⟨2, letterA⟩, by rw [hnode.entry]; rfl, rfl⟩
  obtain ⟨e, he, hdescribes⟩ := hfirst letterA q _ (Prod.ext hq rfl)
  exact ⟨hlist, q, _, e, Prod.ext hq rfl, he, hdescribes⟩

end Basedos.Fs
