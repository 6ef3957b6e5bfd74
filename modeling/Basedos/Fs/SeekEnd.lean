import Basedos.Fs.Seek
import Basedos.Fs.Refinement
import Basedos.Fs.Cycles

/-!
# Seeking to the end of a file

The size of a file is kept twice: in its inode, and in each node `memfs_finddir` has made for it,
as it was at the lookup. A write that makes the file longer sets the first and none of the others, and
`SEEK_END` counts from the node's.

## The model

The calls are those of `Basedos.Fs.Vfs` on the memory file system. `Laid` keeps what a write may
change apart from the nodes: every file's block is below the heap's position and overlaps none of them.

## What is proved

`lseek_end_iff` — **when `SEEK_END` sees every write**: all along a run of calls just when no write of
it reaches past the end of its file.
-/

namespace Basedos.Fs

open Basedos.Lib Basedos.CLib Basedos.Kernel

variable {w w' : World Memfs} {root : UInt32}

/-! ### The length a lookup finds -/

/-- A lookup that ends at a node had room for it. -/
theorem lookupPieces_grown {p i : UInt32} (hp : NodeFor w p i) (hok : w.heap.Ok) {ps : List (List UInt8)}
    (hps : ∀ q ∈ ps, 0 ∉ q) {q : UInt32} (h : lookupPieces memfsDrivers w (some p) ps = (some q, w')) :
    Grown w w' (w.data.found i ps) := by
  by_cases hroom : w.heap.heapPos.toNat + w.data.found i ps * 312 ≤ 0x10000
  · obtain ⟨r, w₁, heq, hgrown, -⟩ := lookupPieces_room hp hok hps hroom
    rw [heq] at h
    obtain ⟨-, rfl⟩ := Prod.mk.inj h
    exact hgrown
  · obtain ⟨w₁, heq, -⟩ := lookupPieces_noRoom hp hok hps (Nat.not_le.mp hroom)
    rw [heq] at h
    cases h

/-- The node a lookup makes has the length its file has now. -/
theorem length_lookupPieces {p i : UInt32} (hp : NodeFor w p i) (hok : w.heap.Ok) {ps : List (List UInt8)}
    (hps : ∀ q ∈ ps, 0 ∉ q) {q : UInt32} (h : lookupPieces memfsDrivers w (some p) ps = (some q, w')) :
    q = p ∨ (w'.node q).length = (w'.inodeOf q).size := by
  induction ps generalizing w p i with
  | nil =>
    cases h
    exact .inl rfl
  | cons name ps ih =>
    obtain ⟨hname, hrest⟩ := List.forall_mem_cons.mp hps
    rcases lookupPieces_cases hp hok hname ps with
      ⟨-, heq⟩ | ⟨c, -, ⟨-, heq⟩ | ⟨-, w₁, hgrown, hnode, hlen, heq⟩⟩
    · rw [heq] at h
      cases h
    · rw [heq] at h
      cases h
    · rw [heq] at h
      refine .inr ?_
      rcases ih hnode hgrown.ok hrest h with rfl | hlength
      · -- no piece is left that another node was made for
        have hgrown' := lookupPieces_grown hnode hgrown.ok hrest h
        have hsame : w'.node w.heap.heapPos = w₁.node w.heap.heapPos :=
          loadNode_congr (hgrown'.below _ _ hnode.below)
        rw [World.inodeOf, hsame, hnode.fsSpecific, hgrown'.data, hgrown.data]
        exact hlen
      · exact hlength

/-- So it has when a path is looked up, from a directory at the root. -/
theorem length_vfsOpen (h : Mounted w root) {path : List UInt8} (hpath : 0 ∉ path) {flags q : UInt32}
    (hopen : vfsOpen memfsDrivers w (some root) path flags = (some q, w')) :
    q = root ∨ (w'.node q).length = (w'.inodeOf q).size := by
  by_cases habs : path.head? = some slash
  · obtain ⟨rest, rfl⟩ := List.head?_eq_some_iff.mp habs
    rw [vfsOpen_absolute] at hopen
    exact length_lookupPieces h.nodeFor h.ok (not_mem_pieces fun h0 => hpath (List.mem_cons_of_mem _ h0)) hopen
  · rw [vfsOpen_relative habs] at hopen
    cases hopen

/-! ### The two sizes -/

/-- The node of each descriptor. -/
def Vfs.nodes {D : Type*} (s : Vfs D) (k : Fin 64) : Ptr := (s.fileDescriptors k).node

theorem nodes_setFd {D : Type*} (s : Vfs D) (i : Fin 64) (d : FileDescriptor) :
    (s.setFd i d).nodes = Function.update s.nodes i d.node := by
  funext k
  by_cases hk : k = i
  · subst hk
    simp [Vfs.nodes]
  · simp [Vfs.nodes, Function.update_of_ne hk]

/-- **Seeking to the end**, and on from it: of every descriptor in use on a file. -/
def SeeksToEnd (s : Vfs Memfs) : Prop :=
  ∀ fd i p, s.lookup fd = some (i, p) → (s.world.inodeOf p).isDir = false →
    ∀ k : Int32, 0 ≤ (s.world.inodeOf p).size.toNat + k.toInt →
      (s.world.inodeOf p).size.toNat + k.toInt < 2 ^ 31 →
      (((fdLseek s fd k SEEK_END).2.fileDescriptors i).pos.toNat : ℤ) =
        (s.world.inodeOf p).size.toNat + k.toInt

/-- The node of every descriptor on a file has the file's size. -/
def LengthsAgree (w : World Memfs) (nodes : Fin 64 → Ptr) : Prop :=
  ∀ k p, nodes k = some p → (w.inodeOf p).isDir = false → (w.node p).length = (w.inodeOf p).size

theorem seekTarget_end {D : Type*} {s : Vfs D} {fd : Int32} {i : Fin 64} {p : UInt32}
    (h : s.lookup fd = some (i, p)) (k : Int32) :
    seekTarget s fd k SEEK_END = some (i, (s.world.node p).length.toNat + k.toInt) := by
  have h₀ : SEEK_END ≠ SEEK_SET := by decide
  have h₁ : SEEK_END ≠ SEEK_CUR := by decide
  simp only [seekTarget, h, Option.bind_some, seekBase, if_neg h₀, if_neg h₁, if_true, Option.map_some]

/-- `lseek` gets it right when the sizes agree. -/
theorem seeksToEnd_iff {s : Vfs Memfs} : SeeksToEnd s ↔ LengthsAgree s.world s.nodes := by
  have hseek : ∀ {fd i p}, s.lookup fd = some (i, p) → ∀ k : Int32,
      (((fdLseek s fd k SEEK_END).2.fileDescriptors i).pos.toNat : ℤ) =
        ((s.world.node p).length.toNat + k.toInt) % 2 ^ 32 := by
    intro fd i p hl k
    obtain ⟨q, hq, hr⟩ := fdLseek_some (seekTarget_end hl k)
    rw [hr, pos_setFd, if_pos rfl, hq]
  constructor
  · intro h i p hp hfile
    have hl : s.lookup (Int32.ofNat i.val) = some (i, p) := lookup_eq_some.mpr ⟨slot_ofNat i, hp⟩
    have hlt := (s.world.inodeOf p).size.toNat_lt
    have hlt' := (s.world.node p).length.toNat_lt
    rw [← UInt32.toNat_inj]
    -- an offset that leads back to a position that fits: none, or the one furthest back
    by_cases hsmall : (s.world.inodeOf p).size.toNat < 2 ^ 31
    · have h0 := h _ i p hl hfile 0 (by simp) (by simpa using mod_cast hsmall)
      rw [hseek hl] at h0
      simp only [Int32.toInt_zero, add_zero] at h0
      omega
    · have hmin : Int32.minValue.toInt = -2 ^ 31 := by decide
      have h0 := h _ i p hl hfile Int32.minValue (by omega) (by omega)
      rw [hseek hl] at h0
      omega
  · intro h fd i p hl hfile k h0 h31
    rw [hseek hl, h i p (lookup_eq_some.mp hl).2 hfile]
    omega

/-! ### Blocks and nodes -/

/-- The node of the root, or of a descriptor. -/
def Used (root : UInt32) (nodes : Fin 64 → Ptr) (p : UInt32) : Prop := p = root ∨ ∃ k, nodes k = some p

/-- The nodes in use, and the blocks of the files, in the part of the heap handed out and out of
each other's way. -/
structure Laid (w : World Memfs) (root : UInt32) (nodes : Fin 64 → Ptr) : Prop where
  mounted : Mounted w root
  node : ∀ {p}, Used root nodes p → NodeFor w p (w.node p).fsSpecific
  block : ∀ i, FileBlock w i
  apart : ∀ {i a p}, (w.data.inode i).data = some a → Used root nodes p →
    Apart a (w.data.inode i).size.toNat p 312

variable {nodes nodes' : Fin 64 → Ptr}

/-- Fewer nodes in use. -/
theorem Laid.mono (h : Laid w root nodes) (hn : ∀ k p, nodes' k = some p → nodes k = some p) :
    Laid w root nodes' := by
  have hused : ∀ {p}, Used root nodes' p → Used root nodes p := by
    rintro p (hp | ⟨k, hk⟩)
    · exact .inl hp
    · exact .inr ⟨k, hn k p hk⟩
  exact ⟨h.mounted, fun hp => h.node (hused hp), h.block, fun ha hp => h.apart ha (hused hp)⟩

theorem LengthsAgree.mono (h : LengthsAgree w nodes) (hn : ∀ k p, nodes' k = some p → nodes k = some p) :
    LengthsAgree w nodes' := fun k p hp => h k p (hn k p hp)

/-- One more node, apart from the blocks. -/
theorem Laid.insert (h : Laid w root nodes) {q c : UInt32} (hq : NodeFor w q c)
    (hapart : ∀ {i a}, (w.data.inode i).data = some a → Apart a (w.data.inode i).size.toNat q 312)
    (k : Fin 64) : Laid w root (Function.update nodes k (some q)) := by
  have hused : ∀ {p}, Used root (Function.update nodes k (some q)) p → Used root nodes p ∨ p = q := by
    rintro p (hp | ⟨j, hj⟩)
    · exact .inl (.inl hp)
    · by_cases hjk : j = k
      · subst hjk
        rw [Function.update_self] at hj
        exact .inr (Option.some.inj hj).symm
      · rw [Function.update_of_ne hjk] at hj
        exact .inl (.inr ⟨j, hj⟩)
  refine ⟨h.mounted, fun hp => ?_, h.block, fun ha hp => ?_⟩
  · rcases hused hp with hp | rfl
    · exact h.node hp
    · rw [hq.fsSpecific]
      exact hq
  · rcases hused hp with hp | rfl
    · exact h.apart ha hp
    · exact hapart ha

/-- Nodes made at the heap's position. -/
theorem Laid.grown {n : ℕ} (h : Laid w root nodes) (hg : Grown w w' n) : Laid w' root nodes := by
  refine ⟨⟨hg.ok, ?_, ?_⟩, fun hp => ?_, fun i => (h.block i).grown hg, ?_⟩
  · rw [hg.data]
    exact h.mounted.nodeFor.grown hg
  · rw [hg.data]
    exact h.mounted.isDir
  · have hnode : w'.node _ = w.node _ := loadNode_congr (hg.below _ 312 (h.node hp).below)
    rw [hnode]
    exact (h.node hp).grown hg
  · rw [hg.data]
    exact h.apart

theorem LengthsAgree.grown {n : ℕ} (h : LengthsAgree w nodes) (hl : Laid w root nodes) (hg : Grown w w' n) :
    LengthsAgree w' nodes := by
  intro k p hp hfile
  have hnode : w'.node p = w.node p := loadNode_congr (hg.below _ 312 (hl.node (.inr ⟨k, hp⟩)).below)
  rw [World.inodeOf, hnode, hg.data] at hfile ⊢
  exact h k p hp hfile

/-! ### Writes -/

/-- A write that ends by the end of its file: bytes of the file's block are changed. -/
theorem memfsWrite_inside {p i : UInt32} (hb : FileBlock w i) (hp : (w.node p).fsSpecific = i)
    (hfile : (w.data.inode i).isDir = false) {offset size : UInt32}
    (hin : offset.toNat + size.toNat ≤ (w.data.inode i).size.toNat) (buffer : Mem) :
    ∃ m, memfsWrite w p offset size buffer = (size, { w with heap := { w.heap with mem := m } }) ∧
      ∀ {q : UInt32}, q.toNat + 312 ≤ w.heap.heapPos.toNat →
        (∀ {a}, (w.data.inode i).data = some a → Apart a (w.data.inode i).size.toNat q 312) →
        m.bytes q 312 = w.heap.mem.bytes q 312 := by
  have hlt := (w.data.inode i).size.toNat_lt
  have hbound := hb.ok.bounded
  have hsum : (offset + size).toNat = offset.toNat + size.toNat := toNat_add_of_lt (by omega)
  have hle : ¬ offset + size > (w.data.inode i).size := by
    rw [gt_iff_lt, UInt32.lt_iff_toNat_lt, hsum]
    omega
  simp only [memfsWrite, hp, hfile, Bool.false_eq_true, if_false, if_neg hle, Function.update_eq_self]
  cases hdata : (w.data.inode i).data with
  | none =>
    have hsize : size.toNat = 0 := by
      have := congrArg UInt32.toNat (hb.empty hdata)
      simp only [UInt32.toNat_zero] at this
      omega
    refine ⟨w.heap.mem, ?_, fun _ _ => rfl⟩
    simp only [copyIn, hsize, Mem.bytes_zero, if_true]
  | some a =>
    refine ⟨w.heap.mem.put (a + offset) (buffer.bytes 0 size.toNat), rfl, fun hq hapart => ?_⟩
    have hbelow := hb.below hdata
    have hoff : (a + offset).toNat = a.toNat + offset.toNat := toNat_add_of_lt (by omega)
    have hqapart := hapart rfl
    have hlen := Mem.length_bytes buffer 0 size.toNat
    unfold Apart at hqapart
    exact Mem.bytes_put_of_disjoint (.of_le (by omega)) (.of_le (by omega)) (by unfold Apart; omega)

/-- A write past the end, with memory for the longer file: a new block, and the inode's size set. -/
theorem memfsWrite_past {p i : UInt32} (hb : FileBlock w i) (hp : (w.node p).fsSpecific = i)
    (hfile : (w.data.inode i).isDir = false) {offset size : UInt32}
    (hno : offset.toNat + size.toNat < 2 ^ 31)
    (hpast : (w.data.inode i).size.toNat < offset.toNat + size.toNat) {buffer : Mem}
    (hmem : (memfsWrite w p offset size buffer).2.heap.failures = w.heap.failures) :
    ∃ heap, memfsWrite w p offset size buffer = (size, ⟨heap, { w.data with
        inode := Function.update w.data.inode i
          { w.data.inode i with data := some w.heap.heapPos, size := offset + size } }⟩) ∧
      heap.Ok ∧ w.heap.heapPos.toNat + (offset + size).toNat ≤ heap.heapPos.toNat ∧
      ∀ {q : UInt32}, q.toNat + 312 ≤ w.heap.heapPos.toNat →
        heap.mem.bytes q 312 = w.heap.mem.bytes q 312 := by
  have hsum : (offset + size).toNat = offset.toNat + size.toNat := toNat_add_of_lt (by omega)
  have hbound := hb.ok.bounded
  have hdir : ¬ (w.data.inode i).isDir = true := by simp [hfile]
  have hgt : offset + size > (w.data.inode i).size := by
    rw [gt_iff_lt, UInt32.lt_iff_toNat_lt, hsum]
    exact hpast
  simp only [memfsWrite, hp, if_neg hdir, if_pos hgt] at hmem ⊢
  have hfit : w.heap.heapPos.toNat + (offset + size).toNat ≤ 0x10000 := by
    refine kmalloc_fits ?_ (by omega)
    rw [← failures_growInode w.heap (w.data.inode i)]
    simpa using hmem
  have hpos := toNat_heapPos_add hb.ok hfit
  have hlen := hb.length_content
  have hbytes := Mem.length_bytes buffer 0 size.toNat
  have hoff : (w.heap.heapPos + offset).toNat = w.heap.heapPos.toNat + offset.toNat :=
    toNat_add_of_lt (by omega)
  simp only [growInode_eq hb (by omega) hfit, copyIn]
  have haligned := hb.ok.aligned
  refine ⟨_, rfl, ⟨?_, ?_⟩, ?_, fun hq => ?_⟩
  · simp only [hpos]
    omega
  · simp only [hpos]
    omega
  · simp only [hpos]
    omega
  · simp only
    rw [Mem.bytes_put_of_disjoint (.of_le (by omega)) (.of_le (by omega)) (.inr (by omega)),
      Mem.bytes_put_of_disjoint (.of_le (by omega)) (.of_le (by omega)) (.inr (by omega))]

/-- A file given a block, its own or a new one, that is apart from the nodes. -/
theorem Laid.replace (h : Laid w root nodes) {i : UInt32} {new : Inode} {heap : Heap}
    (hdir : new.isDir = (w.data.inode i).isDir) (hok : heap.Ok)
    (hpos : w.heap.heapPos.toNat ≤ heap.heapPos.toNat) (hempty : new.data = none → new.size = 0)
    (haligned : ∀ {a}, new.data = some a → a.toNat % 4 = 0)
    (hbelow : ∀ {a}, new.data = some a → a.toNat + new.size.toNat ≤ heap.heapPos.toNat)
    (hapart : ∀ {a p}, new.data = some a → Used root nodes p → Apart a new.size.toNat p 312)
    (hframe : ∀ {p}, Used root nodes p → heap.mem.bytes p 312 = w.heap.mem.bytes p 312) :
    Laid ⟨heap, { w.data with inode := Function.update w.data.inode i new }⟩ root nodes := by
  have hnode : ∀ {p c}, Used root nodes p → NodeFor w p c →
      NodeFor ⟨heap, { w.data with inode := Function.update w.data.inode i new }⟩ p c := by
    intro p c hp hn
    exact hn.congr hpos (hframe hp) (isDir_update hdir c)
  refine ⟨⟨hok, hnode (.inl rfl) h.mounted.nodeFor, ?_⟩, fun hp => ?_,
    fun j => (h.block j).replace hok hpos hempty haligned hbelow, @fun j a p ha hp => ?_⟩
  · exact (isDir_update hdir _).trans h.mounted.isDir
  · have hn := hnode hp (h.node hp)
    rw [hn.fsSpecific]
    exact hn
  · by_cases hj : j = i
    · subst hj
      simp only [Function.update_self] at ha ⊢
      exact hapart ha hp
    · simp only [Function.update_of_ne hj] at ha ⊢
      exact h.apart ha hp

/-- A write inside a file leaves every size what it was. -/
theorem Laid.write_inside (h : Laid w root nodes) {p : UInt32} (hfile : (w.inodeOf p).isDir = false)
    {offset size : UInt32} (hin : offset.toNat + size.toNat ≤ (w.inodeOf p).size.toNat) (buffer : Mem) :
    Laid (memfsWrite w p offset size buffer).2 root nodes ∧
      (LengthsAgree w nodes → LengthsAgree (memfsWrite w p offset size buffer).2 nodes) := by
  have hblock := h.block (w.node p).fsSpecific
  obtain ⟨m, heq, hframe⟩ := memfsWrite_inside hblock rfl hfile hin buffer
  have hkept : ∀ {q}, Used root nodes q → m.bytes q 312 = w.heap.mem.bytes q 312 :=
    fun hq => hframe (h.node hq).below fun ha => h.apart ha hq
  have hlaid : Laid ⟨{ w.heap with mem := m }, { w.data with
      inode := Function.update w.data.inode (w.node p).fsSpecific (w.data.inode (w.node p).fsSpecific) }⟩
      root nodes :=
    h.replace rfl ⟨hblock.ok.aligned, hblock.ok.bounded⟩ le_rfl hblock.empty hblock.aligned hblock.below h.apart
      hkept
  rw [Function.update_eq_self] at hlaid
  rw [heq]
  refine ⟨hlaid, fun hlen k q hq hf => ?_⟩
  have hload : World.node { w with heap := { w.heap with mem := m } } q = w.node q :=
    loadNode_congr (hkept (.inr ⟨k, hq⟩))
  rw [World.inodeOf, hload] at hf ⊢
  exact hlen k q hq hf

/-- **A write past the end** of a file sets its size, and not the length in the node of the descriptor
it was made through. -/
theorem Laid.write_past (h : Laid w root nodes) {k : Fin 64} {p : UInt32} (hp : nodes k = some p)
    (hfile : (w.inodeOf p).isDir = false) {offset size : UInt32}
    (hno : offset.toNat + size.toNat < 2 ^ 31)
    (hpast : (w.inodeOf p).size.toNat < offset.toNat + size.toNat) {buffer : Mem}
    (hmem : (memfsWrite w p offset size buffer).2.heap.failures = w.heap.failures) :
    Laid (memfsWrite w p offset size buffer).2 root nodes ∧
      (LengthsAgree w nodes → ¬ LengthsAgree (memfsWrite w p offset size buffer).2 nodes) := by
  have hblock := h.block (w.node p).fsSpecific
  obtain ⟨heap, heq, hok, hpos, hframe⟩ := memfsWrite_past hblock rfl hfile hno hpast hmem
  have hkept : ∀ {q}, Used root nodes q → heap.mem.bytes q 312 = w.heap.mem.bytes q 312 :=
    fun hq => hframe (h.node hq).below
  rw [heq]
  constructor
  · refine h.replace rfl hok (by omega) ?_ ?_ ?_ ?_ hkept
    · rintro ⟨⟩
    · rintro _ ⟨⟩
      exact hblock.ok.aligned
    · rintro _ ⟨⟩
      exact hpos
    · rintro _ q ⟨⟩ hq
      exact .inr (h.node hq).below
  · intro hlen hlen'
    have hload := loadNode_congr (hkept (.inr ⟨k, hp⟩))
    have hold := hlen k p hp hfile
    have hnew := hlen' k p hp
    simp only [World.inodeOf, World.node, hload, Function.update_self] at hnew
    have hsize := (hnew hfile).symm.trans hold
    have hsum : (offset + size).toNat = offset.toNat + size.toNat := toNat_add_of_lt (by omega)
    rw [hsize] at hsum
    omega

/-! ### One call -/

/-- The memory file system at the root `root`, with every block and every node in use in its place. -/
structure Settled (s : Vfs Memfs) (root : UInt32) : Prop where
  fsRoot : s.fsRoot = some root
  laid : Laid s.world root s.nodes

/-- **A write ends by the end of its file.** One through a descriptor that is not live or not open for
writing, or on a directory, writes nothing. -/
def StaysInside (s : Vfs Memfs) : Call → Prop
  | .write fd buf size => ∀ ip ∈ s.lookup fd, ¬ Refused s (.write fd buf size) →
      (s.world.inodeOf ip.2).isDir = false →
      (s.fileDescriptors ip.1).pos.toNat + size.toNat ≤ (s.world.inodeOf ip.2).size.toNat
  | _ => True

/-- A write to a file ends below `2 ^ 31`. From there on the sums in `memfs_write` and `kmalloc` may wrap, and then some
of what is written, however little it is, is stored outside the file's block. -/
def EndsInRange (s : Vfs Memfs) : Call → Prop
  | .write fd buf size => ∀ ip ∈ s.lookup fd, ¬ Refused s (.write fd buf size) →
      (s.world.inodeOf ip.2).isDir = false → (s.fileDescriptors ip.1).pos.toNat + size.toNat < 2 ^ 31
  | _ => True

instance Refused.decidableWrite (s : Vfs Memfs) (fd : Int32) (buf : Mem) (size : UInt32) :
    Decidable (Refused s (.write fd buf size)) :=
  inferInstanceAs (Decidable (∃ i ∈ slot fd, _))

-- of the option, as there are many pairs of a slot and an address
instance StaysInside.decidable (s : Vfs Memfs) : ∀ c, Decidable (StaysInside s c)
  | .write fd _ _ => @Option.decidableForallMem _ _ (fun _ => inferInstance) (s.lookup fd)
  | .open_ _ _ | .close _ | .read _ _ _ | .lseek _ _ _ => inferInstanceAs (Decidable True)

instance EndsInRange.decidable (s : Vfs Memfs) : ∀ c, Decidable (EndsInRange s c)
  | .write fd _ _ => @Option.decidableForallMem _ _ (fun _ => inferInstance) (s.lookup fd)
  | .open_ _ _ | .close _ | .read _ _ _ | .lseek _ _ _ => inferInstanceAs (Decidable True)

variable {s : Vfs Memfs}

/-- The calls other than `open` and `write` change no memory and take no node. -/
theorem fdStep_other (s : Vfs Memfs) {c : Call} (hopen : ∀ filename flags, c ≠ .open_ filename flags)
    (hwrite : ∀ fd buf size, c ≠ .write fd buf size) :
    (fdStep memfsDrivers s c).2.world = s.world ∧ (fdStep memfsDrivers s c).2.fsRoot = s.fsRoot ∧
      ∀ k p, (fdStep memfsDrivers s c).2.nodes k = some p → s.nodes k = some p := by
  have hset : ∀ (i : Fin 64) (d : FileDescriptor), (∀ p, d.node = some p → (s.fileDescriptors i).node = some p) →
      ∀ k p, (s.setFd i d).nodes k = some p → s.nodes k = some p := by
    intro i d hd k p hp
    rw [nodes_setFd] at hp
    by_cases hk : k = i
    · subst hk
      rw [Function.update_self] at hp
      exact hd p hp
    · rwa [Function.update_of_ne hk] at hp
  cases c with
  | open_ filename flags => exact absurd rfl (hopen filename flags)
  | write fd buf size => exact absurd rfl (hwrite fd buf size)
  | close fd =>
    simp only [fdStep, fdClose]
    cases hl : s.lookup fd with
    | none => exact ⟨rfl, rfl, fun _ _ => id⟩
    | some ip =>
      simp only [memfsDrivers, ite_self]
      exact ⟨rfl, rfl, hset ip.1 .free fun p hp => by cases hp⟩
  | read fd buf size =>
    simp only [fdStep, fdRead]
    cases hl : s.lookup fd with
    | none => exact ⟨rfl, rfl, fun _ _ => id⟩
    | some ip =>
      have hworld : (vfsRead memfsDrivers s.world ip.2 (s.fileDescriptors ip.1).pos size buf).2.2 = s.world := by
        simp only [vfsRead, memfsDrivers]
        split
        · split
          · exact world_memfsRead _ _ _ _ _
          · rfl
        · rfl
      simp only
      split
      · exact ⟨rfl, rfl, fun _ _ => id⟩
      · rw [hworld]
        exact ⟨rfl, rfl, hset ip.1 _ fun p hp => hp⟩
  | lseek fd offset whence =>
    simp only [fdStep]
    cases ht : seekTarget s fd offset whence with
    | none =>
      rw [fdLseek_none ht]
      exact ⟨rfl, rfl, fun _ _ => id⟩
    | some iv =>
      obtain ⟨q, -, hr⟩ := fdLseek_some ht
      rw [hr]
      exact ⟨rfl, rfl, hset iv.1 _ fun p hp => hp⟩

/-- **An `open`** makes nodes, and the one it keeps has the length its file has. -/
theorem open_settled (h : Settled s root) (filename : CStr) (flags : UInt32)
    (hmem : (fdOpen memfsDrivers s filename flags).2.world.heap.failures = s.world.heap.failures) :
    Settled (fdOpen memfsDrivers s filename flags).2 root ∧
      (LengthsAgree s.world s.nodes → LengthsAgree (fdOpen memfsDrivers s filename flags).2.world
        (fdOpen memfsDrivers s filename flags).2.nodes) := by
  have hmounted := h.laid.mounted
  cases hi : findFree s.fileDescriptors with
  | none =>
    have hopen : fdOpen memfsDrivers s filename flags = (-1, s) := by rw [fdOpen, hi]
    rw [hopen]
    exact ⟨h, id⟩
  | some i =>
    rw [fdOpen_world hi, h.fsRoot] at hmem
    obtain ⟨r, w, n, heq, hg, hcase⟩ := vfsOpen_memory hmounted filename.noNul hmem
    have hlaid := h.laid.grown hg
    rw [fdOpen_memfs hi, h.fsRoot, heq]
    rcases hcase with ⟨-, rfl⟩ | ⟨c, q, -, rfl, hq, hqroot⟩
    · exact ⟨⟨rfl, hlaid⟩, fun hlen => hlen.grown h.laid hg⟩
    · simp only [nodes_setFd]
      refine ⟨⟨rfl, ?_⟩, fun hlen k p hp hfile => ?_⟩
      · rw [nodes_setFd]
        refine hlaid.insert hq (@fun j a ha => ?_) i
        -- the node is the root's, or lies where no block did
        rcases hqroot with rfl | hge
        · exact hlaid.apart ha (.inl rfl)
        · rw [hg.data] at ha ⊢
          exact .inl (((h.laid.block j).below ha).trans hge)
      · by_cases hk : k = i
        · subst hk
          rw [Function.update_self] at hp
          obtain rfl := Option.some.inj hp
          rcases length_vfsOpen hmounted filename.noNul heq with rfl | hlength
          · have hrootdir := hlaid.mounted.isDir
            rw [← hlaid.mounted.nodeFor.inodeOf] at hrootdir
            exact absurd (hrootdir.symm.trans hfile) (by decide)
          · exact hlength
        · rw [Function.update_of_ne hk] at hp
          exact hlen.grown h.laid hg k p hp hfile

/-- Of a write through a live descriptor that is not refused: the file system's, and no node changes. -/
theorem fdWrite_memfs (h : Settled s root) {fd : Int32} {i : Fin 64} {p : UInt32}
    (hl : s.lookup fd = some (i, p)) {buf : Mem} {size : UInt32} (hr : ¬ Refused s (.write fd buf size)) :
    let w := (memfsWrite s.world p (s.fileDescriptors i).pos size buf).2
    (fdWrite memfsDrivers s fd buf size).2.world = w ∧
      (fdWrite memfsDrivers s fd buf size).2.fsRoot = some root ∧
      (fdWrite memfsDrivers s fd buf size).2.nodes = s.nodes := by
  obtain ⟨hslot, hp⟩ := lookup_eq_some.mp hl
  have hn := h.laid.node (.inr ⟨i, hp⟩)
  have hmode : ¬ ((s.fileDescriptors i).flags &&& O_WRONLY = 0 ∧ (s.fileDescriptors i).flags &&& O_RDWR = 0) :=
    fun hm => hr ⟨i, hslot, hm⟩
  simp only [fdWrite, hl, if_neg hmode, vfsWrite, hn.write, ne_eq, memfsWriteAddr_ne_zero, not_false_eq_true,
    if_true, memfsDrivers]
  refine ⟨rfl, h.fsRoot, ?_⟩
  rw [nodes_setFd]
  exact Function.update_eq_self i s.nodes

/-- **A `write`**: it leaves the sizes agreeing just when it stays inside its file. -/
theorem write_settled (h : Settled s root) {fd : Int32} {buf : Mem} {size : UInt32}
    (hend : EndsInRange s (.write fd buf size))
    (hmem : (fdWrite memfsDrivers s fd buf size).2.world.heap.failures = s.world.heap.failures) :
    Settled (fdWrite memfsDrivers s fd buf size).2 root ∧
      (LengthsAgree s.world s.nodes → (LengthsAgree (fdWrite memfsDrivers s fd buf size).2.world
        (fdWrite memfsDrivers s fd buf size).2.nodes ↔ StaysInside s (.write fd buf size))) := by
  have hsame : (fdWrite memfsDrivers s fd buf size).2 = s → StaysInside s (.write fd buf size) →
      Settled (fdWrite memfsDrivers s fd buf size).2 root ∧
      (LengthsAgree s.world s.nodes → (LengthsAgree (fdWrite memfsDrivers s fd buf size).2.world
        (fdWrite memfsDrivers s fd buf size).2.nodes ↔ StaysInside s (.write fd buf size))) := by
    intro heq hstays
    rw [heq]
    exact ⟨h, fun hlen => iff_of_true hlen hstays⟩
  cases hl : s.lookup fd with
  | none =>
    refine hsame (by simp only [fdWrite, hl]) fun ip hip => ?_
    rw [hl] at hip
    cases hip
  | some ip =>
    obtain ⟨i, p⟩ := ip
    have hstays : StaysInside s (.write fd buf size) ↔ (¬ Refused s (.write fd buf size) →
        (s.world.inodeOf p).isDir = false →
        (s.fileDescriptors i).pos.toNat + size.toNat ≤ (s.world.inodeOf p).size.toNat) := by
      simp only [StaysInside, hl, Option.mem_some_iff, forall_eq']
    by_cases hr : Refused s (.write fd buf size)
    · obtain ⟨j, hslot, hmode⟩ := hr
      obtain rfl : j = i := Option.some.inj (hslot.symm.trans (lookup_eq_some.mp hl).1)
      exact hsame (by simp only [fdWrite, hl, if_pos hmode]) (hstays.mpr fun hr => absurd ⟨j, hslot, hmode⟩ hr)
    · obtain ⟨hworld, hroot, hnodes⟩ := fdWrite_memfs h hl hr
      have hused : Used root s.nodes p := .inr ⟨i, (lookup_eq_some.mp hl).2⟩
      rw [hworld] at hmem
      have hlaid : Settled (fdWrite memfsDrivers s fd buf size).2 root ↔
          Laid (memfsWrite s.world p (s.fileDescriptors i).pos size buf).2 root s.nodes := by
        rw [← hworld, ← hnodes]
        exact ⟨Settled.laid, fun hl => ⟨hroot, hl⟩⟩
      rw [hlaid, hworld, hnodes, hstays]
      cases hfile : (s.world.inodeOf p).isDir with
      | true =>
        rw [memfsWrite_dir (h.laid.node hused) hfile]
        exact ⟨h.laid, fun hlen => iff_of_true hlen fun _ hf => by cases hf⟩
      | false =>
        by_cases hin : (s.fileDescriptors i).pos.toNat + size.toNat ≤ (s.world.inodeOf p).size.toNat
        · obtain ⟨hl', hlen'⟩ := h.laid.write_inside hfile hin buf
          exact ⟨hl', fun hlen => iff_of_true (hlen' hlen) fun _ _ => hin⟩
        · obtain ⟨hl', hlen'⟩ := h.laid.write_past (lookup_eq_some.mp hl).2 hfile (hend (i, p) hl hr hfile)
            (Nat.not_le.mp hin) hmem
          exact ⟨hl', fun hlen => iff_of_false (hlen' hlen) fun hstays => hin (hstays hr rfl)⟩

/-- A write inside its file ends inside the heap. -/
theorem StaysInside.endsInRange (h : Settled s root) {c : Call} (hc : StaysInside s c) : EndsInRange s c := by
  cases c with
  | write fd buf size =>
    intro ip hip hr hfile
    have hin := hc ip hip hr hfile
    have hblock := h.laid.block (s.world.node ip.2).fsSpecific
    have hbound := hblock.ok.bounded
    have hsize : (s.world.inodeOf ip.2).size.toNat ≤ 0x10000 := by
      cases hd : (s.world.inodeOf ip.2).data with
      | none =>
        rw [World.inodeOf, hblock.empty hd]
        simp
      | some a => exact (Nat.le_add_left _ _).trans ((hblock.below hd).trans hbound)
    omega
  | open_ | close | read | lseek => trivial

/-- No `kmalloc` returns `NULL` in the call. -/
def FindsMemory (s : Vfs Memfs) (c : Call) : Prop :=
  (fdStep memfsDrivers s c).2.world.heap.failures = s.world.heap.failures

/-- **One call**: it keeps every block and every node in its place, and the sizes agreeing just when it
writes nothing past the end of a file. -/
theorem step_settled (h : Settled s root) {c : Call} (hmem : FindsMemory s c) (hend : EndsInRange s c) :
    Settled (fdStep memfsDrivers s c).2 root ∧
      (LengthsAgree s.world s.nodes →
        (LengthsAgree (fdStep memfsDrivers s c).2.world (fdStep memfsDrivers s c).2.nodes ↔ StaysInside s c)) := by
  have hother : (∀ filename flags, c ≠ .open_ filename flags) → (∀ fd buf size, c ≠ .write fd buf size) →
      StaysInside s c → Settled (fdStep memfsDrivers s c).2 root ∧ (LengthsAgree s.world s.nodes →
        (LengthsAgree (fdStep memfsDrivers s c).2.world (fdStep memfsDrivers s c).2.nodes ↔ StaysInside s c)) := by
    intro hopen hwrite hin
    obtain ⟨hworld, hroot, hnodes⟩ := fdStep_other s hopen hwrite
    rw [hworld]
    refine ⟨⟨hroot.trans h.fsRoot, ?_⟩, fun hlen => iff_of_true (hlen.mono hnodes) hin⟩
    rw [hworld]
    exact h.laid.mono hnodes
  cases c with
  | open_ filename flags =>
    obtain ⟨hs, hlen⟩ := open_settled h filename flags hmem
    exact ⟨hs, fun h₀ => iff_of_true (hlen h₀) trivial⟩
  | write fd buf size => exact write_settled h hend hmem
  | close | read | lseek => exact hother (by rintro _ _ ⟨⟩) (by rintro _ _ _ ⟨⟩) trivial

/-! ### Runs -/

/-- **When `SEEK_END` sees every write**: all along a run of calls, from a memory file system with no
descriptor in use, if no write of the run ends past the end of its file. And only if, as long as
the writes end below `2 ^ 31`. -/
theorem lseek_end_iff (h : Settled s root) (htable : ∀ k, s.nodes k = none) {calls : List Call}
    (hmem : (run (fdStep memfsDrivers) s calls).2.world.heap.failures = s.world.heap.failures) :
    (Along (fdStep memfsDrivers) StaysInside s calls →
      ∀ n, SeeksToEnd (run (fdStep memfsDrivers) s (calls.take n)).2) ∧
    (Along (fdStep memfsDrivers) EndsInRange s calls →
      ((∀ n, SeeksToEnd (run (fdStep memfsDrivers) s (calls.take n)).2) ↔
        Along (fdStep memfsDrivers) StaysInside s calls)) := by
  have hfinds : Along (fdStep memfsDrivers) FindsMemory s calls := along_of_run_eq failures_le_fdStep hmem
  have hlen : LengthsAgree s.world s.nodes := by
    intro k p hp
    rw [htable k] at hp
    cases hp
  simp only [seeksToEnd_iff]
  constructor
  · intro hinside n
    refine (run_inv_take (I := fun t => Settled t root ∧ LengthsAgree t.world t.nodes) ?_ ⟨h, hlen⟩
      (hfinds.and hinside) n).2
    rintro t c ⟨ht, hlen⟩ ⟨hm, hin⟩
    obtain ⟨hs, hiff⟩ := step_settled ht hm (hin.endsInRange ht)
    exact ⟨hs, (hiff hlen).mpr hin⟩
  · intro hrange
    exact always_iff_along_of (J := fun t => Settled t root) (I := fun t => LengthsAgree t.world t.nodes)
      (fun t c ht hq => (step_settled ht hq.1 hq.2).1) (fun t c ht hq hl => (step_settled ht hq.1 hq.2).2 hl)
      h hlen (hfinds.and hrange)

/-- The memory file system just mounted. -/
theorem Fresh.settled (h : Fresh s root) : Settled s root where
  fsRoot := h.fsRoot
  laid :=
    { mounted := h.mounted
      node := by
        rintro p (rfl | ⟨k, hk⟩)
        · rw [h.mounted.nodeFor.fsSpecific]
          exact h.mounted.nodeFor
        · exact absurd (h.table k) (by rw [show (s.fileDescriptors k).node = some p from hk]; simp)
      block := fun i =>
        { ok := h.mounted.ok
          empty := fun _ => h.size i
          aligned := fun ha => by rw [h.data] at ha; cases ha
          below := fun ha => by rw [h.data] at ha; cases ha }
      apart := fun ha => by rw [h.data] at ha; cases ha }

/-- The small tree with three bytes in `/d/f`, and no descriptor in use. -/
def smallWritten : Vfs Memfs :=
  (run (fdStep memfsDrivers) smallVfs
    [.open_ smallPath O_RDWR, .write 0 (bufferOf (ascii ['a', 'b', 'c'])) 3, .close 0]).2

theorem smallWritten_settled : Settled smallWritten 0 := by
  have hsteps : Along (fdStep memfsDrivers) (fun s c => FindsMemory s c ∧ EndsInRange s c) smallVfs
      [.open_ smallPath O_RDWR, .write 0 (bufferOf (ascii ['a', 'b', 'c'])) 3, .close 0] := by
    unfold FindsMemory
    decide +kernel
  have hstep : ∀ t c, Settled t 0 → FindsMemory t c ∧ EndsInRange t c → Settled (fdStep memfsDrivers t c).2 0 :=
    fun t c ht hc => (step_settled ht hc.1 hc.2).1
  exact run_inv hstep smallVfs_fresh.settled hsteps

/-- Two descriptors on the file of three bytes, and all three written again through the second. -/
theorem lseek_end_small : (smallWritten.world.data.inode 3).size = 3 ∧
    ∀ n, SeeksToEnd (run (fdStep memfsDrivers) smallWritten
      (List.take n [.open_ smallPath O_RDWR, .open_ smallPath O_WRONLY,
        .write 1 (bufferOf (ascii ['x', 'y', 'z'])) 3])).2 :=
  ⟨by decide +kernel, (lseek_end_iff smallWritten_settled (by unfold Vfs.nodes; decide +kernel)
    (by decide +kernel)).1 (by decide +kernel)⟩

/-- Three bytes are written to the empty file `/d/f`: `SEEK_END` still leads to position `0`. -/
theorem not_forall_seeksToEnd :
    let calls : List Call := [.open_ smallPath O_RDWR, .write 0 (bufferOf (ascii ['a', 'b', 'c'])) 3]
    let s := (run (fdStep memfsDrivers) smallVfs calls).2
    s.world.heap.failures = 0 ∧ (s.world.data.inode 3).size = 3 ∧ (fdLseek s 0 0 SEEK_END).1 = 0 ∧
      ¬ SeeksToEnd s := by
  refine ⟨by decide +kernel, by decide +kernel, by decide +kernel, fun h => ?_⟩
  rw [seeksToEnd_iff] at h
  have hlen := h 0 624 (by decide +kernel) (by decide +kernel)
  revert hlen
  decide +kernel

end Basedos.Fs
