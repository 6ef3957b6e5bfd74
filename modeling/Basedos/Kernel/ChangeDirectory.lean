import Basedos.Fs.Exhaustion
import Basedos.Kernel.ShellBuffers

/-!
# Changing the directory

`cd p` looks `p` up as the name of a child of the root, and keeps it as the current directory;
`vfs_open` follows `p` from the root, one component after the other, and takes no path that does not
begin with a `/`. The two look for different things: `cd` finds the root's children by their bare names,
under which `vfs_open` finds nothing, and no path that it finds, not even `/`.

## What is proved

* `opensDirectory_iff`, `finddir_root` — what each of them finds, in any tree.
* `executeCommand_cd` — **the command**: what it leaves.
* `cd_iff` — **exactly when** it agrees with path resolution, all along a run of `cd` commands.
-/

namespace Basedos.Kernel

open Basedos.Lib Basedos.CLib Basedos.Fs

variable {w : World Memfs} {root : UInt32} {path : List UInt8} {v : Vfs Memfs}

/-! ### What is asked -/

/-- What `vfs_open` gives for the path is a directory. -/
def OpensDirectory (v : Vfs Memfs) (path : List UInt8) : Prop :=
  ∃ q, (vfsOpen memfsDrivers v.world v.fsRoot path 0).1 = some q ∧
    ((vfsOpen memfsDrivers v.world v.fsRoot path 0).2.node q).flags &&& FS_DIRECTORY ≠ 0

/-- `cd`. -/
def cdWord : List UInt8 := ascii ['c', 'd']

/-- The path that the line gives, or the root. -/
def cdPath (line : List UInt8) : List UInt8 := (wordsOf line)[1]?.getD [slash]

/-- A `cd` command, with a path that fits. -/
structure CdLine extends Line where
  command : (wordsOf bytes).head? = some cdWord
  pathShort : (cdPath bytes).length ≤ 63

/-- A `cd` command, as long as every command has come back. -/
def cdStep (s : Except Stop (System Memfs)) (line : CdLine) : Unit × Except Stop (System Memfs) :=
  lineStep memfsDirDrivers s line.toLine

/-- The current directory is a directory. -/
def CurrentOpens (s : System Memfs) : Prop :=
  ∃ current, stringIn s.currentDirectory = some current ∧ OpensDirectory s.vfs current

/-- What is asked of the command: the directory is accepted when the path leads to one, and the current
directory is a directory after it. -/
structure CdMeets (s s' : System Memfs) (path : List UInt8) : Prop where
  accepted : OpensDirectory s.vfs path → stringIn s'.currentDirectory = some path ∧ s'.lastExitCode = 0
  refused : ¬ OpensDirectory s.vfs path → s'.currentDirectory = s.currentDirectory ∧ s'.lastExitCode = 1
  resolves : CurrentOpens s'

/-- The same of a step of the run. -/
def CdStepMeets (r : Except Stop (System Memfs)) (line : CdLine) : Prop :=
  ∃ s s', r = .ok s ∧ (cdStep r line).2 = .ok s' ∧ CdMeets s s' (cdPath line.bytes)

/-- A directory of that name is in the root, and there is room for a node. -/
def HasDirectory (w : World Memfs) (name : List UInt8) : Prop :=
  ∃ c, w.data.child w.data.rootNode name = some c ∧ (w.data.inode c).isDir = true ∧
    w.heap.heapPos.toNat + 312 ≤ 0x10000

/-- The path leads to a directory in the tree, and there is room for the nodes. -/
def LeadsToDirectory (w : World Memfs) (path : List UInt8) : Prop :=
  ∃ c, w.data.resolve path = some c ∧ (w.data.inode c).isDir = true ∧
    w.heap.heapPos.toNat + w.data.nodesFor path * 312 ≤ 0x10000

/-- Which paths the two routes agree on: a bare name, if it is that of no directory in the root; a path from the root,
if it leads to no directory, or if a directory in the root has all of it for a name and it leads to one. Where a node
is made, there is still room for the lookup of what is then the current directory. -/
structure RoutesAgree (s : System Memfs) (path : List UInt8) : Prop where
  bare : path.head? ≠ some slash → ¬ HasDirectory s.vfs.world path
  absent : path.head? = some slash → ¬ HasDirectory s.vfs.world path → ¬ LeadsToDirectory s.vfs.world path
  named : path.head? = some slash → HasDirectory s.vfs.world path → LeadsToDirectory s.vfs.world path
  room : ∀ c current, s.vfs.world.data.child s.vfs.world.data.rootNode path = some c →
    s.vfs.world.heap.heapPos.toNat + 312 ≤ 0x10000 → stringIn s.currentDirectory = some current →
    s.vfs.world.heap.heapPos.toNat + 312 + s.vfs.world.data.nodesFor
      (if (s.vfs.world.data.inode c).isDir = true then path else current) * 312 ≤ 0x10000

/-- The same of a step of the run. -/
def StepAgrees (r : Except Stop (System Memfs)) (line : CdLine) : Prop :=
  ∀ s, r = .ok s → RoutesAgree s (cdPath line.bytes)

/-! ### The two lookups -/

/-- A bare name leads nowhere. -/
theorem not_leadsToDirectory (h : path.head? ≠ some slash) : ¬ LeadsToDirectory w path := by
  rintro ⟨c, hc, -⟩
  rw [Memfs.resolve_relative _ h] at hc
  cases hc

theorem RoutesAgree.same {s : System Memfs} (h : RoutesAgree s path) :
    HasDirectory s.vfs.world path ↔ LeadsToDirectory s.vfs.world path := by
  by_cases habs : path.head? = some slash
  · exact ⟨h.named habs, fun hleads => by_contra fun hno => h.absent habs hno hleads⟩
  · exact iff_of_false (h.bare habs) (not_leadsToDirectory habs)

theorem nodeFor_directory {p i : UInt32} (h : NodeFor w p i) :
    (w.node p).flags &&& FS_DIRECTORY ≠ 0 ↔ (w.data.inode i).isDir = true := by
  rw [h.flags]
  by_cases hdir : (w.data.inode i).isDir = true
  · rw [if_pos hdir]
    exact iff_of_true (by decide) hdir
  · rw [if_neg hdir]
    exact iff_of_false (by decide) hdir

/-- **What `vfs_open` finds**, in any tree. -/
theorem opensDirectory_iff (h : Mounted v.world root) (hroot : v.fsRoot = some root) (h0 : 0 ∉ path) :
    OpensDirectory v path ↔ LeadsToDirectory v.world path := by
  rw [OpensDirectory, hroot]
  by_cases habs : path.head? = some slash
  · obtain ⟨rest, rfl⟩ := List.head?_eq_some_iff.mp habs
    have hrest : 0 ∉ rest := fun hmem => h0 (List.mem_cons_of_mem _ hmem)
    by_cases hroom : v.world.heap.heapPos.toNat + v.world.data.nodesFor (slash :: rest) * 312 ≤ 0x10000
    · obtain ⟨r, w', heq, hgrown, hcase⟩ := vfsOpen_room h hrest 0 hroom
      rw [heq]
      rcases hcase with ⟨hnone, rfl⟩ | ⟨c, q, hsome, rfl, hq, -⟩
      · refine iff_of_false ?_ ?_
        · rintro ⟨q, hq, -⟩
          cases hq
        · rintro ⟨c, hc, -⟩
          rw [hnone] at hc
          cases hc
      · have hdir := nodeFor_directory hq
        rw [hgrown.data] at hdir
        constructor
        · rintro ⟨q', hq', hflags⟩
          cases hq'
          exact ⟨c, hsome, hdir.mp hflags, hroom⟩
        · rintro ⟨c', hc', hisDir, -⟩
          rw [hsome] at hc'
          cases hc'
          exact ⟨q, rfl, hdir.mpr hisDir⟩
    · obtain ⟨w', heq, -⟩ := vfsOpen_noRoom h hrest 0 (Nat.not_le.mp hroom)
      rw [heq]
      refine iff_of_false ?_ ?_
      · rintro ⟨q, hq, -⟩
        cases hq
      · rintro ⟨c, -, -, hroom'⟩
        exact hroom hroom'
  · rw [vfsOpen_relative habs]
    refine iff_of_false ?_ (not_leadsToDirectory habs)
    rintro ⟨q, hq, -⟩
    cases hq

/-- What the lookup of a child of the root takes from the heap. -/
def finddirCost (w : World Memfs) (name : List UInt8) : ℕ :=
  if w.data.child w.data.rootNode name = none ∨ 0x10000 < w.heap.heapPos.toNat + 312 then 0 else 312

/-- **What a lookup in the root finds**, in any tree, and what it leaves. -/
theorem finddir_root (h : Mounted w root) {name : List UInt8} (h0 : 0 ∉ name) (hlen : name.length < 256) :
    ∃ r w', vfsFinddir memfsDrivers w (some root) name = (r, w') ∧ Mounted w' root ∧ w'.data = w.data ∧
      w'.heap.heapPos.toNat = w.heap.heapPos.toNat + finddirCost w name ∧
      ((∃ q, r = some q ∧ (w'.node q).flags &&& FS_DIRECTORY ≠ 0) ↔ HasDirectory w name) := by
  rw [vfsFinddir_dir h.nodeFor h.isDir h0]
  cases hc : w.data.child w.data.rootNode name with
  | none =>
    refine ⟨none, w, rfl, h, rfl, by rw [finddirCost, if_pos (.inl hc)]; rfl, iff_of_false ?_ ?_⟩
    · rintro ⟨q, hq, -⟩
      cases hq
    · rintro ⟨c, hc', -⟩
      rw [hc] at hc'
      cases hc'
  | some c =>
    have hsome : ¬ w.data.child w.data.rootNode name = none := by
      rw [hc]
      exact Option.some_ne_none c
    by_cases hroom : w.heap.heapPos.toNat + 312 ≤ 0x10000
    · obtain ⟨hk, hgrown, -⟩ := withNode_room h.ok hroom hlen (childFields c (w.data.inode c))
      have hnode := withNode_nodeFor h.ok hroom hlen c
      have hdir := nodeFor_directory hnode
      rw [hgrown.data] at hdir
      refine ⟨_, _, rfl, ⟨hgrown.ok, ?_, by rw [hgrown.data]; exact h.isDir⟩, hgrown.data, ?_, ?_⟩
      · rw [hgrown.data]
        exact h.nodeFor.grown hgrown
      · rw [hgrown.heapPos, finddirCost, if_neg (not_or.mpr ⟨hsome, by omega⟩)]
      · rw [hk]
        constructor
        · rintro ⟨q, hq, hflags⟩
          cases hq
          exact ⟨c, hc, hdir.mp hflags, hroom⟩
        · rintro ⟨c', hc', hisDir, -⟩
          rw [hc] at hc'
          cases hc'
          exact ⟨_, rfl, hdir.mpr hisDir⟩
    · obtain ⟨hk, heq⟩ := withNode_noRoom h.ok (Nat.not_le.mp hroom) name (childFields c (w.data.inode c))
      simp only [hk, heq]
      refine ⟨_, _, rfl, ⟨⟨h.ok.aligned, h.ok.bounded⟩, ?_, h.isDir⟩, rfl, ?_, iff_of_false ?_ ?_⟩
      · exact ⟨h.nodeFor.below, h.nodeFor.flags, h.nodeFor.read, h.nodeFor.write, h.nodeFor.finddir,
          h.nodeFor.fsSpecific⟩
      · rw [finddirCost, if_pos (.inr (Nat.not_le.mp hroom))]
        rfl
      · rintro ⟨q, hq, -⟩
        cases hq
      · rintro ⟨c', -, -, hroom'⟩
        exact hroom hroom'

/-! ### The command -/

variable {s s' : System Memfs} {l : List (List UInt8 × List UInt8)}

/-- What `cd` to a path leaves. -/
structure AfterCd (s s' : System Memfs) (l : List (List UInt8 × List UInt8)) (root : UInt32)
    (path : List UInt8) : Prop where
  arrays : ShellArrays s' l
  fsRoot : s'.vfs.fsRoot = some root
  mounted : Mounted s'.vfs.world root
  data : s'.vfs.world.data = s.vfs.world.data
  heapPos : s'.vfs.world.heap.heapPos.toNat = s.vfs.world.heap.heapPos.toNat + finddirCost s.vfs.world path
  accepted : HasDirectory s.vfs.world path → stringIn s'.currentDirectory = some path ∧ s'.lastExitCode = 0
  refused : ¬ HasDirectory s.vfs.world path → s'.currentDirectory = s.currentDirectory ∧ s'.lastExitCode = 1

/-- The array of the current directory, with a path that fits. -/
theorem strncpy_directory {b : List UInt8} (hb : b.length = 64) (h0 : 0 ∉ path) (hlen : path.length ≤ 63) :
    ∃ b' b'', strncpy b path 63 = some b' ∧ store b' 63 0 = some b'' ∧ Holds b'' path ∧ b''.length = 64 := by
  have hsize : (path.take 63 ++ List.replicate (63 - path.length) 0 ++ b.drop 63).length = 64 := by
    simp only [List.length_append, List.length_take, List.length_replicate, List.length_drop]
    omega
  have hfront : path.take 63 ++ List.replicate (63 - path.length) 0 =
      path ++ List.replicate (63 - path.length) 0 := by rw [List.take_of_length_le hlen]
  refine ⟨_, _, if_pos (by omega), if_pos ⟨by decide, by rw [hsize]; decide⟩, ⟨h0, ?_⟩, ?_⟩
  · have hset : (63 : ℤ).toNat = 63 := rfl
    rw [hset, hfront]
    cases hpad : 63 - path.length with
    | zero =>
      have hpath : path.length = 63 := by omega
      refine ⟨(b.drop 63).tail, ?_⟩
      obtain ⟨x, hx⟩ := List.length_eq_one_iff.mp (show (b.drop 63).length = 1 by simp; omega)
      rw [hx]
      simp [hpath]
    | succ n =>
      refine ⟨(List.replicate n 0 ++ b.drop 63).set (62 - path.length) 0, ?_⟩
      rw [List.replicate_succ, List.append_assoc, List.set_append_right _ _ (by omega)]
      obtain ⟨k, hk⟩ := Nat.exists_eq_add_of_le' (show 1 ≤ 63 - path.length by omega)
      have hk' : 62 - path.length = k := by omega
      rw [hk, hk']
      rfl
  · rw [List.length_set, hsize]

/-- **`cd` to a path.** -/
theorem changeDirectory_spec (h : ShellArrays s l) (hroot : s.vfs.fsRoot = some root)
    (hmounted : Mounted s.vfs.world root) (h0 : 0 ∉ path) (hlen : path.length ≤ 63) (hcode : s.lastExitCode = 0) :
    ∃ s', s.changeDirectory memfsDirDrivers path = .ok s' ∧ AfterCd s s' l root path := by
  have harrays := changeDirectory_arrays (K := memfsDirDrivers) h path
  obtain ⟨r, w', hfind, hmounted', hdata, hpos, hdir⟩ := finddir_root hmounted h0 (by omega)
  have hK : memfsDirDrivers.toDrivers = memfsDrivers := rfl
  have hrefuse : ¬ HasDirectory s.vfs.world path →
      s.changeDirectory memfsDirDrivers path = .ok ((s.setWorld w').noSuchDirectory path) →
      ∃ s', s.changeDirectory memfsDirDrivers path = .ok s' ∧ AfterCd s s' l root path := by
    intro hno heq
    rw [heq] at harrays ⊢
    exact ⟨_, rfl, harrays, hroot, hmounted', hdata, hpos, fun hhas => absurd hhas hno, fun _ => ⟨rfl, rfl⟩⟩
  unfold System.changeDirectory at harrays hrefuse ⊢
  rw [hK, hroot, hfind] at harrays hrefuse ⊢
  cases r with
  | none =>
    refine hrefuse ?_ rfl
    rw [← hdir]
    rintro ⟨q, hq, -⟩
    cases hq
  | some q =>
    by_cases hflags : (w'.node q).flags &&& FS_DIRECTORY ≠ 0
    · obtain ⟨b', b'', hcopy, hstore, hholds, hsize⟩ := strncpy_directory h.currentDirectory.size h0 hlen
      simp only [if_pos hflags, hcopy, hstore, inside, bind, Except.bind] at harrays ⊢
      refine ⟨_, rfl, harrays, hroot, hmounted', hdata, hpos, fun _ => ⟨hholds.stringIn, hcode⟩, fun hno => ?_⟩
      exact absurd (hdir.mp ⟨q, rfl, hflags⟩) hno
    · refine hrefuse ?_ (if_neg hflags)
      rw [← hdir]
      rintro ⟨q', hq', hflags'⟩
      cases hq'
      exact hflags hflags'

/-- A command begins with the exit code `0`. -/
theorem dispatch_exitCode {D : Type} {s s' : System D} {line : List UInt8} {words : CStr × List CStr}
    (h : dispatch s line = .ok (some words, s')) : s'.lastExitCode = 0 := by
  unfold dispatch at h
  split at h
  · cases h
  · cases hadd : s.addToHistory line with
    | none =>
      rw [hadd] at h
      cases h
    | some s₁ =>
      simp only [hadd, inside, bind, Except.bind] at h
      cases hsplit : splitLine s₁.aliases s₁.parse line with
      | none =>
        rw [hsplit] at h
        cases h
      | some r =>
        obtain ⟨ws, parse⟩ := r
        simp only [hsplit] at h
        cases ws with
        | none => cases h
        | some ws =>
          cases ws with
          | nil => cases h
          | cons cmd args =>
            cases h
            rfl

/-- The note of the debug mode changes nothing that is asked about. -/
theorem AfterCd.debugNote (h : AfterCd s s' l root path) (cmd : CStr) : AfterCd s (s'.debugNote cmd) l root path := by
  unfold System.debugNote
  split
  · exact ⟨h.arrays.same ((SameArrays.refl s').act _), h.fsRoot, h.mounted, h.data, h.heapPos, h.accepted, h.refused⟩
  · exact h

/-- **The command `cd`.** -/
theorem executeCommand_cd (h : ShellArrays s l) (hcd : l.lookup cdWord = none) (hroot : s.vfs.fsRoot = some root)
    (hmounted : Mounted s.vfs.world root) (line : CdLine) :
    ∃ s', executeCommand memfsDirDrivers s line.bytes = .ok s' ∧ AfterCd s s' l root (cdPath line.bytes) := by
  obtain ⟨rest, hwords⟩ := List.head?_eq_some_iff.mp line.command
  have hresolved : resolvedWords l line.bytes = cdWord :: rest.take 14 := by
    simp only [resolvedWords, hwords, List.take_succ_cons, hcd]
  have hlen := line.short
  rcases dispatch_cases h line.noNul (by omega) with ⟨hblank, -⟩ | ⟨-, hnil, -⟩ | ⟨cmd, args, s₁, -, hws, hd, hn⟩
  · rw [hblank] at hwords
    cases hwords
  · rw [hresolved] at hnil
    cases hnil
  · rw [hresolved] at hws
    obtain ⟨hcmd, hargs⟩ := List.cons.inj hws
    have hnamed : (cdWord, Command.cd) ∈ commandNames := by decide
    have hcommand : commandOf cmd.bytes = .cd := (commandOf_eq_iff hnamed cmd.noNul).mpr hcmd.symm
    have hpath : s₁.cd memfsDirDrivers args = s₁.changeDirectory memfsDirDrivers (cdPath line.bytes) ∧
        0 ∉ cdPath line.bytes := by
      rw [cdPath, hwords]
      cases args with
      | nil =>
        have hnone : rest = [] := by simpa using hargs
        rw [hnone]
        exact ⟨rfl, by decide⟩
      | cons p args =>
        obtain ⟨word, others, hrest⟩ := List.exists_cons_of_ne_nil (l := rest) (by rintro rfl; simp at hargs)
        rw [hrest, List.take_succ_cons, List.map_cons] at hargs
        have hword : word = p.bytes := (List.cons.inj hargs).1
        rw [hrest, hword]
        exact ⟨rfl, p.noNul⟩
    obtain ⟨hcdPath, h0⟩ := hpath
    obtain ⟨s₂, hchange, hafter⟩ := changeDirectory_spec hn.arrays (by rw [hn.vfs]; exact hroot)
      (by rw [hn.vfs]; exact hmounted) h0 line.pathShort (dispatch_exitCode hd)
    have hsame : s₁.currentDirectory = s.currentDirectory := by rw [hn.same]
    have hafter' : AfterCd s s₂ l root (cdPath line.bytes) := by
      obtain ⟨harrays, hroot', hmounted', hdata, hpos, haccepted, hrefused⟩ := hafter
      rw [hn.vfs] at hdata hpos haccepted hrefused
      rw [hsame] at hrefused
      exact ⟨harrays, hroot', hmounted', hdata, hpos, haccepted, hrefused⟩
    refine ⟨s₂.debugNote cmd, ?_, hafter'.debugNote cmd⟩
    simp only [executeCommand, hd, bind, Except.bind, System.runCommand, hcommand, hcdPath, hchange, System.next]

/-! ### A run -/

/-- Between the commands: the current directory leads to a directory. -/
structure AtDirectory (l : List (List UInt8 × List UInt8)) (root : UInt32) (s : System Memfs) : Prop where
  arrays : ShellArrays s l
  fsRoot : s.vfs.fsRoot = some root
  mounted : Mounted s.vfs.world root
  current : ∃ current, stringIn s.currentDirectory = some current ∧ LeadsToDirectory s.vfs.world current

theorem AtDirectory.currentOpens (h : AtDirectory l root s) : CurrentOpens s := by
  obtain ⟨current, hcurrent, hleads⟩ := h.current
  obtain ⟨b, hb, hholds⟩ := h.arrays.currentDirectory.holds
  rw [hcurrent] at hb
  cases hb
  exact ⟨current, hcurrent, (opensDirectory_iff h.mounted h.fsRoot hholds.noNul).mpr hleads⟩

/-- Where a path leads does not change, only whether there is room. -/
theorem AfterCd.leads (h : AfterCd s s' l root path) (current : List UInt8) :
    LeadsToDirectory s'.vfs.world current ↔ ∃ c, s.vfs.world.data.resolve current = some c ∧
      (s.vfs.world.data.inode c).isDir = true ∧ s.vfs.world.heap.heapPos.toNat +
        finddirCost s.vfs.world path + s.vfs.world.data.nodesFor current * 312 ≤ 0x10000 := by
  rw [LeadsToDirectory, h.data, h.heapPos]

theorem cdPath_noNul (line : CdLine) : 0 ∉ cdPath line.bytes := by
  unfold cdPath
  cases hword : (wordsOf line.bytes)[1]? with
  | none => exact show 0 ∉ [slash] by decide
  | some word =>
    intro h0
    exact line.noNul ((mem_wordsOf (List.mem_of_getElem? hword)).2 0 h0)

/-- The current directory goes on leading to one. -/
theorem AfterCd.atDirectory (h : AfterCd s s' l root path) (hat : AtDirectory l root s) (hagree : RoutesAgree s path) :
    AtDirectory l root s' := by
  refine ⟨h.arrays, h.fsRoot, h.mounted, ?_⟩
  obtain ⟨current, hcurrent, i, hresolve, hisDir, hfits⟩ := hat.current
  by_cases hhas : HasDirectory s.vfs.world path
  · obtain ⟨c, hc, hdir, hroom⟩ := hhas
    obtain ⟨j, hj, hjDir, -⟩ := hagree.same.mp ⟨c, hc, hdir, hroom⟩
    have hmore := hagree.room c current hc hroom hcurrent
    rw [if_pos hdir] at hmore
    have hcost : finddirCost s.vfs.world path ≤ 312 := by
      unfold finddirCost
      split <;> omega
    refine ⟨path, (h.accepted ⟨c, hc, hdir, hroom⟩).1, (h.leads path).mpr ⟨j, hj, hjDir, by omega⟩⟩
  · refine ⟨current, by rw [(h.refused hhas).1]; exact hcurrent, (h.leads current).mpr ⟨i, hresolve, hisDir, ?_⟩⟩
    unfold finddirCost
    split
    · exact hfits
    · next hmade =>
      obtain ⟨hsome, hroom⟩ := not_or.mp hmade
      obtain ⟨c, hc⟩ := Option.ne_none_iff_exists'.mp hsome
      have hmore := hagree.room c current hc (Nat.not_lt.mp hroom) hcurrent
      rwa [if_neg fun hdir => hhas ⟨c, hc, hdir, Nat.not_lt.mp hroom⟩] at hmore

/-- **A command** meets what is asked just when the two routes agree. -/
theorem AfterCd.meets_iff (h : AfterCd s s' l root path) (hat : AtDirectory l root s) (h0 : 0 ∉ path) :
    CdMeets s s' path ↔ RoutesAgree s path := by
  have hopens := opensDirectory_iff hat.mounted hat.fsRoot h0
  constructor
  · rintro ⟨haccepted, hrefused, current', hcurrent', hresolves⟩
    have hsame : HasDirectory s.vfs.world path ↔ LeadsToDirectory s.vfs.world path := by
      rw [← hopens]
      by_cases hhas : HasDirectory s.vfs.world path
      · refine iff_of_true hhas ?_
        by_contra hno
        have hcode := (hrefused hno).2
        rw [(h.accepted hhas).2] at hcode
        exact absurd hcode (by decide)
      · refine iff_of_false hhas fun hyes => ?_
        have hcode := (haccepted hyes).2
        rw [(h.refused hhas).2] at hcode
        exact absurd hcode (by decide)
    refine ⟨fun hbare hhas => not_leadsToDirectory hbare (hsame.mp hhas), fun _ => mt hsame.mpr, fun _ => hsame.mp,
      fun c current hc hroom hcurrent => ?_⟩
    have hcost : finddirCost s.vfs.world path = 312 := by
      rw [finddirCost, if_neg (not_or.mpr ⟨by rw [hc]; exact Option.some_ne_none c, Nat.not_lt.mpr hroom⟩)]
    have hnow : current' = if (s.vfs.world.data.inode c).isDir = true then path else current := by
      split
      · next hdir =>
        rw [(h.accepted ⟨c, hc, hdir, hroom⟩).1] at hcurrent'
        exact (Option.some.inj hcurrent').symm
      · next hfile =>
        have hno : ¬ HasDirectory s.vfs.world path := by
          rintro ⟨c', hc', hdir, -⟩
          rw [hc] at hc'
          cases hc'
          exact hfile hdir
        rw [(h.refused hno).1, hcurrent] at hcurrent'
        exact (Option.some.inj hcurrent').symm
    obtain ⟨b, hb, hholds⟩ := h.arrays.currentDirectory.holds
    rw [hcurrent'] at hb
    cases hb
    obtain ⟨i, -, -, hfits⟩ := (h.leads current').mp ((opensDirectory_iff h.mounted h.fsRoot hholds.noNul).mp hresolves)
    rwa [hcost, hnow] at hfits
  · intro hagree
    refine ⟨fun hyes => ?_, fun hno => ?_, (h.atDirectory hat hagree).currentOpens⟩
    · exact h.accepted (hagree.same.mpr (hopens.mp hyes))
    · exact h.refused fun hhas => hno (hopens.mpr (hagree.same.mp hhas))

/-- A command in a run. -/
theorem cdStep_spec {r : Except Stop (System Memfs)} (hcd : l.lookup cdWord = none)
    (h : ∃ s, r = .ok s ∧ AtDirectory l root s) (line : CdLine) :
    (CdStepMeets r line ↔ StepAgrees r line) ∧
      (StepAgrees r line → ∃ s, (cdStep r line).2 = .ok s ∧ AtDirectory l root s) := by
  obtain ⟨s, rfl, hat⟩ := h
  obtain ⟨s', hs', hafter⟩ := executeCommand_cd hat.arrays hcd hat.fsRoot hat.mounted line
  have hstep : (cdStep (.ok s) line).2 = .ok s' := hs'
  have hagrees : StepAgrees (.ok s) line ↔ RoutesAgree s (cdPath line.bytes) := by
    constructor
    · intro hagree
      exact hagree s rfl
    · rintro hagree t ⟨⟩
      exact hagree
  rw [hagrees, hstep]
  refine ⟨?_, fun hagree => ⟨s', rfl, hafter.atDirectory hat hagree⟩⟩
  rw [← hafter.meets_iff hat (cdPath_noNul line)]
  constructor
  · rintro ⟨t, t', ht, ht', hmeets⟩
    cases ht
    rw [hstep] at ht'
    cases ht'
    exact hmeets
  · intro hmeets
    exact ⟨s, s', rfl, hstep, hmeets⟩

/-- The root is where a run begins. -/
theorem start_atDirectory (h : ShellArrays s l) (hroot : s.vfs.fsRoot = some root)
    (hmounted : Mounted s.vfs.world root) (hstart : stringIn s.currentDirectory = some [slash]) :
    AtDirectory l root s := by
  refine ⟨h, hroot, hmounted, [slash], hstart, s.vfs.world.data.rootNode, ?_, hmounted.isDir, ?_⟩
  · rw [Memfs.resolve, if_pos rfl, pieces_nil]
    rfl
  · have hnodes : s.vfs.world.data.nodesFor [slash] = 0 := by
      rw [Memfs.nodesFor, List.tail_cons, pieces_nil]
      rfl
    have hbounded := hmounted.ok.bounded
    rw [hnodes]
    omega

/-- **When `cd` agrees with path resolution**: from the root, in any tree, all along a run of `cd` commands
just when the two routes agree on every path given. -/
theorem cd_iff (h : ShellArrays s l) (hcd : l.lookup cdWord = none) (hroot : s.vfs.fsRoot = some root)
    (hmounted : Mounted s.vfs.world root) (hstart : stringIn s.currentDirectory = some [slash])
    (lines : List CdLine) :
    CurrentOpens s ∧ Along cdStep CdStepMeets (.ok s) lines ↔ Along cdStep StepAgrees (.ok s) lines := by
  have hat := start_atDirectory h hroot hmounted hstart
  have hcongr : Along cdStep CdStepMeets (.ok s) lines ↔ Along cdStep StepAgrees (.ok s) lines := by
    apply along_congr_of (J := fun r => ∃ s, r = .ok s ∧ AtDirectory l root s)
    · intro r line hr hagree
      exact (cdStep_spec hcd hr line).2 hagree
    · intro r line hr
      exact (cdStep_spec hcd hr line).1
    · exact ⟨s, rfl, hat⟩
  rw [hcongr]
  exact and_iff_right hat.currentOpens

/-- The path is the name of nothing in the root, and leads to no directory. -/
structure Nowhere (data : Memfs) (path : List UInt8) : Prop where
  noChild : data.child data.rootNode path = none
  noDirectory : ∀ c ∈ data.resolve path, (data.inode c).isDir = false

theorem Nowhere.agree (h : Nowhere s.vfs.world.data path) : RoutesAgree s path := by
  have hnone : ¬ HasDirectory s.vfs.world path := by
    rintro ⟨c, hc, -⟩
    rw [h.noChild] at hc
    cases hc
  refine ⟨fun _ => hnone, fun _ _ => ?_, fun _ hhas => absurd hhas hnone, fun c current hc => ?_⟩
  · rintro ⟨c, hc, hdir, -⟩
    rw [h.noDirectory c hc] at hdir
    cases hdir
  · rw [h.noChild] at hc
    cases hc

/-- Lines with such paths: the tree stays, and so they go on leading nowhere. -/
theorem along_nowhere (hcd : l.lookup cdWord = none) (h : AtDirectory l root s) {lines : List CdLine}
    (hlines : ∀ line ∈ lines, Nowhere s.vfs.world.data (cdPath line.bytes)) :
    Along cdStep StepAgrees (.ok s) lines := by
  induction lines generalizing s with
  | nil => trivial
  | cons line lines ih =>
    obtain ⟨hline, hrest⟩ := List.forall_mem_cons.mp hlines
    obtain ⟨s', hs', hafter⟩ := executeCommand_cd h.arrays hcd h.fsRoot h.mounted line
    have hstep : (cdStep (.ok s) line).2 = .ok s' := hs'
    refine ⟨by rintro t ⟨⟩; exact hline.agree, ?_⟩
    rw [hstep]
    refine ih (hafter.atDirectory h hline.agree) fun line' hline' => ?_
    rw [hafter.data]
    exact hrest line' hline'

/-- `cd` to a path. -/
def cdTo (path : List UInt8) (noNul : 0 ∉ cdWord ++ 32 :: path) (short : (cdWord ++ 32 :: path).length ≤ 126)
    (command : (wordsOf (cdWord ++ 32 :: path)).head? = some cdWord)
    (pathShort : (cdPath (cdWord ++ 32 :: path)).length ≤ 63) : CdLine :=
  ⟨⟨cdWord ++ 32 :: path, noNul, short⟩, command, pathShort⟩

/-- `cd`. -/
def cdAlone : CdLine where
  bytes := cdWord
  noNul := by decide
  short := by decide
  command := by decide +kernel
  pathShort := by decide +kernel

theorem smallSystem_root : stringIn smallSystem.currentDirectory = some [slash] := by decide +kernel

/-- `x` and `/x` are nowhere in the small tree, and `/d/f` is a file. -/
def cdNowhere : List CdLine :=
  [cdTo (ascii ['x']) (by decide) (by decide) (by decide +kernel) (by decide +kernel),
   cdTo (ascii ['/', 'x']) (by decide) (by decide) (by decide +kernel) (by decide +kernel),
   cdTo (ascii ['/', 'd', '/', 'f']) (by decide) (by decide) (by decide +kernel) (by decide +kernel)]

theorem cd_small : CurrentOpens smallSystem ∧ Along cdStep CdStepMeets (.ok smallSystem) cdNowhere := by
  refine (cd_iff smallSystem_inv.toShellArrays rfl rfl smallWorld_mounted smallSystem_root cdNowhere).mpr ?_
  refine along_nowhere (l := []) rfl
    (start_atDirectory smallSystem_inv.toShellArrays rfl smallWorld_mounted smallSystem_root) ?_
  have hnone : ∀ line ∈ cdNowhere, smallTree.child smallTree.rootNode (cdPath line.bytes) = none ∧
      (smallTree.resolve (cdPath line.bytes)).all (fun c => !(smallTree.inode c).isDir) = true := by decide +kernel
  intro line hline
  obtain ⟨hchild, hall⟩ := hnone line hline
  exact ⟨hchild, fun c hc => (Bool.not_eq_true' _).mp ((Option.all_eq_true _ _).mp hall c hc)⟩

/-- The root itself is not found in the root. -/
theorem not_forall_cdMeets :
    ¬ ∀ lines : List CdLine, CurrentOpens smallSystem ∧ Along cdStep CdStepMeets (.ok smallSystem) lines := by
  intro h
  have hat : AtDirectory [] 0 smallSystem :=
    start_atDirectory smallSystem_inv.toShellArrays rfl smallWorld_mounted smallSystem_root
  have hpath : cdPath cdAlone.bytes = [slash] := by decide +kernel
  have hmeets : CdStepMeets (.ok smallSystem) cdAlone := (h [cdAlone]).2.1
  have hagree := (cdStep_spec (l := []) rfl ⟨smallSystem, rfl, hat⟩ cdAlone).1.mp hmeets smallSystem rfl
  rw [hpath] at hagree
  obtain ⟨current, hcurrent, hleads⟩ := hat.current
  rw [smallSystem_root] at hcurrent
  cases hcurrent
  obtain ⟨c, hc, -⟩ := hagree.same.mpr hleads
  have hchild : smallSystem.vfs.world.data.child smallSystem.vfs.world.data.rootNode [slash] = none := by
    decide +kernel
  rw [hchild] at hc
  cases hc

end Basedos.Kernel
