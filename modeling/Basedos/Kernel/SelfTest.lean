import Basedos.Fs.AccessModes
import Basedos.Fs.BareRoot
import Basedos.Kernel.ShellArrays

/-!
# The kernel's test of its file systems

`fs/fs_test.c`, which `kmain` runs before the shell: the file systems are started once more, a file is
written, read back, and the root directory listed.

## The model

The test is done in three parts, each of which may return early; `none` says that it has. What the file
systems do is given by `DirDrivers`, of which nothing is assumed. The stack is where the buffer lies that is
read into. The list of the directory ends when the file system says so, which may be never.

## What is proved

* `fsTest_fails` — **the test never succeeds**: whatever the file systems do and whatever state it is begun in,
  it comes back, and what it printed last says that a step has failed. What was opened with `O_RDONLY` cannot
  be read.
* `fsTest_bareRoot` — with the kernel's own file systems it fails at its first file, and leaves a root with no
  functions.
-/

namespace Basedos.Kernel

open Basedos.Lib Basedos.CLib Basedos.Fs

variable (K : DirDrivers Memfs)

/-! ### The three parts -/

theorem memdisk_noNul : 0 ∉ ascii ['m', 'e', 'm', 'd', 'i', 's', 'k'] := by decide

/-- `"memdisk"`. -/
def memdisk : CStr := ⟨_, memdisk_noNul⟩

theorem rootPath_noNul : 0 ∉ [slash] := by decide

/-- `"/"`. -/
def rootPath : CStr := ⟨_, rootPath_noNul⟩

theorem testFile_noNul : 0 ∉ slash :: ascii ['t', 'e', 's', 't', '.', 't', 'x', 't'] := by decide

/-- `"/test.txt"`. -/
def testFile : CStr := ⟨_, testFile_noNul⟩

/-- `"Hello, BasedOS File System!"`. -/
def testData : List UInt8 :=
  ascii ['H', 'e', 'l', 'l', 'o', ',', ' ', 'B', 'a', 's', 'e', 'd', 'O', 'S', ' ', 'F', 'i', 'l', 'e', ' ', 'S',
    'y', 's', 't', 'e', 'm', '!']

/-- `vfs_initialize`, `memfs_initialize` and `vfs_mount`, as `kmain` and `fs_test` do them. -/
def System.mountRoot (s : System Memfs) : Int32 × System Memfs :=
  let r := vfsMount K.toDrivers (memfsInitialize (vfsInitialize s.vfs)) memdisk rootPath memfsName
  (r.1, s.setVfs r.2)

/-- The file written. -/
def testWrite (s : System Memfs) : Option Unit × System Memfs :=
  let s := s.printk "Creating test file...\n" []
  match fdOpen K.toDrivers s.vfs testFile (O_WRONLY ||| O_CREAT) with
  | (fd, vfs) =>
    let s := s.setVfs vfs
    if fd < 0 then (none, s.printk "Failed to create test file\n" [])
    else
      let len := UInt32.ofNat testData.length
      match fdWrite K.toDrivers s.vfs fd (bufferOf testData) len with
      | (written, vfs) =>
        let s := s.setVfs vfs
        if written ≠ len.toInt32 then
          let s := s.printk "Failed to write to test file\n" []
          (none, s.setVfs (fdClose K.toDrivers s.vfs fd).2)
        else
          let s := s.setVfs (fdClose K.toDrivers s.vfs fd).2
          (some (), s.printk "Wrote %d bytes to /test.txt\n" [.int written])

/-- The file read back, into a buffer of 128 bytes. -/
def testRead (s : System Memfs) : Except Stop (Option Unit × System Memfs) :=
  let s := s.printk "Reading back test file...\n" []
  match fdOpen K.toDrivers s.vfs testFile O_RDONLY with
  | (fd, vfs) =>
    let s := s.setVfs vfs
    if fd < 0 then .ok (none, s.printk "Failed to open test file for reading\n" [])
    else
      match fdRead K.toDrivers s.vfs fd s.stack 127 with
      | (bytesRead, buffer, vfs) =>
        let s := s.setVfs vfs
        if bytesRead ≤ 0 then
          let s := s.printk "Failed to read from test file\n" []
          .ok (none, s.setVfs (fdClose K.toDrivers s.vfs fd).2)
        else if bytesRead.toInt < 128 then
          let line := ((buffer.put bytesRead.toUInt32 [0]).bytes 0 128).takeWhile (· ≠ 0)
          let s := s.setVfs (fdClose K.toDrivers s.vfs fd).2
          .ok (some (), s.printk "Read %d bytes: %s\n" [.int bytesRead, .str line])
        else .error (.wildStore s.acts)

/-- The loop of the list, for at most so many rounds: an entry without a name is passed over. -/
def testListLoop (dir : UInt32) : ℕ → UInt32 → System Memfs → Except Stop (System Memfs)
  | 0, _, s => .error (.unending s.acts)
  | n + 1, i, s =>
    match vfsReaddir K s.vfs.world dir i with
    | (none, w) => .ok (s.setWorld w)
    | (some entry, w) =>
      let s := s.setWorld w
      testListLoop dir n (i + 1) (if entry.dName.bytes ≠ [] then s.printk "  %s\n" [.str entry.dName.bytes] else s)

/-- The list of the root directory. -/
def testList (s : System Memfs) : Except Stop (System Memfs) :=
  let s := s.printk "Root directory contents:\n" []
  match vfsOpen K.toDrivers s.vfs.world s.vfs.fsRoot rootPath.bytes 0 with
  | (none, w) => .ok ((s.setWorld w).printk "Failed to open root directory\n" [])
  | (some dir, w) => do
    let s ← testListLoop K dir (2 ^ 32) 0 (s.setWorld w)
    .ok ((s.setWorld (vfsClose K.toDrivers s.vfs.world dir)).printk "=== File System Test Complete ===\n" [])

/-- `fs_test`. -/
def fsTest (s : System Memfs) : Except Stop (System Memfs) :=
  let s := s.printk "=== Starting File System Test ===\n" []
  match s.mountRoot K with
  | (mounted, s) =>
    if mounted ≠ 0 then .ok (s.printk "Failed to mount root filesystem!\n" [])
    else
      match testWrite K (s.printk "Mounted memory filesystem at /\n" []) with
      | (none, s) => .ok s
      | (some _, s) => do
        match ← testRead K s with
        | (none, s) => .ok s
        | (some _, s) => testList K s

/-! ### Its end -/

/-- What is printed before the test is given up. -/
def failureTexts : List String :=
  ["Failed to mount root filesystem!\n", "Failed to create test file\n", "Failed to write to test file\n",
   "Failed to open test file for reading\n", "Failed to read from test file\n"]

/-- What is printed when it is done. -/
def testComplete : Act := .printk "=== File System Test Complete ===\n" []

/-- The test goes on: what it has done since is not its end. -/
def GoesOn (s s' : System Memfs) : Prop := ∃ acts, s'.acts = s.acts ++ acts ∧ testComplete ∉ acts

/-- The test is given up: the last thing done is to say so. -/
def GivesUp (s s' : System Memfs) : Prop :=
  ∃ s₁, GoesOn s s₁ ∧ ∃ text ∈ failureTexts, s'.acts = s₁.acts ++ [.printk text []]

theorem GoesOn.refl (s : System Memfs) : GoesOn s s := ⟨[], (List.append_nil _).symm, List.not_mem_nil⟩

theorem GoesOn.printk {s s' : System Memfs} (h : GoesOn s s') (format : String)
    (hne : format ≠ "=== File System Test Complete ===\n") (args : List Arg) : GoesOn s (s'.printk format args) := by
  obtain ⟨acts, hacts, hnot⟩ := h
  refine ⟨acts ++ [.printk format args], ?_, ?_⟩
  · rw [← List.append_assoc, ← hacts]
    rfl
  · rw [List.mem_append, List.mem_singleton, testComplete, Act.printk.injEq]
    rintro (h | ⟨h, -⟩)
    · exact hnot h
    · exact hne h.symm

theorem GoesOn.setVfs {s s' : System Memfs} (h : GoesOn s s') (vfs : Vfs Memfs) : GoesOn s (s'.setVfs vfs) := h

/-- What was opened cannot be read, so the file is never read back. -/
theorem testRead_givesUp {s s₀ : System Memfs} (h : GoesOn s₀ s) :
    ∃ s', testRead K s = .ok (none, s') ∧ GivesUp s₀ s' := by
  have hread := h.printk "Reading back test file...\n" (by decide) []
  unfold testRead
  generalize s.printk "Reading back test file...\n" [] = s at hread ⊢
  have hrefused : 0 ≤ (fdOpen K.toDrivers s.vfs testFile O_RDONLY).1 → _ := fun h => read_O_RDONLY h s.stack 127
  dsimp only
  generalize fdOpen K.toDrivers s.vfs testFile O_RDONLY = opened at hrefused ⊢
  obtain ⟨fd, vfs⟩ := opened
  split
  · exact ⟨_, rfl, _, hread, _, by simp [failureTexts], rfl⟩
  · next hopen =>
    have hneg : (-1 : Int32) ≤ 0 := by decide
    have hr : fdRead K.toDrivers (s.setVfs vfs).vfs fd (s.setVfs vfs).stack 127 = (-1, s.stack, vfs) :=
      hrefused (Int32.not_lt.mp hopen)
    simp only [hr, if_pos hneg]
    exact ⟨_, rfl, _, hread, _, by simp [failureTexts], rfl⟩

/-- The file written, or not. -/
theorem testWrite_cases {s s₀ : System Memfs} (h : GoesOn s₀ s) :
    (∃ s', testWrite K s = (none, s') ∧ GivesUp s₀ s') ∨ ∃ s', testWrite K s = (some (), s') ∧ GoesOn s₀ s' := by
  have hcreate := h.printk "Creating test file...\n" (by decide) []
  unfold testWrite
  dsimp only
  split
  · exact .inl ⟨_, rfl, _, hcreate, _, by simp [failureTexts], rfl⟩
  · split
    · exact .inl ⟨_, rfl, _, hcreate, _, by simp [failureTexts], rfl⟩
    · exact .inr ⟨_, rfl, hcreate.printk _ (by decide) _⟩

/-- **The test never succeeds**: whatever the file systems do and whatever state it is begun in, it comes back,
and the last thing it has printed is that a step failed. -/
theorem fsTest_fails (s : System Memfs) : ∃ s', fsTest K s = .ok s' ∧ GivesUp s s' := by
  have hstart := (GoesOn.refl s).printk "=== Starting File System Test ===\n" (by decide) []
  unfold fsTest
  dsimp only [System.mountRoot]
  generalize vfsMount _ _ _ _ _ = mounted
  split
  · exact ⟨_, rfl, _, hstart, _, by simp [failureTexts], rfl⟩
  · have hmounted := (hstart.setVfs mounted.2).printk "Mounted memory filesystem at /\n" (by decide) []
    rcases testWrite_cases K hmounted with ⟨s', hwrite, hs'⟩ | ⟨s₁, hwrite, hs₁⟩
    · exact ⟨s', by rw [hwrite], hs'⟩
    · obtain ⟨s', hread, hs'⟩ := testRead_givesUp K hs₁
      refine ⟨s', ?_, hs'⟩
      simp only [hwrite, hread]
      rfl

/-- The mount of the kernel. -/
theorem mountRoot_of {s : System Memfs} {vfs : Vfs Memfs}
    (h : vfsMount memfsDrivers (memfsInitialize (vfsInitialize s.vfs)) memdisk rootPath memfsName = (0, vfs)) :
    s.mountRoot memfsDirDrivers = (0, s.setVfs vfs) := by
  rw [System.mountRoot]
  exact congrArg (fun r : Int32 × Vfs Memfs => (r.1, s.setVfs r.2)) h

/-- **With the kernel's own file systems** the test fails at its first file: the root has no functions. -/
theorem fsTest_bareRoot {s : System Memfs} (hok : s.vfs.world.heap.Ok)
    (hroom : s.vfs.world.heap.heapPos.toNat + 2544 ≤ 0x10000) :
    ∃ vfs p, fsTest memfsDirDrivers s = .ok ((s.act [.printk "=== Starting File System Test ===\n" [],
        .printk "Mounted memory filesystem at /\n" [], .printk "Creating test file...\n" [],
        .printk "Failed to create test file\n" []]).setVfs vfs) ∧
      BareRoot vfs p ∧ vfs.world.heap.Ok ∧ vfs.world.heap.heapPos.toNat = s.vfs.world.heap.heapPos.toNat + 2544 := by
  obtain ⟨vfs, p, hmount, hbare, hok', hpos⟩ := initialise_bareRoot hok hroom memdisk rootPath rfl
  refine ⟨vfs, p, ?_, hbare, hok', hpos⟩
  have hne : testFile.bytes ≠ [slash] := by decide
  have hopen : fdOpen memfsDirDrivers.toDrivers vfs testFile (O_WRONLY ||| O_CREAT) = (-1, vfs) :=
    hbare.fdOpen_of_ne hne _
  have hneg : (-1 : Int32) < 0 := by decide
  have hm : (s.printk "=== Starting File System Test ===\n" []).mountRoot memfsDirDrivers =
      (0, (s.printk "=== Starting File System Test ===\n" []).setVfs vfs) := mountRoot_of hmount
  have hwrite : testWrite memfsDirDrivers
      (((s.printk "=== Starting File System Test ===\n" []).setVfs vfs).printk "Mounted memory filesystem at /\n" []) =
        (none, (s.act [.printk "=== Starting File System Test ===\n" [],
          .printk "Mounted memory filesystem at /\n" [], .printk "Creating test file...\n" [],
          .printk "Failed to create test file\n" []]).setVfs vfs) := by
    simp only [testWrite, System.printk, System.setVfs_act, System.setVfs_vfs, hopen, hneg, if_true,
      System.setVfs_setVfs, System.act_act, List.cons_append, List.nil_append]
  simp only [fsTest, hm, hwrite, ne_eq, not_true_eq_false, if_false]

end Basedos.Kernel
