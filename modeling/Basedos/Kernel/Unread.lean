import Basedos.Kernel.Printout
import Basedos.Kernel.SelfTest

/-!
# No file is ever read

`cat` and the kernel's own test open files with `O_RDONLY`, and `read` refuses what was opened so. They are the
only ones to call `read`, so the `read` function of a file system is never called from the time the
kernel tests its file systems on.

## The model

That a function is not called is said by putting another in its place (`DirDrivers.reading`): whatever the
other does to the memory, to the buffer or to the count it returns, everything is as before.

## What is proved

* `never_reads` — **any session**, with the kernel's test before it, prints the same and leaves the same, whatever
  the file systems' `read` functions do.
-/

namespace Basedos.Fs

open Basedos.Lib Basedos.CLib

variable {D : Type}

/-- What a `read` function does. -/
abbrev Reading (D : Type) := UInt32 → World D → UInt32 → UInt32 → UInt32 → Mem → UInt32 × Mem × World D

/-- The file systems with other `read` functions. -/
def DirDrivers.reading (K : DirDrivers D) (read : Reading D) : DirDrivers D := { K with read }

variable (K : DirDrivers D) (read : Reading D)

/-! ### Calls that do not read -/

theorem vfsFinddir_reading : vfsFinddir (K.reading read).toDrivers = vfsFinddir K.toDrivers := rfl

theorem vfsOpenLoop_reading (flags : UInt32) (w : World D) (current : Kernel.Ptr) (path : List UInt8) :
    vfsOpenLoop (K.reading read).toDrivers flags w current path = vfsOpenLoop K.toDrivers flags w current path := by
  rw [vfsOpenLoop, vfsOpenLoop, vfsFinddir_reading]
  split
  · rfl
  · next hpath =>
    simp only
    split
    · rfl
    · rcases vfsFinddir K.toDrivers w current (path.take (componentLength path)) with ⟨next, w'⟩
      cases next with
      | none => rfl
      | some p => exact vfsOpenLoop_reading flags w' (some p) (advance path (componentLength path))
termination_by path.length
decreasing_by exact length_advance_lt ‹_›

theorem vfsOpen_reading : vfsOpen (K.reading read).toDrivers = vfsOpen K.toDrivers := by
  funext w fsRoot filename flags
  unfold vfsOpen
  simp only [vfsOpenLoop_reading]

theorem fdOpen_reading : fdOpen (K.reading read).toDrivers = fdOpen K.toDrivers := by
  funext s filename flags
  unfold fdOpen
  rw [vfsOpen_reading]
  rfl

theorem fdClose_reading : fdClose (K.reading read).toDrivers = fdClose K.toDrivers := rfl

theorem fdWrite_reading : fdWrite (K.reading read).toDrivers = fdWrite K.toDrivers := rfl

theorem vfsReaddir_reading : vfsReaddir (K.reading read) = vfsReaddir K := rfl

theorem vfsClose_reading : vfsClose (K.reading read).toDrivers = vfsClose K.toDrivers := rfl

theorem vfsMount_reading : vfsMount (K.reading read).toDrivers = vfsMount K.toDrivers := rfl

end Basedos.Fs

namespace Basedos.Kernel

open Basedos.Lib Basedos.CLib Basedos.Fs

variable {D : Type} (K : DirDrivers D) (read : Reading D)

/-! ### The commands -/

theorem cat_reading (s : System D) (args : List CStr) : s.cat (K.reading read) args = s.cat K args := by
  cases args with
  | nil => rfl
  | cons file args => rw [cat_eq, cat_eq, fdOpen_reading, fdClose_reading]

theorem lsLoop_reading (dir : UInt32) (n : ℕ) (i : UInt32) (s : System D) :
    System.lsLoop (K.reading read) dir n i s = System.lsLoop K dir n i s := by
  induction n generalizing i s with
  | zero => rfl
  | succ n ih => simp only [System.lsLoop, vfsReaddir_reading, ih]

theorem runCommand_reading (s : System D) (cmd : CStr) (args : List CStr) :
    s.runCommand (K.reading read) cmd args = s.runCommand K cmd args := by
  unfold System.runCommand
  cases commandOf cmd.bytes with
  | cat => exact cat_reading K read s args
  | ls => simp only [System.ls, vfsOpen_reading, vfsClose_reading, lsLoop_reading]
  | touch => simp only [System.touch, fdOpen_reading, fdClose_reading]
  | write => simp only [System.write, fdOpen_reading, fdClose_reading, fdWrite_reading]
  | _ => rfl

theorem recordCommand_reading (s : RecordShell D) (cmd : CStr) (args : List CStr) :
    s.runCommand (K.reading read) cmd args = s.runCommand K cmd args := by
  unfold RecordShell.runCommand
  rw [runCommand_reading]

theorem executeCommand_reading (s : RecordShell D) (input : List UInt8) (args : ArgArray) :
    s.executeCommand (K.reading read) input args = s.executeCommand K input args := by
  unfold RecordShell.executeCommand
  simp only [recordCommand_reading]

theorem shellRound_reading : RecordShell.shellRound (K.reading read) = RecordShell.shellRound K := by
  funext s call
  simp only [RecordShell.shellRound, RecordShell.shellLine, executeCommand_reading]

/-! ### The kernel's test -/

section Test

variable (K : DirDrivers Memfs) (read : Reading Memfs)

theorem testWrite_reading : testWrite (K.reading read) = testWrite K := by
  funext s
  simp only [testWrite, fdOpen_reading, fdWrite_reading, fdClose_reading]

/-- The test is refused what it reads. -/
theorem testRead_eq (s : System Memfs) :
    testRead K s =
      let s := s.printk "Reading back test file...\n" []
      let r := fdOpen K.toDrivers s.vfs testFile O_RDONLY
      if r.1 < 0 then .ok (none, (s.setVfs r.2).printk "Failed to open test file for reading\n" [])
      else .ok (none, ((s.setVfs r.2).printk "Failed to read from test file\n" []).setVfs
        (fdClose K.toDrivers r.2 r.1).2) := by
  unfold testRead
  simp only
  split
  · rfl
  · next hopen =>
    have hrefused : (-1 : Int32) ≤ 0 := by decide
    rw [System.setVfs_vfs, read_O_RDONLY (Int32.not_lt.mp hopen)]
    exact if_pos hrefused

theorem testRead_reading : testRead (K.reading read) = testRead K := by
  funext s
  rw [testRead_eq, testRead_eq, fdOpen_reading, fdClose_reading]

theorem testListLoop_reading (dir : UInt32) (n : ℕ) (i : UInt32) (s : System Memfs) :
    testListLoop (K.reading read) dir n i s = testListLoop K dir n i s := by
  induction n generalizing i s with
  | zero => rfl
  | succ n ih => simp only [testListLoop, vfsReaddir_reading, ih]

theorem testList_reading : testList (K.reading read) = testList K := by
  funext s
  simp only [testList, vfsOpen_reading, vfsClose_reading, testListLoop_reading]

theorem mountRoot_reading (s : System Memfs) : s.mountRoot (K.reading read) = s.mountRoot K := by
  simp only [System.mountRoot, vfsMount_reading]

theorem fsTest_reading : fsTest (K.reading read) = fsTest K := by
  funext s
  simp only [fsTest, mountRoot_reading, testWrite_reading, testRead_reading, testList_reading]

/-- The kernel from its test on: the shell is started, and these lines are entered, up to the one that leaves it. -/
def testedRun (s : System Memfs) (calls : List LineCall) : Except Stop (Bool × RecordShell Memfs) := do
  let s ← fsTest K s
  let s ← inside (RecordShell.start s)
  calls.foldlM (unlessLeft (RecordShell.shellRound K)) (false, s)

/-- **No file is ever read**: what a file system's `read` functions do makes no difference to any session. -/
theorem never_reads (s : System Memfs) (calls : List LineCall) :
    testedRun (K.reading read) s calls = testedRun K s calls := by
  simp only [testedRun, fsTest_reading, shellRound_reading]

end Test

end Basedos.Kernel
