import Basedos.Fs.BareRoot
import Basedos.Kernel.RecordTable

/-!
# The arrays of the shell do what the plain shell does

The shell of `kernel/shell.c` on a root without functions, whatever code there is behind the addresses of functions,
against the plain shell: its arrays (`Represents`), and with them the records of its aliases (`RecordRepresents`).

## What is proved

* `RecordRepresents.runCommand` — **each command** does what the plain shell does.
* `RecordRepresents.executeCommand` — **each line** does, from the history over the words and the aliases to the note
  of the debug mode; where the one does not come back, the other does not for the same reason.
* `RecordRepresents.shellLine` — and the loop is left by the same lines; `start_represents` gives the state it
  begins in.
-/

namespace Basedos.Kernel

open Basedos.Lib Basedos.CLib Basedos.Fs

/-! ### What represents it -/

variable {D : Type} {K : DirDrivers D} {files : Vfs D} {s s' : System D} {a a' : PlainShell}

/-- The arrays of the shell hold what the plain shell has; the file systems are these, and the root has no
functions. -/
structure Represents (files : Vfs D) (s : System D) (a : PlainShell) : Prop where
  vfs : s.vfs = files
  arrays : ShellArrays s []
  recorded : Recorded s.history s.historyPos a.stored
  directory : Holds s.currentDirectory [slash]
  bare : ∃ p, BareRoot files p
  echoEnabled : s.echoEnabled = a.echoEnabled
  debugMode : s.debugMode = a.debugMode
  colorEnabled : s.colorEnabled = a.colorEnabled
  lastExitCode : s.lastExitCode = a.lastExitCode
  uptimeSeconds : s.uptimeSeconds = a.uptimeSeconds
  totalMemory : s.totalMemory = a.totalMemory
  freeMemory : s.freeMemory = a.freeMemory
  acts : s.acts = a.acts

theorem Represents.bareRoot (h : Represents files s a) : ∃ p, BareRoot s.vfs p := by
  rw [h.vfs]
  exact h.bare

theorem Represents.act (h : Represents files s a) (acts : List Act) : Represents files (s.act acts) (a.act acts) :=
  { h with
    arrays := h.arrays.same ((SameArrays.refl s).act acts)
    acts := congrArg (· ++ acts) h.acts }

theorem Represents.exitCode (h : Represents files s a) (code : Int32) :
    Represents files (s.exitCode code) (a.exitCode code) :=
  { h with
    arrays := h.arrays.same ((SameArrays.refl s).exitCode code)
    lastExitCode := rfl }

theorem printColor_eq (s : System D) (text : String) (color : UInt8) :
    s.printColor text color = s.act (painted s.colorEnabled color text) := rfl

theorem colorEnabled_act (s : System D) (acts : List Act) : (s.act acts).colorEnabled = s.colorEnabled := rfl

/-- The same answer: both branches come back, or neither does. -/
abbrev Answers (files : Vfs D) (r : Except Stop (Flow × System D)) (r' : Except Stop (Flow × PlainShell)) : Prop :=
  Corresponds (fun x y => x.1 = y.1 ∧ Represents files x.2 y.2) r r'

theorem Represents.next (h : Represents files s a) : Answers files s.next a.next := ⟨rfl, h⟩

theorem Represents.returned (h : Represents files s a) : Answers files s.returned a.returned := ⟨rfl, h⟩

/-! ### The commands -/

section Commands

variable {cmd : CStr} {args : List CStr}

/-- A command that only prints. -/
theorem Represents.prints {acts : List Act} (h : Represents files s a) (heq : s' = s.act acts) :
    Represents files s' (a.act acts) := by
  rw [heq]
  exact h.act acts

theorem Represents.help (h : Represents files s a) : Represents files s.help (a.act a.helpActs) := by
  apply h.prints
  simp only [System.help, System.printInfo, printColor_eq, System.act_act, h.colorEnabled, PlainShell.helpActs,
    PlainShell.paint]

theorem Represents.banner (h : Represents files s a) : Represents files s.displayBanner (a.act a.bannerActs) := by
  apply h.prints
  simp only [System.displayBanner, System.printInfo, System.printk, printColor_eq, colorEnabled_act, System.act_act,
    h.colorEnabled, PlainShell.bannerActs, PlainShell.paint, List.flatMap_cons, List.flatMap_nil, List.append_nil,
    List.append_assoc]

theorem Represents.echo (h : Represents files s a) :
    Represents files (s.echoTest args) (a.act (PlainShell.echoActs (args.map CStr.bytes))) := by
  apply h.prints
  simp only [System.echoTest, PlainShell.echoActs, List.map_eq_nil_iff, List.map_map, Function.comp_def]
  split <;> rfl

theorem Represents.sysinfo (h : Represents files s a) :
    ∃ s', s.showSystemInfo = some s' ∧ Represents files s' (a.act a.sysinfoActs) := by
  refine ⟨_, ?_, h.act _⟩
  simp only [System.showSystemInfo, h.directory.stringIn, Option.bind_eq_bind, Option.bind_some, System.printInfo,
    printColor_eq, colorEnabled_act, System.act_act, h.colorEnabled, h.uptimeSeconds, h.totalMemory, h.freeMemory,
    h.debugMode, h.lastExitCode, PlainShell.sysinfoActs, PlainShell.paint]

theorem Represents.memory (h : Represents files s a) :
    Corresponds (Represents files) s.showMemoryInfo a.memoryInfo := by
  unfold System.showMemoryInfo PlainShell.memoryInfo
  simp only [System.printInfo, System.printWarning, printColor_eq, colorEnabled_act, System.act_act, h.colorEnabled,
    h.totalMemory, h.freeMemory, PlainShell.paint]
  refine .ite Iff.rfl (fun _ => congrArg Stop.divideError h.acts) fun _ => ?_
  rw [corresponds_ok]
  split
  · rw [← System.act_act]
    exact (h.act _).act _
  · exact h.act _

theorem Represents.history (h : Represents files s a) :
    ∃ s', s.showHistory = some s' ∧ Represents files s' (a.act a.historyActs) := by
  have hentries : (List.range HISTORY_SIZE).mapM s.historyEntry =
      some ((List.range 10).map fun i => entryOf i (before 10 a.stored i)) :=
    mapM_some fun i hi => h.recorded.entry (List.mem_range.mp hi)
  refine ⟨_, ?_, h.act _⟩
  simp only [System.showHistory, hentries, Option.bind_eq_bind, Option.bind_some, System.printInfo, printColor_eq,
    System.act_act, h.colorEnabled, PlainShell.historyActs, PlainShell.paint]

theorem Represents.setDebug (h : Represents files s a) (on : Bool) :
    Represents files { s with debugMode := on } { a with debugMode := on } :=
  ⟨h.vfs, h.arrays.same ⟨rfl, rfl, rfl, rfl, rfl⟩, h.recorded, h.directory, h.bare, h.echoEnabled, rfl, h.colorEnabled,
    h.lastExitCode, h.uptimeSeconds, h.totalMemory, h.freeMemory, h.acts⟩

theorem Represents.setColor (h : Represents files s a) (on : Bool) :
    Represents files { s with colorEnabled := on } { a with colorEnabled := on } :=
  ⟨h.vfs, h.arrays.same ⟨rfl, rfl, rfl, rfl, rfl⟩, h.recorded, h.directory, h.bare, h.echoEnabled, h.debugMode, rfl,
    h.lastExitCode, h.uptimeSeconds, h.totalMemory, h.freeMemory, h.acts⟩

theorem Represents.setEcho (h : Represents files s a) (on : Bool) :
    Represents files { s with echoEnabled := on } { a with echoEnabled := on } :=
  ⟨h.vfs, h.arrays.same ⟨rfl, rfl, rfl, rfl, rfl⟩, h.recorded, h.directory, h.bare, rfl, h.debugMode, h.colorEnabled,
    h.lastExitCode, h.uptimeSeconds, h.totalMemory, h.freeMemory, h.acts⟩

theorem Represents.set (h : Represents files s a) : Represents files (s.set args) (a.set (args.map CStr.bytes)) := by
  have hword : ∀ (arg : CStr) {name : List UInt8}, 0 ∉ name → (strcmp arg.bytes name = 0 ↔ arg.bytes = name) :=
    fun arg _ h0 => strcmp_eq_zero_iff arg.noNul h0
  have hpaint : ∀ color text, painted s.colorEnabled color text = painted a.colorEnabled color text := by
    rw [h.colorEnabled]
    exact fun _ _ => rfl
  match args with
  | [] =>
    apply h.prints
    simp only [System.set, h.debugMode, h.colorEnabled, h.echoEnabled]
  | [_] => exact h.act _
  | [setting, value] =>
    simp only [System.set, PlainShell.set, List.map_cons, List.map_nil, hword _ (show 0 ∉ ascii ['o', 'n'] by decide),
      hword _ (show 0 ∉ ascii ['d', 'e', 'b', 'u', 'g'] by decide),
      hword _ (show 0 ∉ ascii ['c', 'o', 'l', 'o', 'r'] by decide),
      hword _ (show 0 ∉ ascii ['e', 'c', 'h', 'o'] by decide), System.printSuccess, System.printError, printColor_eq,
      PlainShell.paint, hpaint]
    generalize (decide (value.bytes = ascii ['o', 'n'])) = on
    split_ifs
    · exact (h.setDebug on).act _
    · exact (h.setColor on).act _
    · exact (h.setEcho on).act _
    · exact h.act _
  | _ :: _ :: _ :: _ => exact h.act _

theorem Represents.calculator (h : Represents files s a) :
    Corresponds (Represents files) (s.calculator args) (a.calculator (args.map CStr.bytes)) := by
  have husage : Represents files ((s.printk "Usage: calc <num1> <operator> <num2>\n" []).printk
      "Operators: +, -, *, /, %\n" [])
      (a.act [.printk "Usage: calc <num1> <operator> <num2>\n" [], .printk "Operators: +, -, *, /, %\n" []]) :=
    h.prints (s.act_act _ _)
  match args with
  | [] => exact husage
  | [_] => exact husage
  | [_, _] => exact husage
  | [num1, operator, num2] =>
    simp only [System.calculator, PlainShell.calculator, List.map_cons, List.map_nil, System.printError,
      printColor_eq, h.colorEnabled, PlainShell.paint]
    have hdivide : ∀ (m n : Int32) (acts acts' : List Act), Corresponds (Represents files)
        (if n = 0 then .ok (s.act acts)
          else if m = Int32.minValue ∧ n = -1 then .error (Stop.divideError s.acts) else .ok (s.act acts'))
        (if n = 0 then .ok (a.act acts)
          else if m = Int32.minValue ∧ n = -1 then .error (Stop.divideError a.acts) else .ok (a.act acts')) := by
      intro m n acts acts'
      exact .ite Iff.rfl (fun _ => h.act _) fun _ =>
        .ite Iff.rfl (fun _ => congrArg Stop.divideError h.acts) fun _ => h.act _
    refine .ite Iff.rfl (fun _ => h.act _) fun _ => ?_
    refine .ite Iff.rfl (fun _ => h.act _) fun _ => ?_
    refine .ite Iff.rfl (fun _ => h.act _) fun _ => ?_
    refine .ite Iff.rfl (fun _ => hdivide _ _ _ _) fun _ => ?_
    exact .ite Iff.rfl (fun _ => hdivide _ _ _ _) fun _ => h.act _
  | _ :: _ :: _ :: _ :: _ => exact husage

end Commands

/-! ### The commands that use the file system -/

section Files

variable {p : UInt32} {file : CStr} {args : List CStr}

theorem setVfs_self (s : System D) : s.setVfs s.vfs = s := rfl

theorem setWorld_self (s : System D) : s.setWorld s.vfs.world = s := rfl

theorem lsLoop_bareRoot (h : BareRoot s.vfs p) (n : ℕ) (i : UInt32) : s.lsLoop K p (n + 1) i = .ok s := by
  rw [System.lsLoop, h.vfsReaddir]
  rfl

/-- **`ls`** lists nothing. -/
theorem ls_bareRoot (h : BareRoot s.vfs p) : s.ls K = (s.act [.printk "Contents of /\n" []]).next := by
  have hdir : ¬ ((s.vfs.world.node p).flags &&& 0x7 ≠ FS_DIRECTORY) := not_not.mpr h.node.isDir
  have h' : BareRoot (s.act [.printk "Contents of /\n" []]).vfs p := h
  have hloop : (s.act [.printk "Contents of /\n" []]).lsLoop K p (2 ^ 32) 0 =
      .ok (s.act [.printk "Contents of /\n" []]) := lsLoop_bareRoot h' _ 0
  unfold System.ls
  rw [h.vfsOpen, if_pos rfl]
  dsimp only
  rw [setWorld_self, if_neg hdir, System.printk, hloop]
  simp only [bind, Except.bind, h'.vfsClose]
  rfl

/-- What was opened to be read cannot be. -/
theorem fdRead_bareRoot (s : Vfs D) (p : UInt32) (buf : Mem) (size : UInt32) :
    fdRead K.toDrivers (s.setFd 0 ⟨some p, 0, O_RDONLY⟩) 0 buf size =
      (-1, buf, s.setFd 0 ⟨some p, 0, O_RDONLY⟩) := by
  refine fdRead_refused (fun i hi => ?_) buf size
  obtain rfl : 0 = i := Option.some.inj hi
  simp [Vfs.setFd, O_RDONLY]

/-- **`cat`**: what is not `/` is not opened, and `/` cannot be read. -/
theorem cat_bareRoot (h : BareRoot s.vfs p) :
    s.cat K (file :: args) =
      if file.bytes = [slash] then (s.act [.printk "\n" []]).next
      else (s.act [.printk "Error: Could not open file %s\n" [.str file.bytes]]).returned := by
  unfold System.cat
  dsimp only
  by_cases hroot : file.bytes = [slash]
  · have hnot : ¬ (0 : Int32) < 0 := by decide
    have hneg : ¬ (-1 : Int32) > 0 := by decide
    have hloop : System.catLoop K 0 (2 ^ 32) s.stack (s.setVfs (s.vfs.setFd 0 ⟨some p, 0, O_RDONLY⟩)) =
        .ok (s.setVfs (s.vfs.setFd 0 ⟨some p, 0, O_RDONLY⟩)) := by
      rw [show 2 ^ 32 = (2 ^ 32 - 1) + 1 from rfl]
      generalize 2 ^ 32 - 1 = n
      rw [System.catLoop, System.setVfs_vfs, fdRead_bareRoot]
      dsimp only
      rw [if_neg hneg, System.setVfs_setVfs]
    have hclose := h.fdClose_root (K := K.toDrivers) 0 O_RDONLY
    have hstack : (s.setVfs (s.vfs.setFd 0 ⟨some p, 0, O_RDONLY⟩)).stack = s.stack := rfl
    rw [if_pos hroot, h.fdOpen_root hroot]
    dsimp only
    rw [if_neg hnot, hstack, hloop]
    simp only [bind, Except.bind, System.setVfs_vfs, hclose, System.setVfs_setVfs, setVfs_self]
    rfl
  · have hneg : (-1 : Int32) < 0 := by decide
    rw [if_neg hroot, h.fdOpen_of_ne hroot]
    dsimp only
    rw [if_pos hneg, setVfs_self]
    rfl

/-- `touch`. -/
theorem touch_bareRoot (h : BareRoot s.vfs p) :
    s.touch K (file :: args) =
      if file.bytes = [slash] then (s.act [.printk "Created file %s\n" [.str file.bytes]]).next
      else (s.act [.printk "Error: Could not create file %s\n" [.str file.bytes]]).returned := by
  unfold System.touch
  dsimp only
  by_cases hroot : file.bytes = [slash]
  · have hnot : ¬ (0 : Int32) < 0 := by decide
    rw [if_pos hroot, h.fdOpen_root hroot]
    dsimp only
    rw [if_neg hnot, h.fdClose_root, System.setVfs_setVfs, setVfs_self]
    rfl
  · have hneg : (-1 : Int32) < 0 := by decide
    rw [if_neg hroot, h.fdOpen_of_ne hroot]
    dsimp only
    rw [if_pos hneg, setVfs_self]
    rfl

/-- There is something to write. -/
theorem joined_count {arg : CStr} (hne : arg.bytes ≠ []) (hlen : (joined (arg :: args)).length < 1024) :
    (UInt32.ofNat (joined (arg :: args)).length).toInt32 ≠ 0 := by
  have hpos : 0 < (joined (arg :: args)).length := by
    cases args with
    | nil => simpa [joined] using List.length_pos_iff.mpr hne
    | cons arg' args =>
      rw [joined_cons_cons, List.length_append]
      exact Nat.lt_of_lt_of_le (List.length_pos_iff.mpr hne) (Nat.le_add_right _ _)
  intro heq
  have hnat : UInt32.ofNat (joined (arg :: args)).length = 0 := congrArg Int32.toUInt32 heq
  rw [← UInt32.toNat_inj, UInt32.toNat_ofNat_of_lt' (by show _ < 2 ^ 32; omega)] at hnat
  exact hpos.ne' hnat

/-- **`write`**: to `/` nothing is written, which is not what there is. -/
theorem write_bareRoot (h : BareRoot s.vfs p) {arg : CStr} (hne : arg.bytes ≠ [])
    (hlen : (joined (arg :: args)).length < 1024) :
    s.write K (file :: arg :: args) =
      if file.bytes = [slash] then (s.act [.printk "Error: Could not write to file\n" []]).next
      else (s.act [.printk "Error: Could not open file %s\n" [.str file.bytes]]).returned := by
  unfold System.write
  dsimp only
  by_cases hroot : file.bytes = [slash]
  · have hnot : ¬ (0 : Int32) < 0 := by decide
    obtain ⟨b, hjoin, hholds, -⟩ := joinArgs_write (arg :: args) hlen
    have hwrite : fdWrite K.toDrivers (s.vfs.setFd 0 ⟨some p, 0, O_WRONLY ||| O_CREAT⟩) 0 (bufferOf b)
        (UInt32.ofNat (joined (arg :: args)).length) = (0, s.vfs.setFd 0 ⟨some p, 0, O_WRONLY ||| O_CREAT⟩) :=
      h.fdWrite_root (by decide) _ _
    have hclose := h.fdClose_root (K := K.toDrivers) 0 (O_WRONLY ||| O_CREAT)
    rw [if_pos hroot, h.fdOpen_root hroot]
    simp only [if_neg hnot, hjoin, hholds.stringIn, inside, bind, Except.bind, System.setVfs_vfs, hwrite,
      if_pos (joined_count hne hlen).symm, System.printk, System.setVfs_act, hclose, System.setVfs_setVfs]
    rfl
  · have hneg : (-1 : Int32) < 0 := by decide
    rw [if_neg hroot, h.fdOpen_of_ne hroot]
    dsimp only
    rw [if_pos hneg, setVfs_self]
    rfl

/-- `cd`: there is nowhere to go. -/
theorem cd_bareRoot (h : BareRoot s.vfs p) :
    s.cd K args = .ok (s.noSuchDirectory ((args.map CStr.bytes).headD [slash])) := by
  have hpath : ∀ path, s.changeDirectory K path = .ok (s.noSuchDirectory path) := by
    intro path
    unfold System.changeDirectory
    rw [h.vfsFinddir]
    rfl
  unfold System.cd
  split <;> exact hpath _

/-- A word that is no command. -/
theorem notFound_bareRoot (h : BareRoot s.vfs p) (cmd : CStr) :
    s.notFound K cmd = ((s.printError "Command not found: ").printk "%s\n" [.str cmd.bytes]).exitCode 127 := by
  unfold System.notFound
  rw [h.vfsFinddir]
  rfl

end Files

/-! ### Every command -/

section Commands

variable {cmd : CStr} {args : List CStr}

theorem Represents.notImplemented (h : Represents files s a) (usage text : String) :
    Answers files (s.notImplemented args usage text) (a.notImplemented (args.map CStr.bytes) usage text) := by
  unfold System.notImplemented PlainShell.notImplemented
  exact .ite List.map_eq_nil_iff.symm (fun _ => (h.act _).returned) fun _ => (h.act _).next

/-- A text in a colour, and the word it is about. -/
theorem Represents.about (h : Represents files s a) (text : String) (word : List UInt8) (code : Int32) :
    Represents files (((s.printError text).printk "%s\n" [.str word]).exitCode code)
      ((a.act (a.paint 12 text ++ [.printk "%s\n" [.str word]])).exitCode code) := by
  apply Represents.exitCode
  apply h.prints
  simp only [System.printError, System.printk, printColor_eq, System.act_act, h.colorEnabled, PlainShell.paint]

/-- Each command but `alias` does what the plain shell does, whatever code the file systems have. -/
theorem runCommand_represents (h : Represents files s a) (hw : Words128 cmd args)
    (halias : commandOf cmd.bytes ≠ .alias_) :
    Answers files (s.runCommand K cmd args) (a.command cmd.bytes (args.map CStr.bytes)) := by
  obtain ⟨p, hbare⟩ := h.bareRoot
  have hinfo : ∀ text, s.printInfo text = s.act (a.paint 11 text) := by
    intro text
    rw [PlainShell.paint, ← h.colorEnabled]
    rfl
  have hwarning : ∀ text, s.printWarning text = s.act (a.paint 14 text) := by
    intro text
    rw [PlainShell.paint, ← h.colorEnabled]
    rfl
  have hnext {r : Except Stop (System D)} {r' : Except Stop PlainShell} (hr : Corresponds (Represents files) r r') :
      Answers files (r >>= System.next) (r' >>= PlainShell.next) := hr.bind fun _ _ h' => h'.next
  unfold System.runCommand PlainShell.command
  cases hc : commandOf cmd.bytes with
  | help => exact h.help.next
  | clear => exact (h.act _).next
  | echo => exact h.echo.next
  | exit =>
    dsimp only
    rw [hinfo]
    exact (h.act _).returned
  | shutdown =>
    dsimp only
    rw [hinfo, System.act_act]
    exact congrArg Stop.halted (h.act _).acts
  | reboot =>
    dsimp only
    rw [hwarning, System.act_act]
    exact congrArg Stop.halted (h.act _).acts
  | pwd =>
    dsimp only
    rw [h.directory.stringIn]
    exact (h.act _).next
  | cd =>
    dsimp only
    rw [cd_bareRoot hbare]
    exact (h.about _ _ 1).next
  | beep => exact (h.act _).next
  | memory => exact hnext h.memory
  | uptime => exact (h.prints (by rw [h.uptimeSeconds]; rfl)).next
  | ls =>
    dsimp only
    rw [ls_bareRoot hbare]
    exact (h.act _).next
  | cat =>
    cases args with
    | nil => exact (h.act _).returned
    | cons file args =>
      dsimp only
      rw [cat_bareRoot hbare]
      exact .ite Iff.rfl (fun _ => (h.act _).next) fun _ => (h.act _).returned
  | mkdir => exact h.notImplemented _ _
  | touch =>
    cases args with
    | nil => exact (h.act _).returned
    | cons file args =>
      dsimp only
      rw [touch_bareRoot hbare]
      exact .ite Iff.rfl (fun _ => (h.act _).next) fun _ => (h.act _).returned
  | rm => exact h.notImplemented _ _
  | write =>
    match args, hw with
    | [], _ => exact (h.act _).returned
    | [_], _ => exact (h.act _).returned
    | file :: arg :: args, hw =>
      have hne : arg.bytes ≠ [] := by
        intro hnil
        have hword := hw.word arg (by simp)
        rw [hnil] at hword
        cases hword
      dsimp only
      rw [write_bareRoot hbare hne hw.joined_lt]
      exact .ite Iff.rfl (fun _ => (h.act _).next) fun _ => (h.act _).returned
  | date => exact (h.prints (by rw [h.uptimeSeconds]; rfl)).next
  | banner => exact h.banner.next
  | alias_ => exact absurd hc halias
  | set => exact h.set.next
  | history =>
    obtain ⟨s', hhistory, hs'⟩ := h.history
    dsimp only
    rw [hhistory]
    exact hs'.next
  | sysinfo =>
    obtain ⟨s', hinfo, hs'⟩ := h.sysinfo
    dsimp only
    rw [hinfo]
    exact hs'.next
  | calc_ => exact hnext h.calculator
  | sound => exact (h.act _).next
  | other =>
    dsimp only
    rw [notFound_bareRoot hbare]
    exact (h.about _ _ 127).next

end Commands

/-! ### The history -/

/-- **A line noted.** -/
theorem Represents.note (h : Represents files s a) (line : Line) :
    ∃ history historyPos, s.addToHistory line.bytes = some { s with history, historyPos } ∧
      Represents files { s with history, historyPos } (a.note line.bytes) := by
  obtain ⟨history, historyPos, hadd, harrays⟩ := addToHistory_arrays h.arrays line.noNul line.fits
  have hcall := h.recorded.call line
  have hpos : s.historyPos ≠ 0 ↔ a.stored.length % 10 ≠ 0 := by
    rw [h.recorded.position, ne_eq, Int.natCast_eq_zero]
  have hrecorded : Recorded history historyPos (a.note line.bytes).stored := by
    simp only [hadd, hpos] at hcall
    dsimp only [PlainShell.note]
    split at hcall
    · next hsame =>
      rw [if_pos hsame]
      have hs : ({ s with history, historyPos } : System D) = s := Option.some.inj hcall
      obtain ⟨rfl, rfl⟩ : history = s.history ∧ historyPos = s.historyPos :=
        ⟨congrArg System.history hs, congrArg System.historyPos hs⟩
      exact h.recorded
    · next hnew =>
      rw [if_neg hnew]
      obtain ⟨s', hs', hrecorded⟩ := hcall
      obtain rfl : { s with history, historyPos } = s' := Option.some.inj hs'
      exact hrecorded
  exact ⟨history, historyPos, hadd, { h with arrays := harrays, recorded := hrecorded }⟩

theorem Represents.debugNote (h : Represents files s a) (cmd : CStr) :
    Represents files (s.debugNote cmd) (a.debugNote cmd.bytes) := by
  unfold System.debugNote PlainShell.debugNote
  rw [h.debugMode, h.lastExitCode]
  split
  · exact h.act _
  · exact h

/-! ### With the table of aliases -/

section Records

variable {r r' : RecordShell D} {cmd : CStr} {args : List CStr}

/-- The shell with its records does what the plain shell has: each record holds the alias in its place. -/
structure RecordRepresents (files : Vfs D) (r : RecordShell D) (a : PlainShell) : Prop where
  vars : Represents files r.vars a
  records : List.Forall₂ RecordHolds r.records a.aliases

theorem RecordRepresents.inv (h : RecordRepresents files r a) : RecordInv r where
  arrays := h.vars.arrays
  records := by
    intro record hrecord
    obtain ⟨p, -, hp⟩ := exists_mem_of_forall₂ h.records hrecord
    exact hp.ok

/-- `list_aliases`. -/
theorem RecordRepresents.listAliases (h : RecordRepresents files r a) :
    ∃ r', r.listAliases = some r' ∧ RecordRepresents files r' (a.act a.aliasActs) := by
  have hentries : ∀ {records ps}, List.Forall₂ RecordHolds records ps →
      records.mapM recordEntry = some ((tableOf ps).map fun p => .printk "  %s -> %s\n" [.str p.1, .str p.2]) := by
    intro records ps hrecords
    induction hrecords with
    | nil => rfl
    | cons hrecord _ ih =>
      rw [List.mapM_cons, recordEntry, hrecord.alias_, hrecord.command_, ih]
      rfl
  have hnil : r.records = [] ↔ a.aliases = [] := by
    rw [← List.length_eq_zero_iff, h.records.length_eq, List.length_eq_zero_iff]
  refine ⟨⟨r.vars.act a.aliasActs, r.records⟩, ?_, h.vars.act _, h.records⟩
  simp only [RecordShell.listAliases, PlainShell.aliasActs, hnil, hentries h.records, Option.bind_eq_bind,
    Option.bind_some, System.printInfo, printColor_eq, System.act_act, h.vars.colorEnabled, PlainShell.paint,
    PlainShell.table]
  split <;> rfl

/-- **`add_alias`**, with a name of any length. -/
theorem RecordRepresents.addAlias (h : RecordRepresents files r a) {name command : List UInt8} (hn : 0 ∉ name)
    (hnlen : name.length < RECORD_SIZE) (h0 : 0 ∉ command) (hlen : command.length < MAX_INPUT)
    (hne : wordsOf command ≠ []) :
    ∃ r', r.addAlias name command = some r' ∧ RecordRepresents files r' (a.addAlias name command) := by
  have hcount : r.records.length = a.aliases.length := h.records.length_eq
  have hpaint : ∀ color text, r.vars.printColor text color = r.vars.act (a.paint color text) := by
    intro color text
    rw [PlainShell.paint, ← h.vars.colorEnabled]
    rfl
  unfold PlainShell.addAlias
  by_cases hfull : 20 ≤ a.aliases.length
  · have hadd : addRecord r.records name command = some (.full, r.records) := if_pos (by rw [hcount]; exact hfull)
    refine ⟨_, by rw [RecordShell.addAlias, hadd]; rfl, ?_⟩
    rw [if_pos hfull]
    exact ⟨h.vars.prints (hpaint _ _), h.records⟩
  · obtain ⟨records, hloop, hrecords⟩ := addRecordLoop_holds h.records hn hnlen h0 hlen hne
    have hadd : addRecord r.records name command = _ := (if_neg (by rw [hcount]; exact hfull)).trans hloop
    have hreply : (if name ∈ keys (tableOf a.aliases) then AliasReply.updated else .added) ≠ .full := by
      split <;> exact AliasReply.noConfusion
    refine ⟨_, by rw [RecordShell.addAlias, hadd]; rfl, ?_⟩
    have hput : Represents files r.vars { a with aliases := putAlias name command a.aliases } := { h.vars with }
    rw [if_neg hfull]
    refine ⟨hput.prints ?_, hrecords⟩
    dsimp only
    rw [if_neg hreply, hpaint]
    rfl

theorem RecordRepresents.alias_ (h : RecordRepresents files r a) (hw : Words128 cmd args) :
    ∃ r', r.alias_ args = some r' ∧ RecordRepresents files r' (a.alias_ (args.map CStr.bytes)) := by
  match args, hw with
  | [], _ => exact h.listAliases
  | [_], _ => exact ⟨_, rfl, h.vars.act _, h.records⟩
  | [name, command], hw =>
    have hshort := hw.short (show name ∈ [name, command] by simp)
    have hmax : RECORD_SIZE = 160 := rfl
    refine h.addAlias name.noNul (by omega) command.noNul (hw.short (by simp)) ?_
    rw [hw.word command (by simp)]
    exact List.cons_ne_nil _ _
  | _ :: _ :: _ :: _, _ => exact ⟨_, rfl, h.vars.act _, h.records⟩

/-- **Each command** does what the plain shell does, whatever code the file systems have. -/
theorem RecordRepresents.runCommand (h : RecordRepresents files r a) (hw : Words128 cmd args) :
    Corresponds (fun x y => x.1 = y.1 ∧ RecordRepresents files x.2 y.2) (r.runCommand K cmd args)
      (a.command cmd.bytes (args.map CStr.bytes)) := by
  by_cases halias : commandOf cmd.bytes = .alias_
  · obtain ⟨r', hr, hr'⟩ := h.alias_ hw
    rw [RecordShell.runCommand_alias K halias, hr, PlainShell.command, halias]
    exact ⟨rfl, hr'⟩
  · -- No other command changes the table.
    have hsame : Gives (fun y : Flow × PlainShell => y.2.aliases = a.aliases)
        (a.command cmd.bytes (args.map CStr.bytes)) := by
      refine (command_changes a cmd.bytes (args.map CStr.bytes)).mono fun y hy => ?_
      rcases hy.aliases with hkept | ⟨name, command, hcmd, -⟩
      · exact hkept
      · exact absurd hcmd halias
    have hrun := (runCommand_represents (K := K) h.vars hw halias).and_gives hsame
    rw [RecordShell.runCommand_of_ne K halias]
    refine hrun.map_left fun x y hxy => ⟨hxy.1.1, hxy.1.2, ?_⟩
    rw [hxy.2]
    exact h.records

end Records

/-! ### Every line -/

section Lines

variable {r r' : RecordShell D}

/-- A line noted. -/
theorem RecordRepresents.noted (h : RecordRepresents files r a) {line : Line} {code : Int32}
    (hnoted : r.Noted r' line.bytes code) : RecordRepresents files r' ((a.note line.bytes).exitCode code) := by
  obtain ⟨history, historyPos, hadd, hrep⟩ := h.vars.note line
  rw [hnoted.history] at hadd
  have hstate : ({ r.vars with history := r'.vars.history, historyPos := r'.vars.historyPos } : System D) =
      { r.vars with history, historyPos } := Option.some.inj hadd
  rw [← hstate] at hrep
  have hvars : r'.vars = { r.vars with
      history := r'.vars.history
      historyPos := r'.vars.historyPos
      parse := r'.vars.parse
      lastExitCode := code } := congrArg RecordShell.vars hnoted.same
  refine ⟨?_, by rw [hnoted.records]; exact h.records⟩
  have harrays := hnoted.inv.arrays
  rw [hvars] at harrays ⊢
  exact { hrep with arrays := harrays, lastExitCode := rfl }

/-- The status as it was. -/
theorem RecordRepresents.exitCode_self (h : RecordRepresents files r a) (line : List UInt8) :
    (a.note line).exitCode r.vars.lastExitCode = a.note line := by
  rw [h.vars.lastExitCode]
  rfl

/-- **Each line** does what the plain shell does; where it does not come back, neither does that. -/
theorem RecordRepresents.executeCommand (h : RecordRepresents files r a) (call : LineCall) :
    Corresponds (RecordRepresents files) (r.executeCommand K call.line.bytes call.args) (a.line call.line.bytes) := by
  have hwords := recordWords_holds h.records call.line.bytes call.line.noNul
  rw [RecordShell.executeCommand_eq]
  unfold PlainShell.line
  rcases RecordShell.commandWords_cases h.inv call.line.noNul call.fits call.args with
    ⟨hblank, -, r', hcommand, hnoted⟩ | ⟨cmd, args, r', hcommand, hne, hcons, hnoted, hw⟩
  · have hr' := h.noted hnoted
    rw [h.exitCode_self] at hr'
    rw [hcommand, if_pos hblank]
    exact hr'
  · have htable : (a.note call.line.bytes).table = tableOf a.aliases := rfl
    rw [hcommand]
    simp only [if_neg hne, htable, ← hwords, hcons]
    show Corresponds _ (Except.map (RecordShell.finished cmd) (r'.runCommand K cmd args)) _
    rw [map_eq_bind]
    refine ((h.noted hnoted).runCommand (K := K) hw).bind ?_
    rintro ⟨flow, r''⟩ ⟨flow', a''⟩ ⟨rfl, hr⟩
    cases flow with
    | returned => exact hr
    | next =>
      obtain ⟨acts, hnote⟩ := debugNote_eq a'' cmd.bytes
      have hvars := hr.vars.debugNote cmd
      rw [hnote] at hvars
      show RecordRepresents files _ (a''.debugNote cmd.bytes)
      rw [hnote]
      exact ⟨hvars, hr.records⟩

/-- **A line entered**: the loop of `start_shell` is left when that of the plain shell is. -/
theorem RecordRepresents.shellLine (h : RecordRepresents files r a) (call : LineCall) :
    Corresponds (fun x y => x.1 = y.1 ∧ RecordRepresents files x.2 y.2)
      (r.shellLine K call.line.bytes call.args) (a.enter call.line) := by
  have hexit : strcmp call.line.bytes exitWord = 0 ↔ call.line.bytes = exitWord :=
    strcmp_eq_zero_iff call.line.noNul (by decide)
  refine (h.executeCommand call).bind fun r' a' h' => ⟨?_, h'⟩
  simp only [hexit]

/-- Some aliases added. -/
theorem RecordRepresents.addAliases (ps : List (List UInt8 × List UInt8))
    (hps : ∀ p ∈ ps, 0 ∉ p.1 ∧ p.1.length < RECORD_SIZE ∧ 0 ∉ p.2 ∧ p.2.length < MAX_INPUT ∧ wordsOf p.2 ≠ [])
    (h : RecordRepresents files r a) :
    ∃ r', ps.foldlM (fun r p => r.addAlias p.1 p.2) r = some r' ∧
      RecordRepresents files r' (ps.foldl (fun a p => a.addAlias p.1 p.2) a) := by
  induction ps generalizing r a with
  | nil => exact ⟨r, rfl, h⟩
  | cons p ps ih =>
    obtain ⟨⟨hn, hnlen, h0, hlen, hne⟩, hrest⟩ := List.forall_mem_cons.mp hps
    obtain ⟨r₁, hadd, h₁⟩ := h.addAlias hn hnlen h0 hlen hne
    obtain ⟨r', hfold, h'⟩ := ih hrest h₁
    refine ⟨r', ?_, h'⟩
    rw [List.foldlM_cons, hadd]
    exact hfold

/-- **The start of the shell.** -/
theorem start_represents (h : Represents files s a) (hnone : a.aliases = []) :
    ∃ r, RecordShell.start s = some r ∧ RecordRepresents files r a.start := by
  have hgreet : Represents files s.greet (a.act a.greetActs) := by
    apply h.prints
    simp only [System.greet, System.displayBanner, System.printInfo, System.printSuccess, System.printk,
      printColor_eq, colorEnabled_act, System.act_act, h.colorEnabled, PlainShell.greetActs, PlainShell.bannerActs,
      PlainShell.paint, List.flatMap_cons, List.flatMap_nil, List.append_nil, List.append_assoc]
  have hrecords : List.Forall₂ RecordHolds [] (a.act a.greetActs).aliases := by
    show List.Forall₂ RecordHolds [] a.aliases
    rw [hnone]
    exact .nil
  exact RecordRepresents.addAliases defaultAliases defaultAliases_fit ⟨hgreet, hrecords⟩

/-- As the kernel is loaded, with a root that has no functions. -/
theorem initial_represents {vfs : Vfs D} {p : UInt32} (hbare : BareRoot vfs p)
    (totalMemory freeMemory uptimeSeconds : UInt32) (stack : Mem) :
    Represents vfs (System.initial vfs totalMemory freeMemory uptimeSeconds stack)
      (.initial totalMemory freeMemory uptimeSeconds) where
  vfs := rfl
  arrays := (initial_inv vfs totalMemory freeMemory uptimeSeconds stack).toShellArrays
  recorded := initial_recorded
  directory := ⟨by decide, List.replicate 62 0, rfl⟩
  bare := ⟨p, hbare⟩
  echoEnabled := rfl
  debugMode := rfl
  colorEnabled := rfl
  lastExitCode := rfl
  uptimeSeconds := rfl
  totalMemory := rfl
  freeMemory := rfl
  acts := rfl

end Lines

end Basedos.Kernel
