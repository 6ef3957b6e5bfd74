import Basedos.Kernel.CommandWord

/-!
# The exit status

`execute_command` clears `last_exit_code` before its branches, for a branch that fails to set it. Most of the
branches that fail only print a message, and leave it as it is.

## The model

`Fails` says of each command when it fails, by what it is given and what the file system answers.

## What is proved

* `runCommand_keepsCode` — **every branch but two** leaves the status alone; `cd` and an unknown command set it
  when they fail (`cd_code`, `notFound_code`).
* `exitStatus_iff` — so the status tells a failure from a success just when the command does not fail or is one
  of those two.
-/

namespace Basedos.Kernel

open Basedos.Lib Basedos.CLib Basedos.Fs

variable {D : Type} (K : DirDrivers D)

/-! ### Failure -/

/-- There is no directory at the end of the path. -/
def NoDirectory (s : System D) (path : List UInt8) : Prop :=
  ∀ node w, vfsFinddir K.toDrivers s.vfs.world s.vfs.fsRoot path = (some node, w) →
    (w.node node).flags &&& FS_DIRECTORY = 0

/-- The root cannot be opened, or is no directory. -/
def NoRoot (s : System D) : Prop :=
  ∀ dir w, vfsOpen K.toDrivers s.vfs.world s.vfs.fsRoot [slash] 0 = (some dir, w) →
    (w.node dir).flags &&& 0x7 ≠ FS_DIRECTORY

/-- The file cannot be opened. -/
def CannotOpen (s : System D) (file : CStr) (flags : UInt32) : Prop := (fdOpen K.toDrivers s.vfs file flags).1 < 0

/-- Fewer bytes are written than there are, of the text put together in this array. -/
def ShortWrite (s : System D) (file : CStr) (buffer : List UInt8) : Prop :=
  ∀ text, stringIn buffer = some text →
    (fdWrite K.toDrivers (fdOpen K.toDrivers s.vfs file (O_WRONLY ||| O_CREAT)).2
      (fdOpen K.toDrivers s.vfs file (O_WRONLY ||| O_CREAT)).1 (bufferOf buffer) (UInt32.ofNat text.length)).1 ≠
      (UInt32.ofNat text.length).toInt32

/-- The operators of `calc`, of which the last two divide. -/
def operators : List UInt8 := ascii ['+', '-', '*', '/', '%']

/-- The settings. -/
def settings : List (List UInt8) :=
  [ascii ['d', 'e', 'b', 'u', 'g'], ascii ['c', 'o', 'l', 'o', 'r'], ascii ['e', 'c', 'h', 'o']]

/-- **The command fails**: there are too few arguments or too many, what it names cannot be opened, less is
written than there is, the operator or the setting is not known, the divisor is zero, the table of aliases is full,
or there is no such command yet. A `cat` that has opened its file does not fail here, although it is refused what it
would read: it ends its line as for an empty file. -/
def Fails (s : RecordShell D) (cmd : CStr) (args : List CStr) : Prop :=
  match commandOf cmd.bytes, args with
  | .echo, args => args = []
  | .cd, [] => NoDirectory K s.vars [slash]
  | .cd, path :: _ => NoDirectory K s.vars path.bytes
  | .ls, _ => NoRoot K s.vars
  | .cat, [] => True
  | .cat, file :: _ => CannotOpen K s.vars file O_RDONLY
  | .mkdir, _ => True
  | .touch, [] => True
  | .touch, file :: _ => CannotOpen K s.vars file (O_CREAT ||| O_WRONLY)
  | .rm, _ => True
  | .write, file :: arg :: args => CannotOpen K s.vars file (O_WRONLY ||| O_CREAT) ∨
      ∃ buffer, System.joinArgs (arg :: args) (List.replicate 1024 0) = some buffer ∧ ShortWrite K s.vars file buffer
  | .write, _ => True
  | .alias_, [] => False
  | .alias_, [_, _] => s.records.length ≥ MAX_ALIASES
  | .alias_, _ => True
  | .set, [] => False
  | .set, [setting, _] => setting.bytes ∉ settings
  | .set, _ => True
  | .calc_, [_, operator, num2] =>
    operator.bytes.headD 0 ∉ operators ∨ operator.bytes.headD 0 ∈ operators.drop 3 ∧ atoi num2.bytes = 0
  | .calc_, _ => True
  | .other, _ => True
  | _, _ => False

/-! ### The branches -/

variable {K} {s s' : System D} {cmd : CStr} {args : List CStr}

@[simp] theorem lastExitCode_act (s : System D) (acts : List Act) : (s.act acts).lastExitCode = s.lastExitCode := rfl

@[simp] theorem lastExitCode_printk (s : System D) (format : String) (args : List Arg) :
    (s.printk format args).lastExitCode = s.lastExitCode := rfl

@[simp] theorem lastExitCode_printInfo (s : System D) (text : String) :
    (s.printInfo text).lastExitCode = s.lastExitCode := rfl

@[simp] theorem lastExitCode_setVfs (s : System D) (vfs : Vfs D) : (s.setVfs vfs).lastExitCode = s.lastExitCode := rfl

@[simp] theorem lastExitCode_setWorld (s : System D) (world : World D) :
    (s.setWorld world).lastExitCode = s.lastExitCode := rfl

/-- Where the branch comes back, the status is as it was. -/
abbrev KeepsCode (s : System D) (r : Except Stop (Flow × System D)) : Prop :=
  Gives (fun r => r.2.lastExitCode = s.lastExitCode) r

theorem keepsCode_next (h : s'.lastExitCode = s.lastExitCode) : KeepsCode s s'.next := gives_ok h

theorem keepsCode_returned (h : s'.lastExitCode = s.lastExitCode) : KeepsCode s s'.returned := gives_ok h

/-- The loop of `ls`. -/
theorem lsLoop_code (dir : UInt32) (n : ℕ) (i : UInt32) (s : System D) :
    Gives (fun s' => s'.lastExitCode = s.lastExitCode) (s.lsLoop K dir n i) := by
  induction n generalizing i s with
  | zero => exact gives_error
  | succ n ih =>
    unfold System.lsLoop
    split
    · exact gives_ok rfl
    · exact (ih _ _).mono fun s' hs' => hs'.trans rfl

theorem ls_code : KeepsCode s (s.ls K) := by
  unfold System.ls
  generalize 2 ^ 32 = n
  split
  · exact keepsCode_returned rfl
  · dsimp only
    split
    · exact keepsCode_returned (by simp)
    · exact (lsLoop_code _ n 0 _).bind fun s' hs' => keepsCode_next (by simpa using hs')

/-- The loop of `cat`. -/
theorem catLoop_code (fd : Int32) (n : ℕ) (buffer : Mem) (s : System D) :
    Gives (fun s' => s'.lastExitCode = s.lastExitCode) (s.catLoop K fd n buffer) := by
  induction n generalizing buffer s with
  | zero => exact gives_error
  | succ n ih =>
    unfold System.catLoop
    dsimp only
    split
    · split
      · exact (ih _ _).mono fun s' hs' => hs'.trans rfl
      · exact gives_error
    · exact gives_ok rfl

theorem cat_code : KeepsCode s (s.cat K args) := by
  unfold System.cat
  generalize 2 ^ 32 = n
  split
  · exact keepsCode_returned rfl
  · dsimp only
    split
    · exact keepsCode_returned rfl
    · exact (catLoop_code _ n _ _).bind fun s' hs' => keepsCode_next hs'

theorem touch_code : KeepsCode s (s.touch K args) := by
  unfold System.touch
  split
  · exact keepsCode_returned rfl
  · dsimp only
    split
    · exact keepsCode_returned rfl
    · exact keepsCode_next rfl

theorem write_code : KeepsCode s (s.write K args) := by
  unfold System.write
  split
  · dsimp only
    split
    · exact keepsCode_returned rfl
    · refine (gives_inside _).bind fun buffer _ => (gives_inside _).bind fun text _ => keepsCode_next ?_
      split <;> rfl
  · exact keepsCode_returned rfl

theorem set_code (s : System D) (args : List CStr) : (s.set args).lastExitCode = s.lastExitCode := by
  unfold System.set
  split
  · rfl
  · dsimp only
    split_ifs <;> rfl
  · rfl

theorem calculator_code (s : System D) (args : List CStr) :
    Gives (fun s' => s'.lastExitCode = s.lastExitCode) (s.calculator args) := by
  unfold System.calculator
  split
  · have hdivide : ∀ (a b : Int32) (acts : List Act), Gives (fun s' => s'.lastExitCode = s.lastExitCode)
        (if b = 0 then .ok (s.printError "Error: Division by zero\n")
          else if a = Int32.minValue ∧ b = -1 then .error (Stop.divideError s.acts)
            else .ok (s.act acts)) := fun a b acts =>
      .ite (gives_ok rfl) (.ite gives_error (gives_ok rfl))
    exact .ite (gives_ok rfl) (.ite (gives_ok rfl) (.ite (gives_ok rfl) (.ite (hdivide _ _ _)
      (.ite (hdivide _ _ _) (gives_ok rfl)))))
  · exact gives_ok rfl

theorem showMemoryInfo_code (s : System D) :
    Gives (fun s' => s'.lastExitCode = s.lastExitCode) s.showMemoryInfo := by
  unfold System.showMemoryInfo
  dsimp only
  split
  · exact gives_error
  · refine gives_ok ?_
    split <;> rfl

theorem notImplemented_code (usage text : String) : KeepsCode s (s.notImplemented args usage text) := by
  unfold System.notImplemented
  split
  · exact keepsCode_returned rfl
  · exact keepsCode_next rfl

theorem echoTest_code (s : System D) (args : List CStr) : (s.echoTest args).lastExitCode = s.lastExitCode := by
  unfold System.echoTest
  split <;> rfl

/-- A command whose strings are read first. -/
theorem showHistory_code (s : System D) :
    Gives (fun s' => s'.lastExitCode = s.lastExitCode) (inside s.showHistory) := by
  refine gives_inside_of fun s' hs' => ?_
  obtain ⟨entries, -, h⟩ := Option.bind_eq_some_iff.mp hs'
  cases h
  rfl

theorem showSystemInfo_code (s : System D) :
    Gives (fun s' => s'.lastExitCode = s.lastExitCode) (inside s.showSystemInfo) := by
  refine gives_inside_of fun s' hs' => ?_
  obtain ⟨directory, -, h⟩ := Option.bind_eq_some_iff.mp hs'
  cases h
  rfl

/-- **Every branch but two** leaves the status as it is, when it comes back. -/
theorem runCommand_keepsCode (halias : commandOf cmd.bytes ≠ .alias_) (hcd : commandOf cmd.bytes ≠ .cd)
    (hother : commandOf cmd.bytes ≠ .other) : KeepsCode s (s.runCommand K cmd args) := by
  unfold System.runCommand
  cases hc : commandOf cmd.bytes with
  | help => exact keepsCode_next rfl
  | clear => exact keepsCode_next rfl
  | echo => exact keepsCode_next (echoTest_code s args)
  | exit => exact keepsCode_returned rfl
  | shutdown => exact gives_error
  | reboot => exact gives_error
  | pwd => exact (gives_inside _).bind fun directory _ => keepsCode_next rfl
  | cd => exact absurd hc hcd
  | beep => exact keepsCode_next rfl
  | memory => exact (showMemoryInfo_code s).bind fun s' hs' => keepsCode_next hs'
  | uptime => exact keepsCode_next rfl
  | ls => exact ls_code
  | cat => exact cat_code
  | mkdir => exact notImplemented_code _ _
  | touch => exact touch_code
  | rm => exact notImplemented_code _ _
  | write => exact write_code
  | date => exact keepsCode_next rfl
  | banner => exact keepsCode_next (by simp [System.displayBanner])
  | alias_ => exact absurd hc halias
  | set => exact keepsCode_next (set_code s args)
  | history => exact (showHistory_code s).bind fun s' hs' => keepsCode_next hs'
  | sysinfo => exact (showSystemInfo_code s).bind fun s' hs' => keepsCode_next hs'
  | calc_ => exact (calculator_code s args).bind fun s' hs' => keepsCode_next hs'
  | sound => exact keepsCode_next rfl
  | other => exact absurd hc hother

/-- `cd` says whether there was a directory. -/
theorem changeDirectory_code (s : System D) (path : List UInt8) :
    Gives (fun s' => (NoDirectory K s path → s'.lastExitCode = 1) ∧
      (¬ NoDirectory K s path → s'.lastExitCode = s.lastExitCode)) (s.changeDirectory K path) := by
  unfold System.changeDirectory
  split
  · next node w hfind =>
    split
    · next hflags =>
      have hdirectory : ¬ NoDirectory K s path := fun h => hflags (h node w hfind)
      refine (gives_inside _).bind fun b _ => (gives_inside _).bind fun b' _ => gives_ok ?_
      exact ⟨fun h => absurd h hdirectory, fun _ => rfl⟩
    · next hflags =>
      have hno : NoDirectory K s path := by
        intro node' w' hfind'
        rw [hfind] at hfind'
        cases hfind'
        exact not_not.mp hflags
      exact gives_ok ⟨fun _ => rfl, fun h => absurd hno h⟩
  · next w hfind =>
    have hno : NoDirectory K s path := by
      intro node' w' hfind'
      rw [hfind] at hfind'
      cases hfind'
    exact gives_ok ⟨fun _ => rfl, fun h => absurd hno h⟩

/-- A word that is no command always sets the status. -/
theorem notFound_code (s : System D) (cmd : CStr) : (s.notFound K cmd).lastExitCode ≠ 0 := by
  unfold System.notFound
  split
  · exact show (126 : Int32) ≠ 0 by decide
  · exact show (127 : Int32) ≠ 0 by decide

/-! ### The line -/

variable {r r' : RecordShell D}

theorem RecordShell.alias_code (h : r.alias_ args = some r') : r'.vars.lastExitCode = r.vars.lastExitCode := by
  unfold RecordShell.alias_ at h
  split at h
  · unfold RecordShell.listAliases at h
    split at h
    · cases h
      rfl
    · obtain ⟨entries, -, h⟩ := Option.bind_eq_some_iff.mp h
      cases h
      rfl
  · obtain ⟨⟨reply, records⟩, -, h⟩ := Option.bind_eq_some_iff.mp h
    cases h
    rfl
  · cases h
    rfl

/-- **The status after a branch**: it is set just when `cd` fails or the word is no command. -/
theorem RecordShell.runCommand_code (h0 : r.vars.lastExitCode = 0) :
    Gives (fun x => x.2.vars.lastExitCode ≠ 0 ↔
      Fails K r cmd args ∧ (commandOf cmd.bytes = .cd ∨ commandOf cmd.bytes = .other)) (r.runCommand K cmd args) := by
  have hkept : ∀ code : Int32, code = r.vars.lastExitCode →
      ¬ (commandOf cmd.bytes = .cd ∨ commandOf cmd.bytes = .other) →
      (code ≠ 0 ↔ Fails K r cmd args ∧ (commandOf cmd.bytes = .cd ∨ commandOf cmd.bytes = .other)) := by
    intro code hcode hno
    exact iff_of_false (fun h => h (hcode.trans h0)) fun h => hno h.2
  by_cases halias : commandOf cmd.bytes = .alias_
  · rw [RecordShell.runCommand_alias K halias]
    refine (gives_inside_of fun r' h => ?_).map fun r' h => h
    exact hkept _ (RecordShell.alias_code h) (by simp [halias])
  · rw [RecordShell.runCommand_of_ne K halias]
    by_cases hcd : commandOf cmd.bytes = .cd
    · have hcode : Gives (fun s' => (Fails K r cmd args → s'.lastExitCode = 1) ∧
          (¬ Fails K r cmd args → s'.lastExitCode = r.vars.lastExitCode)) (r.vars.cd K args) := by
        simp only [Fails, hcd]
        cases args with
        | nil => exact changeDirectory_code r.vars [slash]
        | cons path args => exact changeDirectory_code r.vars path.bytes
      simp only [System.runCommand, hcd]
      refine (hcode.bind fun s' hs' => ?_).map fun x hx => hx
      refine gives_ok ?_
      simp only [true_or, and_true]
      by_cases hfails : Fails K r cmd args
      · exact iff_of_true (by rw [hs'.1 hfails]; decide) hfails
      · exact iff_of_false (fun h => h ((hs'.2 hfails).trans h0)) hfails
    · by_cases hother : commandOf cmd.bytes = .other
      · have hfails : Fails K r cmd args := by
          simp only [Fails, hother]
        simp only [System.runCommand, hother]
        have hcode : Gives (fun x : Flow × System D => x.2.lastExitCode ≠ 0) (r.vars.notFound K cmd).next :=
          gives_ok (notFound_code r.vars cmd)
        exact hcode.map fun x hx => iff_of_true hx ⟨hfails, .inr trivial⟩
      · refine (runCommand_keepsCode halias hcd hother).map fun x hx => ?_
        exact hkept _ hx (by simp [hcd, hother])

/-- A blank line has no command, and any other begins with the status cleared. -/
theorem RecordShell.dispatch_code {line : CStr} {pointers : ArgArray} {words : Option (ℕ × ArgArray)}
    (h : r.dispatch line.bytes pointers = .ok (words, r')) :
    (words = none → wordsOf line.bytes = []) ∧ (words ≠ none → r'.vars.lastExitCode = 0) := by
  unfold RecordShell.dispatch at h
  split at h
  · next hempty =>
    cases h
    exact ⟨fun _ => by rw [List.length_eq_zero_iff.mp hempty]; rfl, fun hne => absurd rfl hne⟩
  · obtain ⟨vars, -, h⟩ := bind_eq_ok.mp h
    obtain ⟨⟨argc, args, parse⟩, hparse, h⟩ := bind_eq_ok.mp h
    dsimp only at h
    split at h
    · next hargc =>
      cases h
      refine ⟨fun _ => ?_, fun hne => absurd rfl hne⟩
      have hinside : parseArgs vars.parse line.bytes pointers = some (argc, args, parse) := inside_eq_ok.mp hparse
      obtain ⟨argc', args', parse', hparse', -, -, htok⟩ :=
        parseArgs_holds line.noNul (length_of_parseArgs hinside) pointers
      rw [hinside] at hparse'
      cases hparse'
      have hcount := htok.count
      exact List.length_eq_zero_iff.mp (by omega)
    · obtain ⟨first, -, h⟩ := bind_eq_ok.mp h
      obtain ⟨resolved, -, h⟩ := bind_eq_ok.mp h
      obtain ⟨⟨argc', args', parse'⟩, -, h⟩ := bind_eq_ok.mp h
      cases h
      exact ⟨fun hnone => absurd hnone (Option.some_ne_none _), fun _ => rfl⟩

/-- The command of the line fails. -/
def LineFails (K : DirDrivers D) (s : RecordShell D) (line : List UInt8) (pointers : ArgArray) : Prop :=
  ∃ cmd args s', s.commandWords line pointers = .ok (some (cmd, args), s') ∧ Fails K s' cmd args

/-- The command of the line is `cd`, or is none of the commands. -/
def SetsStatus (s : RecordShell D) (line : List UInt8) (pointers : ArgArray) : Prop :=
  ∃ cmd args s', s.commandWords line pointers = .ok (some (cmd, args), s') ∧
    (commandOf cmd.bytes = .cd ∨ commandOf cmd.bytes = .other)

/-- What is asked of the command of a line, when it is known. -/
theorem RecordShell.exists_commandWords {s s₁ : RecordShell D} {line : List UInt8} {pointers : ArgArray} {cmd : CStr}
    {args : List CStr} (h : s.commandWords line pointers = .ok (some (cmd, args), s₁))
    (P : CStr → List CStr → RecordShell D → Prop) :
    (∃ cmd' args' s', s.commandWords line pointers = .ok (some (cmd', args'), s') ∧ P cmd' args' s') ↔
      P cmd args s₁ := by
  constructor
  · rintro ⟨cmd', args', s', h', hP⟩
    rw [h] at h'
    cases h'
    exact hP
  · exact fun hP => ⟨cmd, args, s₁, h, hP⟩

/-- **The status tells**: it is not zero after a failure, and zero after a success. -/
def StatusTells (K : DirDrivers D) (s : RecordShell D) (line : List UInt8) (pointers : ArgArray)
    (s' : RecordShell D) : Prop :=
  (LineFails K s line pointers → s'.vars.lastExitCode ≠ 0) ∧
    (¬ LineFails K s line pointers → s'.vars.lastExitCode = 0)

/-- **When the status tells a failure from a success**: in every state, for every line with a word in it that comes
back, when its command does not fail, or is `cd` or none of the commands. -/
theorem exitStatus_iff {s s' : RecordShell D} {line : CStr} (hline : wordsOf line.bytes ≠ []) {pointers : ArgArray}
    (h : s.executeCommand K line.bytes pointers = .ok s') :
    StatusTells K s line.bytes pointers s' ↔
      ¬ LineFails K s line.bytes pointers ∨ SetsStatus s line.bytes pointers := by
  obtain ⟨⟨words, s₁⟩, hd, h⟩ := bind_eq_ok.mp h
  obtain ⟨hblank, hcode⟩ := RecordShell.dispatch_code hd
  cases words with
  | none => exact absurd (hblank rfl) hline
  | some words =>
    obtain ⟨argc, args⟩ := words
    obtain ⟨⟨cmd, rest⟩, hstrings, h⟩ := bind_eq_ok.mp h
    obtain ⟨⟨flow, s₂⟩, hrun, h⟩ := bind_eq_ok.mp h
    have hwords : s.commandWords line.bytes pointers = .ok (some (cmd, rest), s₁) :=
      bind_eq_ok.mpr ⟨_, hd, bind_eq_ok.mpr ⟨_, hstrings, rfl⟩⟩
    have hfails : LineFails K s line.bytes pointers ↔ Fails K s₁ cmd rest :=
      RecordShell.exists_commandWords hwords fun cmd' args' s' => Fails K s' cmd' args'
    have hsets : SetsStatus s line.bytes pointers ↔ commandOf cmd.bytes = .cd ∨ commandOf cmd.bytes = .other :=
      RecordShell.exists_commandWords hwords fun cmd' _ _ => commandOf cmd'.bytes = .cd ∨ commandOf cmd'.bytes = .other
    have hstatus := RecordShell.runCommand_code (hcode (Option.some_ne_none _)) _ hrun
    have hsame : s'.vars.lastExitCode = s₂.vars.lastExitCode := by
      cases flow with
      | returned =>
        cases h
        rfl
      | next =>
        cases h
        simp only [System.debugNote]
        split <;> rfl
    dsimp only at hstatus
    unfold StatusTells
    rw [hfails, hsets, hsame]
    by_cases hf : Fails K s₁ cmd rest
    · simp only [hf, not_true_eq_false, false_imp_iff, and_true, true_imp_iff, false_or, hstatus, true_and]
    · simp only [hf, not_false_eq_true, false_imp_iff, true_imp_iff, true_and, true_or, iff_true]
      by_contra hne
      exact hf (hstatus.mp hne).1

theorem cdLine_noNul : 0 ∉ ascii ['c', 'd', ' ', 'x'] := by decide

theorem catLine_noNul : 0 ∉ ascii ['c', 'a', 't'] := by decide

/-- `cd x` -/
def cdLine : CStr := ⟨ascii ['c', 'd', ' ', 'x'], cdLine_noNul⟩

/-- `cat` -/
def catLine : CStr := ⟨ascii ['c', 'a', 't'], catLine_noNul⟩

/-- `cd` to a directory that is not there fails, and says so. -/
theorem exitStatus_cd : ∃ s', smallRecords.executeCommand memfsDirDrivers cdLine.bytes noPointers = .ok s' ∧
    s'.vars.lastExitCode = 1 ∧ LineFails memfsDirDrivers smallRecords cdLine.bytes noPointers := by
  have hback : (smallRecords.executeCommand memfsDirDrivers cdLine.bytes noPointers).map
      (fun s => s.vars.lastExitCode) = .ok 1 := by decide +kernel
  obtain ⟨s', hs, hcode⟩ := map_eq_ok.mp hback
  refine ⟨s', hs, hcode, ?_⟩
  by_contra hno
  have htells := (exitStatus_iff (by decide +kernel) hs).mpr (.inl hno)
  rw [htells.2 hno] at hcode
  exact absurd hcode (by decide)

/-- `cat` with no file prints how it is to be used, and leaves the status `0`. -/
theorem not_forall_statusTells :
    (smallRecords.executeCommand memfsDirDrivers catLine.bytes noPointers).map (fun s => s.vars.lastExitCode) = .ok 0 ∧
    LineFails memfsDirDrivers smallRecords catLine.bytes noPointers ∧
    ¬ ∀ (s s' : RecordShell Memfs) (line : CStr) (pointers : ArgArray), wordsOf line.bytes ≠ [] →
      s.executeCommand memfsDirDrivers line.bytes pointers = .ok s' →
      StatusTells memfsDirDrivers s line.bytes pointers s' := by
  have hcode : (smallRecords.executeCommand memfsDirDrivers catLine.bytes noPointers).map
      (fun s => s.vars.lastExitCode) = .ok 0 := by decide +kernel
  have hfails : LineFails memfsDirDrivers smallRecords catLine.bytes noPointers := by
    have hwords : (smallRecords.commandWords catLine.bytes noPointers).map Prod.fst = .ok (some (catLine, [])) := by
      decide +kernel
    obtain ⟨⟨words, s₁⟩, hw, rfl⟩ := map_eq_ok.mp hwords
    exact ⟨catLine, [], s₁, hw, trivial⟩
  refine ⟨hcode, hfails, fun h => ?_⟩
  obtain ⟨s', hs, hzero⟩ := map_eq_ok.mp hcode
  exact (h smallRecords s' catLine noPointers (by decide +kernel) hs).1 hfails hzero

end Basedos.Kernel
