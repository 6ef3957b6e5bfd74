import Basedos.Fs.AccessModes
import Basedos.Kernel.System

/-!
# The commands of the shell

`execute_command` of `kernel/shell.c`: a line is stored in the history, split into words, its first
word replaced by the words of an alias, and the command of that name done.

## The model

A command that leaves `execute_command` by `return` skips the note of the debug mode at its end
(`Flow`). The loops of `cat` and `ls` end when the file system says so, which may be never: after
`2 ^ 32` rounds they are `unending`. What the file system does is given by `DirDrivers`, of which
nothing is assumed here.

## What is proved

* `commandOf_eq_iff` — a command is named by its own name and no other word.
* `splitLine_words` — **what a line is dispatched on**: its words, or those of the alias its first word
  is, in each case the first fifteen.
-/

namespace Basedos.Kernel

open Basedos.Lib Basedos.CLib Basedos.Fs

/-! ### The names -/

/-- The commands. -/
inductive Command where
  | help | clear | echo | exit | shutdown | reboot | pwd | cd | beep | memory | uptime | ls | cat | mkdir
  | touch | rm | write | date | banner | alias_ | set | history | sysinfo | calc_ | sound
  /-- The name of a file, or nothing at all. -/
  | other
  deriving DecidableEq

/-- The names, in the order in which a word is compared with them. -/
def commandNames : List (List UInt8 × Command) :=
  [(ascii ['h', 'e', 'l', 'p'], .help), (ascii ['c', 'l', 'e', 'a', 'r'], .clear),
   (ascii ['e', 'c', 'h', 'o'], .echo), (ascii ['e', 'x', 'i', 't'], .exit),
   (ascii ['s', 'h', 'u', 't', 'd', 'o', 'w', 'n'], .shutdown),
   (ascii ['r', 'e', 'b', 'o', 'o', 't'], .reboot), (ascii ['p', 'w', 'd'], .pwd), (ascii ['c', 'd'], .cd),
   (ascii ['b', 'e', 'e', 'p'], .beep), (ascii ['m', 'e', 'm', 'o', 'r', 'y'], .memory),
   (ascii ['u', 'p', 't', 'i', 'm', 'e'], .uptime), (ascii ['l', 's'], .ls), (ascii ['c', 'a', 't'], .cat),
   (ascii ['m', 'k', 'd', 'i', 'r'], .mkdir), (ascii ['t', 'o', 'u', 'c', 'h'], .touch),
   (ascii ['r', 'm'], .rm), (ascii ['w', 'r', 'i', 't', 'e'], .write), (ascii ['d', 'a', 't', 'e'], .date),
   (ascii ['b', 'a', 'n', 'n', 'e', 'r'], .banner), (ascii ['a', 'l', 'i', 'a', 's'], .alias_),
   (ascii ['s', 'e', 't'], .set), (ascii ['h', 'i', 's', 't', 'o', 'r', 'y'], .history),
   (ascii ['s', 'y', 's', 'i', 'n', 'f', 'o'], .sysinfo), (ascii ['c', 'a', 'l', 'c'], .calc_),
   (ascii ['s', 'o', 'u', 'n', 'd'], .sound)]

/-- `"exit"`. -/
def exitWord : List UInt8 := ascii ['e', 'x', 'i', 't']

/-- The command a word names. -/
def commandOf (word : List UInt8) : Command :=
  ((commandNames.find? fun p => strcmp word p.1 = 0).map Prod.snd).getD .other

/-- The command of a word, by its place in the list of names. -/
theorem commandOf_eq_iff {word name : List UInt8} {c : Command} (hmem : (name, c) ∈ commandNames)
    (h0 : 0 ∉ word) : commandOf word = c ↔ word = name := by
  have hnames : (commandNames.map Prod.fst).Nodup := by decide
  have hcommands : (commandNames.map Prod.snd).Nodup := by decide
  have hnul : ∀ p ∈ commandNames, 0 ∉ p.1 := by decide
  have hother : ∀ p ∈ commandNames, p.2 ≠ .other := by decide
  unfold commandOf
  cases hfind : commandNames.find? fun p => strcmp word p.1 = 0 with
  | none =>
    refine iff_of_false (hother _ hmem).symm fun hname => ?_
    have hno := List.find?_eq_none.mp hfind _ hmem
    rw [decide_eq_true_eq, strcmp_eq_zero_iff h0 (hnul _ hmem)] at hno
    exact hno hname
  | some p =>
    have hp := List.mem_of_find?_eq_some hfind
    have heq := List.find?_some hfind
    rw [decide_eq_true_eq, strcmp_eq_zero_iff h0 (hnul p hp)] at heq
    constructor
    · intro hc
      have hsame : p = (name, c) := List.inj_on_of_nodup_map hcommands hp hmem hc
      rw [heq, hsame]
    · intro hname
      have hsame : p = (name, c) := List.inj_on_of_nodup_map hnames hp hmem (heq.symm.trans hname)
      rw [hsame]
      rfl

/-- Is what follows in `execute_command` still to be done? -/
inductive Flow where
  | next
  | returned
  deriving DecidableEq

variable {D : Type}

namespace System

/-- The end of a branch. -/
def next (s : System D) : Except Stop (Flow × System D) := .ok (.next, s)

/-- `return`. -/
def returned (s : System D) : Except Stop (Flow × System D) := .ok (.returned, s)

/-- The world, and the file descriptors, after a call. -/
def setVfs (s : System D) (vfs : Vfs D) : System D := { s with vfs }

def setWorld (s : System D) (world : World D) : System D := s.setVfs { s.vfs with world }

theorem setVfs_vfs (s : System D) (vfs : Vfs D) : (s.setVfs vfs).vfs = vfs := rfl

theorem setVfs_act (s : System D) (vfs : Vfs D) (acts : List Act) : (s.setVfs vfs).act acts = (s.act acts).setVfs vfs :=
  rfl

theorem setVfs_setVfs (s : System D) (vfs vfs' : Vfs D) : (s.setVfs vfs).setVfs vfs' = s.setVfs vfs' := rfl

/-- `shell_state.last_exit_code = code`. -/
def exitCode (s : System D) (code : Int32) : System D := { s with lastExitCode := code }

variable (K : DirDrivers D)

/-! ### The commands that use the file system -/

/-- The end of `cd` when there is no such directory. -/
def noSuchDirectory (s : System D) (path : List UInt8) : System D :=
  ((s.printError "No such directory: ").printk "%s\n" [.str path]).exitCode 1

/-- `cd` to a path. -/
def changeDirectory (s : System D) (path : List UInt8) : Except Stop (System D) :=
  match vfsFinddir K.toDrivers s.vfs.world s.vfs.fsRoot path with
  | (some node, w) =>
    if (w.node node).flags &&& FS_DIRECTORY ≠ 0 then do
      let directory ← inside (strncpy s.currentDirectory path 63)
      let directory ← inside (store directory 63 0)
      .ok { s.setWorld w with currentDirectory := directory }
    else .ok ((s.setWorld w).noSuchDirectory path)
  | (none, w) => .ok ((s.setWorld w).noSuchDirectory path)

/-- `cd`: with no argument, to the root. -/
def cd (s : System D) (args : List CStr) : Except Stop (System D) :=
  match args with
  | [] => s.changeDirectory K [slash]
  | path :: _ => s.changeDirectory K path.bytes

/-- The loop of `ls`, for at most so many rounds. -/
def lsLoop (dir : UInt32) : ℕ → UInt32 → System D → Except Stop (System D)
  | 0, _, s => .error (.unending s.acts)
  | n + 1, i, s =>
    match vfsReaddir K s.vfs.world dir i with
    | (none, w) => .ok (s.setWorld w)
    | (some entry, w) => lsLoop dir n (i + 1) ((s.setWorld w).printk "  %s\n" [.str entry.dName.bytes])

/-- `ls`. -/
def ls (s : System D) : Except Stop (Flow × System D) :=
  match vfsOpen K.toDrivers s.vfs.world s.vfs.fsRoot [slash] 0 with
  | (none, w) => returned ((s.setWorld w).printk "Error: Could not open directory /\n" [])
  | (some dir, w) =>
    let s := s.setWorld w
    if (w.node dir).flags &&& 0x7 ≠ FS_DIRECTORY then
      let s := s.printk "Error: / is not a directory\n" []
      returned (s.setWorld (vfsClose K.toDrivers s.vfs.world dir))
    else do
      let s ← lsLoop K dir (2 ^ 32) 0 (s.printk "Contents of /\n" [])
      next (s.setWorld (vfsClose K.toDrivers s.vfs.world dir))

/-- The loop of `cat`, for at most so many rounds. -/
def catLoop (fd : Int32) : ℕ → Mem → System D → Except Stop (System D)
  | 0, _, s => .error (.unending s.acts)
  | n + 1, buffer, s =>
    match fdRead K.toDrivers s.vfs fd buffer 1023 with
    | (bytesRead, buffer, vfs) =>
      if bytesRead > 0 then
        if bytesRead.toInt < 1024 then
          let buffer := buffer.put bytesRead.toUInt32 [0]
          let line := (buffer.bytes 0 1024).takeWhile (· ≠ 0)
          catLoop fd n buffer ((s.setVfs vfs).printk "%s" [.str line])
        else .error (.wildStore s.acts)
      else .ok (s.setVfs vfs)

/-- `cat`. -/
def cat (s : System D) (args : List CStr) : Except Stop (Flow × System D) :=
  match args with
  | [] => returned (s.printk "Usage: cat <file>\n" [])
  | file :: _ =>
    match fdOpen K.toDrivers s.vfs file O_RDONLY with
    | (fd, vfs) =>
      let s := s.setVfs vfs
      if fd < 0 then returned (s.printk "Error: Could not open file %s\n" [.str file.bytes])
      else do
        let s ← catLoop K fd (2 ^ 32) s.stack s
        next ((s.setVfs (fdClose K.toDrivers s.vfs fd).2).printk "\n" [])

/-- `touch`. -/
def touch (s : System D) (args : List CStr) : Except Stop (Flow × System D) :=
  match args with
  | [] => returned (s.printk "Usage: touch <file>\n" [])
  | file :: _ =>
    match fdOpen K.toDrivers s.vfs file (O_CREAT ||| O_WRONLY) with
    | (fd, vfs) =>
      let s := s.setVfs vfs
      if fd < 0 then returned (s.printk "Error: Could not create file %s\n" [.str file.bytes])
      else next ((s.setVfs (fdClose K.toDrivers vfs fd).2).printk "Created file %s\n" [.str file.bytes])

/-- The loop of `write`: the arguments joined with blanks in an array. -/
def joinArgs : List CStr → List UInt8 → Option (List UInt8)
  | [], buffer => some buffer
  | [arg], buffer => strcat buffer arg.bytes
  | arg :: args, buffer => do
    let buffer ← strcat buffer arg.bytes
    let buffer ← strcat buffer [32]
    joinArgs args buffer

/-- `write`. -/
def write (s : System D) (args : List CStr) : Except Stop (Flow × System D) :=
  match args with
  | file :: arg :: args =>
    match fdOpen K.toDrivers s.vfs file (O_WRONLY ||| O_CREAT) with
    | (fd, vfs) =>
      let s := s.setVfs vfs
      if fd < 0 then returned (s.printk "Error: Could not open file %s\n" [.str file.bytes])
      else do
        let buffer ← inside (joinArgs (arg :: args) (List.replicate 1024 0))
        let text ← inside (stringIn buffer)
        let len := UInt32.ofNat text.length
        match fdWrite K.toDrivers s.vfs fd (bufferOf buffer) len with
        | (written, vfs) =>
          let s := s.setVfs vfs
          let s :=
            if written ≠ len.toInt32 then s.printk "Error: Could not write to file\n" []
            else s.printk "Wrote %d bytes to %s\n" [.int written, .str file.bytes]
          next (s.setVfs (fdClose K.toDrivers s.vfs fd).2)
  | _ => returned (s.printk "Usage: write <file> <text>\n" [])

/-! ### The commands on the shell's settings -/

/-- `alias`. -/
def alias_ (s : System D) (args : List CStr) : Option (System D) :=
  match args with
  | [] => s.listAliases
  | [name, command] => s.addAlias name.bytes command.bytes
  | _ => some (s.printk "Usage: alias [name] [command]\n" [])

/-- `set`. -/
def set (s : System D) (args : List CStr) : System D :=
  match args with
  | [] =>
    s.act [.printk "Shell settings:\n" [], .printk "  debug: %s\n" [onOff s.debugMode],
      .printk "  color: %s\n" [onOff s.colorEnabled], .printk "  echo: %s\n" [onOff s.echoEnabled]]
  | [setting, value] =>
    let on : Bool := strcmp value.bytes (ascii ['o', 'n']) = 0
    if strcmp setting.bytes (ascii ['d', 'e', 'b', 'u', 'g']) = 0 then
      { s with debugMode := on }.printSuccess "Debug mode updated\n"
    else if strcmp setting.bytes (ascii ['c', 'o', 'l', 'o', 'r']) = 0 then
      { s with colorEnabled := on }.printSuccess "Color mode updated\n"
    else if strcmp setting.bytes (ascii ['e', 'c', 'h', 'o']) = 0 then
      { s with echoEnabled := on }.printSuccess "Echo mode updated\n"
    else s.printError "Unknown setting\n"
  | _ => s.printk "Usage: set [setting] [on|off]\n" []

/-- A word that is no command: the name of a file that cannot be executed, or nothing at all. -/
def notFound (s : System D) (cmd : CStr) : System D :=
  match vfsFinddir K.toDrivers s.vfs.world s.vfs.fsRoot cmd.bytes with
  | (some _, w) =>
    ((s.setWorld w).printError "Execution of binary files is not yet implemented\n").exitCode 126
  | (none, w) => (((s.setWorld w).printError "Command not found: ").printk "%s\n" [.str cmd.bytes]).exitCode 127

/-- A command that is not there yet. -/
def notImplemented (s : System D) (args : List CStr) (usage text : String) : Except Stop (Flow × System D) :=
  if args = [] then returned (s.printk usage []) else next (s.printk text [])

/-! ### `execute_command` -/

/-- The branches. -/
def runCommand (s : System D) (cmd : CStr) (args : List CStr) : Except Stop (Flow × System D) :=
  match commandOf cmd.bytes with
  | .help => next s.help
  | .clear => next (s.act [.clear])
  | .echo => next (s.echoTest args)
  | .exit => returned (s.printInfo "Goodbye!\n")
  | .shutdown =>
    .error (.halted ((s.printInfo "Shutting down system...\n").act
      [.writestring "Shutting down BasedOS...\n", .writestring "System halted safely.\n"]).acts)
  | .reboot => .error (.halted ((s.printWarning "Rebooting system...\n").act [.outb 0x64 0xFE]).acts)
  | .pwd => do
    let directory ← inside (stringIn s.currentDirectory)
    next (s.printk "%s\n" [.str directory])
  | .cd => do next (← s.cd K args)
  | .beep => next (s.act [.beep 1000, .delay 500, .nosound])
  | .memory => do next (← s.showMemoryInfo)
  | .uptime => next (s.printk "System uptime: %d seconds\n" [.int s.uptimeSeconds.toInt32])
  | .ls => s.ls K
  | .cat => s.cat K args
  | .mkdir => s.notImplemented args "Usage: mkdir <directory>\n" "mkdir: Not implemented yet\n"
  | .touch => s.touch K args
  | .rm => s.notImplemented args "Usage: rm <file>\n" "rm: Not implemented yet\n"
  | .write => s.write K args
  | .date => next (s.printk "System uptime: %d seconds\n" [.int s.uptimeSeconds.toInt32])
  | .banner => next s.displayBanner
  | .alias_ => do next (← inside (s.alias_ args))
  | .set => next (s.set args)
  | .history => do next (← inside s.showHistory)
  | .sysinfo => do next (← inside s.showSystemInfo)
  | .calc_ => do next (← s.calculator args)
  | .sound => next s.playStartupSound
  | .other => next (s.notFound K cmd)

/-- The end of `execute_command`. -/
def debugNote (s : System D) (cmd : CStr) : System D :=
  if s.debugMode then
    s.printk "[DEBUG] Command '%s' exited with code %d\n" [.str cmd.bytes, .int s.lastExitCode]
  else s

end System

/-- The words a line is dispatched on, when it has any: an alias is replaced by its command, which is split
into words again. -/
def splitLine (aliases : List AliasSlot) (t : Tokenizer) (input : List UInt8) :
    Option (Option (List CStr) × Tokenizer) := do
  let (args, t) ← parseCommand t input
  let ws ← readArgs t.buffer args
  match ws with
  | [] => some (none, t)
  | cmd :: _ =>
    match ← findAlias cmd.bytes aliases with
    | none => some (some ws, t)
    | some command => do
      let (args, t) ← parseCommand t command
      let ws ← readArgs t.buffer args
      some (some ws, t)

section SplitLine

variable {aliases : List AliasSlot} {l : List (List UInt8 × List UInt8)} {t : Tokenizer} {line : List UInt8}

/-- The first words of a line, with an alias replaced. -/
def resolvedWords (l : List (List UInt8 × List UInt8)) (line : List UInt8) : List (List UInt8) :=
  match (wordsOf line).take 15 with
  | [] => []
  | cmd :: args =>
    match l.lookup cmd with
    | none => cmd :: args
    | some command => (wordsOf command).take 15

/-- A command stored fits its array. -/
theorem lookup_short (h : Stores aliases l) {cmd command : List UInt8} (hl : l.lookup cmd = some command) :
    0 ∉ command ∧ command.length < 128 := by
  obtain ⟨slot, hslot⟩ := exists_slot h (mem_of_lookup hl)
  have hlen := hslot.command.length_lt
  rw [hslot.commandSize] at hlen
  exact ⟨hslot.command.noNul, hlen⟩

/-- **What a line is dispatched on**, with any aliases. -/
theorem splitLine_words (h : Stores aliases l) (hsize : t.buffer.length = 128) (h0 : 0 ∉ line)
    (hlen : line.length < 128) :
    ∃ ws t', splitLine aliases t line = some (ws, t') ∧ t'.buffer.length = 128 ∧ 0 ∈ t'.buffer ∧
      (wordsOf line = [] ∧ ws = none ∨
        wordsOf line ≠ [] ∧ ∃ ws', ws = some ws' ∧ ws'.map CStr.bytes = resolvedWords l line) := by
  obtain ⟨args, t₁, ws, hparse, hsize₁, hterm, hread, hws⟩ := parseCommand_words (t := t) h0 (by omega)
  simp only [splitLine, hparse, hread, Option.bind_eq_bind, Option.bind_some]
  cases ws with
  | nil =>
    refine ⟨none, t₁, rfl, hsize₁.trans hsize, hterm, .inl ⟨?_, rfl⟩⟩
    rw [List.map_nil, eq_comm, List.take_eq_nil_iff] at hws
    exact hws.resolve_left (by decide)
  | cons cmd rest =>
    have hne : wordsOf line ≠ [] := by
      intro hnil
      rw [hnil] at hws
      cases hws
    have hres : resolvedWords l line = match l.lookup cmd.bytes with
        | none => (cmd :: rest).map CStr.bytes
        | some command => (wordsOf command).take 15 := by
      rw [resolvedWords, ← hws]
      rfl
    simp only [findAlias_stores h cmd.noNul, Option.bind_some]
    cases hl : l.lookup cmd.bytes with
    | none =>
      refine ⟨some (cmd :: rest), t₁, rfl, hsize₁.trans hsize, hterm, .inr ⟨hne, cmd :: rest, rfl, ?_⟩⟩
      rw [hres, hl]
    | some command =>
      obtain ⟨hc0, hclen⟩ := lookup_short h hl
      obtain ⟨args', t₂, ws', hparse', hsize₂, hterm', hread', hws'⟩ := parseCommand_words (t := t₁) hc0 (by omega)
      simp only [hparse', hread', Option.bind_some]
      refine ⟨some ws', t₂, rfl, hsize₂.trans (hsize₁.trans hsize), hterm', .inr ⟨hne, ws', rfl, ?_⟩⟩
      rw [hres, hl]
      exact hws'

end SplitLine

variable (K : DirDrivers D)

/-- `execute_command` before its branches: the command and its arguments, or nothing for a blank line. -/
def dispatch (s : System D) (input : List UInt8) : Except Stop (Option (CStr × List CStr) × System D) :=
  if input.length = 0 then .ok (none, s)
  else do
    let s ← inside (s.addToHistory input)
    let (ws, parse) ← inside (splitLine s.aliases s.parse input)
    match ws with
    | none => .ok (none, { s with parse })
    | some [] => .error .nullAccess
    | some (cmd :: args) => .ok (some (cmd, args), { s with parse, lastExitCode := 0 })

/-- `execute_command`. -/
def executeCommand (s : System D) (input : List UInt8) : Except Stop (System D) := do
  let (words, s) ← dispatch s input
  match words with
  | none => .ok s
  | some (cmd, args) =>
    match ← s.runCommand K cmd args with
    | (.returned, s) => .ok s
    | (.next, s) => .ok (s.debugNote cmd)

/-! ### `start_shell` -/

/-- The aliases there are at first. -/
def defaultAliases : List (List UInt8 × List UInt8) :=
  [(ascii ['l', 'l'], ascii ['l', 's', ' ', '-', 'l']), (ascii ['l', 'a'], ascii ['l', 's', ' ', '-', 'a']),
   (ascii ['c', 'l', 's'], ascii ['c', 'l', 'e', 'a', 'r']),
   (ascii ['m', 'e', 'm'], ascii ['m', 'e', 'm', 'o', 'r', 'y']),
   (ascii ['s', 'y', 's'], ascii ['s', 'y', 's', 'i', 'n', 'f', 'o'])]

/-- What `start_shell` prints first. -/
def System.greet (s : System D) : System D :=
  ((s.displayBanner.printSuccess "BasedOS Shell v2.0\n").printInfo
    "Type 'help' for available commands\n").printk "\n" []

/-- `start_shell` before its loop. -/
def startShell (s : System D) : Option (System D) :=
  defaultAliases.foldlM (fun s p => s.addAlias p.1 p.2) s.greet

end Basedos.Kernel
