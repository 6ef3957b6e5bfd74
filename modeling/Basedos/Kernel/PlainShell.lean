import Basedos.Kernel.History
import Basedos.Kernel.Returning

/-!
# The shell without its arrays

What the shell of the running kernel is for, in its own terms. The kernel goes on with a root that has no
functions (`Basedos.Fs.BareRoot`), so no file system is left to speak of: a line is read as words, and the shell
has settings, aliases and the lines that were stored.

## The model

`PlainShell` keeps lists where `kernel/shell.c` has arrays: the aliases in the order they were made, and every line
stored in the history, from the first on. An alias has 32 characters for its name; a name that fills them goes on
with the command, which lies behind it (`PlainAlias.name`). A command is given its words, and answers with what is
printed and what is changed (`PlainShell.command`). After the line `exit` no other is read (`plainStep`). There is no
directory but an empty one: `cd` goes nowhere, no file is opened but `/` itself, from which nothing is read and to
which nothing is written. That this is what the arrays do is shown in `Basedos.Kernel.ShellRefinement`.

## What is proved

* `command_changes`, `line_changes` — **what a line may change**: the settings only if it is `set`, the aliases only
  if it is `alias`, and the status is that of the command.
* `Tidy.line` — the table of aliases keeps to its bounds, and there is a word in each command.
* `run_stillReads` — **exactly when the shell still reads lines** after some: when none of them is `exit`, halts or
  resets the processor, or divides as it cannot.
-/

namespace Basedos.Kernel

open Basedos.Lib Basedos.CLib Basedos.Fs

/-- A text in a colour, if there are colours. -/
def painted (colors : Bool) (color : UInt8) (text : String) : List Act :=
  if colors then [.setcolor color 0, .printk "%s" [.text text], .setcolor 15 0] else [.printk "%s" [.text text]]

/-- An alias. -/
structure PlainAlias where
  /-- What there was room for of the name it was given. -/
  stem : List UInt8
  command : List UInt8
  short : stem.length ≤ 32

/-- A new alias. -/
def PlainAlias.named (name command : List UInt8) : PlainAlias := ⟨name.take 32, command, List.length_take_le _ _⟩

/-- Another command for it. -/
def PlainAlias.setCommand (p : PlainAlias) (command : List UInt8) : PlainAlias := { p with command }

/-- Its name: 32 characters leave no room for a NUL after them, and the name ends with the command. -/
def PlainAlias.name (p : PlainAlias) : List UInt8 := if p.stem.length < 32 then p.stem else p.stem ++ p.command

/-- The names of some aliases, and their commands. -/
def tableOf (ps : List PlainAlias) : List (List UInt8 × List UInt8) := ps.map fun p => (p.name, p.command)

/-- The first alias of that name gets another command, or else there is one more. -/
def putAlias (name command : List UInt8) : List PlainAlias → List PlainAlias
  | [] => [.named name command]
  | p :: ps => if p.name = name then p.setCommand command :: ps else p :: putAlias name command ps

/-- The shell. -/
structure PlainShell where
  /-- The lines stored in the history, all of them. -/
  stored : List (List UInt8)
  /-- The aliases, the first one first. -/
  aliases : List PlainAlias
  echoEnabled : Bool
  debugMode : Bool
  colorEnabled : Bool
  lastExitCode : Int32
  uptimeSeconds : UInt32
  totalMemory : UInt32
  freeMemory : UInt32
  /-- What has been done that can be seen. -/
  acts : List Act

/-! ### What it does -/

namespace PlainShell

/-- More is done. -/
def act (a : PlainShell) (acts : List Act) : PlainShell := { a with acts := a.acts ++ acts }

/-- The table of aliases. -/
def table (a : PlainShell) : List (List UInt8 × List UInt8) := tableOf a.aliases

/-- A text in a colour. -/
def paint (a : PlainShell) (color : UInt8) (text : String) : List Act := painted a.colorEnabled color text

/-- A command and the one after are told apart, but not where the rows of the history begin again. -/
def note (a : PlainShell) (line : List UInt8) : PlainShell :=
  { a with
    stored := if line = [] ∨ a.stored.length % 10 ≠ 0 ∧ a.stored.getLast? = some line then a.stored
      else a.stored ++ [line] }

/-- The status of a failure. -/
def exitCode (a : PlainShell) (code : Int32) : PlainShell := { a with lastExitCode := code }

/-- The end of a branch. -/
def next (a : PlainShell) : Except Stop (Flow × PlainShell) := .ok (.next, a)

/-- `return`. -/
def returned (a : PlainShell) : Except Stop (Flow × PlainShell) := .ok (.returned, a)

/-- `help`. -/
def helpActs (a : PlainShell) : List Act :=
  a.paint 11 "Available commands:\n" ++ System.helpTexts.map fun text => .printk text []

/-- `display_banner`. -/
def bannerActs (a : PlainShell) : List Act :=
  ["  ____                   _  ___  ____\n", " | __ )  __ _ ___  ___  __| |/ _ \\/ ___|\n",
    " |  _ \\ / _` / __|/ _ \\/ _` | | | \\___ \\\n", " | |_) | (_| \\__ \\  __/ (_| | |_| |___) |\n",
    " |____/ \\__,_|___/\\___|\\__,_|\\___/|____/\n"].flatMap (a.paint 11) ++ [.printk "\n" []]

/-- `play_startup_sound`. -/
def soundActs : List Act :=
  [523, 587, 659, 698, 784, 880, 988, 1047].flatMap fun note => [.beep note, .delay 200, .nosound, .delay 50]

/-- `echo`. -/
def echoActs (args : List (List UInt8)) : List Act :=
  if args = [] then [.printk "Usage: echo <text>\n" []]
  else ((args.map fun arg => [Act.printk "%s" [.str arg]]).intersperse [.printk " " []]).flatten ++ [.printk "\n" []]

/-- `show_history`: the last ten lines. -/
def historyActs (a : PlainShell) : List Act :=
  a.paint 11 "Command history:\n" ++ ((List.range 10).map fun i => entryOf i (before 10 a.stored i)).flatten

/-- `list_aliases`. -/
def aliasActs (a : PlainShell) : List Act :=
  if a.aliases = [] then a.paint 11 "No aliases defined\n"
  else a.paint 11 "Defined aliases:\n" ++ a.table.map fun p => .printk "  %s -> %s\n" [.str p.1, .str p.2]

/-- `show_system_info`. -/
def sysinfoActs (a : PlainShell) : List Act :=
  a.paint 11 "BasedOS System Information\n" ++ a.paint 11 "==========================\n" ++
    [.printk "OS Version: BasedOS v0.1\n" [], .printk "Architecture: x86 32-bit\n" [],
     .printk "Uptime: %d seconds\n" [.int a.uptimeSeconds.toInt32],
     .printk "Memory: %d KB total, %d KB free\n"
       [.int (a.totalMemory / 1024).toInt32, .int (a.freeMemory / 1024).toInt32],
     .printk "Current directory: %s\n" [.str [slash]],
     .printk "Debug mode: %s\n" [System.onOffUpper a.debugMode],
     .printk "Color mode: %s\n" [System.onOffUpper a.colorEnabled],
     .printk "Last exit code: %d\n" [.int a.lastExitCode]]

/-- `show_memory_info`. -/
def memoryInfo (a : PlainShell) : Except Stop PlainShell :=
  let used := a.totalMemory - a.freeMemory
  if a.totalMemory = 0 then .error (.divideError a.acts)
  else
    let usagePercent := (used * 100 / a.totalMemory).toInt32
    let a := a.act (a.paint 11 "Memory Information\n" ++ a.paint 11 "==================\n" ++
      [.printk "Total memory: %d KB (%d bytes)\n" [.int (a.totalMemory / 1024).toInt32, .int a.totalMemory.toInt32],
       .printk "Free memory: %d KB (%d bytes)\n" [.int (a.freeMemory / 1024).toInt32, .int a.freeMemory.toInt32],
       .printk "Used memory: %d KB (%d bytes)\n" [.int (used / 1024).toInt32, .int used.toInt32],
       .printk "Memory usage: %d%%\n" [.int usagePercent]])
    .ok (if usagePercent > 80 then a.act (a.paint 14 "Warning: High memory usage!\n") else a)

/-- `calculator`. -/
def calculator (a : PlainShell) (args : List (List UInt8)) : Except Stop PlainShell :=
  match args with
  | [num1, operator, num2] =>
    let m := atoi num1
    let n := atoi num2
    let op := operator.headD 0
    let print := fun result => a.act [.printk "%d %c %d = %d\n" [.int m, .chr op, .int n, .int result]]
    let divide := fun result : Int32 =>
      if n = 0 then .ok (a.act (a.paint 12 "Error: Division by zero\n"))
      else if m = Int32.minValue ∧ n = -1 then .error (.divideError a.acts)
      else .ok (print result)
    if op = 43 then .ok (print (m + n))
    else if op = 45 then .ok (print (m - n))
    else if op = 42 then .ok (print (m * n))
    else if op = 47 then divide (m / n)
    else if op = 37 then divide (m % n)
    else .ok (a.act (a.paint 12 "Error: Unknown operator\n"))
  | _ =>
    .ok (a.act [.printk "Usage: calc <num1> <operator> <num2>\n" [], .printk "Operators: +, -, *, /, %\n" []])

/-- `add_alias`: no more than twenty. -/
def addAlias (a : PlainShell) (name command : List UInt8) : PlainShell :=
  if 20 ≤ a.aliases.length then a.act (a.paint 12 AliasReply.full.text)
  else
    let reply := if name ∈ keys a.table then AliasReply.updated else AliasReply.added
    { a with aliases := putAlias name command a.aliases }.act (a.paint 10 reply.text)

/-- `alias`. -/
def alias_ (a : PlainShell) (args : List (List UInt8)) : PlainShell :=
  match args with
  | [] => a.act a.aliasActs
  | [name, command] => a.addAlias name command
  | _ => a.act [.printk "Usage: alias [name] [command]\n" []]

/-- `set`. What is printed is in the colours there are after. -/
def set (a : PlainShell) (args : List (List UInt8)) : PlainShell :=
  match args with
  | [] =>
    a.act [.printk "Shell settings:\n" [], .printk "  debug: %s\n" [System.onOff a.debugMode],
      .printk "  color: %s\n" [System.onOff a.colorEnabled], .printk "  echo: %s\n" [System.onOff a.echoEnabled]]
  | [setting, value] =>
    let on : Bool := value = ascii ['o', 'n']
    if setting = ascii ['d', 'e', 'b', 'u', 'g'] then
      { a with debugMode := on }.act (a.paint 10 "Debug mode updated\n")
    else if setting = ascii ['c', 'o', 'l', 'o', 'r'] then
      { a with colorEnabled := on }.act ({ a with colorEnabled := on }.paint 10 "Color mode updated\n")
    else if setting = ascii ['e', 'c', 'h', 'o'] then
      { a with echoEnabled := on }.act (a.paint 10 "Echo mode updated\n")
    else a.act (a.paint 12 "Unknown setting\n")
  | _ => a.act [.printk "Usage: set [setting] [on|off]\n" []]

/-- `cd`: there is no directory to go to. -/
def cd (a : PlainShell) (args : List (List UInt8)) : PlainShell :=
  (a.act (a.paint 12 "No such directory: " ++ [.printk "%s\n" [.str (args.headD [slash])]])).exitCode 1

/-- `cat`: of all names only `/` is opened, and there is nothing in it. -/
def cat (a : PlainShell) (args : List (List UInt8)) : Except Stop (Flow × PlainShell) :=
  match args with
  | [] => returned (a.act [.printk "Usage: cat <file>\n" []])
  | file :: _ =>
    if file = [slash] then next (a.act [.printk "\n" []])
    else returned (a.act [.printk "Error: Could not open file %s\n" [.str file]])

/-- `touch`. -/
def touch (a : PlainShell) (args : List (List UInt8)) : Except Stop (Flow × PlainShell) :=
  match args with
  | [] => returned (a.act [.printk "Usage: touch <file>\n" []])
  | file :: _ =>
    if file = [slash] then next (a.act [.printk "Created file %s\n" [.str file]])
    else returned (a.act [.printk "Error: Could not create file %s\n" [.str file]])

/-- `write`: nothing is ever written. -/
def write (a : PlainShell) (args : List (List UInt8)) : Except Stop (Flow × PlainShell) :=
  match args with
  | file :: _ :: _ =>
    if file = [slash] then next (a.act [.printk "Error: Could not write to file\n" []])
    else returned (a.act [.printk "Error: Could not open file %s\n" [.str file]])
  | _ => returned (a.act [.printk "Usage: write <file> <text>\n" []])

/-- A command that is not there yet. -/
def notImplemented (a : PlainShell) (args : List (List UInt8)) (usage text : String) :
    Except Stop (Flow × PlainShell) :=
  if args = [] then returned (a.act [.printk usage []]) else next (a.act [.printk text []])

/-- The branches. -/
def command (a : PlainShell) (cmd : List UInt8) (args : List (List UInt8)) : Except Stop (Flow × PlainShell) :=
  match commandOf cmd with
  | .help => next (a.act a.helpActs)
  | .clear => next (a.act [.clear])
  | .echo => next (a.act (echoActs args))
  | .exit => returned (a.act (a.paint 11 "Goodbye!\n"))
  | .shutdown =>
    .error (.halted (a.act (a.paint 11 "Shutting down system...\n" ++
      [.writestring "Shutting down BasedOS...\n", .writestring "System halted safely.\n"])).acts)
  | .reboot => .error (.halted (a.act (a.paint 14 "Rebooting system...\n" ++ [.outb 0x64 0xFE])).acts)
  | .pwd => next (a.act [.printk "%s\n" [.str [slash]]])
  | .cd => next (a.cd args)
  | .beep => next (a.act [.beep 1000, .delay 500, .nosound])
  | .memory => do next (← a.memoryInfo)
  | .uptime => next (a.act [.printk "System uptime: %d seconds\n" [.int a.uptimeSeconds.toInt32]])
  | .ls => next (a.act [.printk "Contents of /\n" []])
  | .cat => a.cat args
  | .mkdir => a.notImplemented args "Usage: mkdir <directory>\n" "mkdir: Not implemented yet\n"
  | .touch => a.touch args
  | .rm => a.notImplemented args "Usage: rm <file>\n" "rm: Not implemented yet\n"
  | .write => a.write args
  | .date => next (a.act [.printk "System uptime: %d seconds\n" [.int a.uptimeSeconds.toInt32]])
  | .banner => next (a.act a.bannerActs)
  | .alias_ => next (a.alias_ args)
  | .set => next (a.set args)
  | .history => next (a.act a.historyActs)
  | .sysinfo => next (a.act a.sysinfoActs)
  | .calc_ => do next (← a.calculator args)
  | .sound => next (a.act soundActs)
  | .other => next ((a.act (a.paint 12 "Command not found: " ++ [.printk "%s\n" [.str cmd]])).exitCode 127)

/-- The end of `execute_command`. -/
def debugNote (a : PlainShell) (cmd : List UInt8) : PlainShell :=
  if a.debugMode then a.act [.printk "[DEBUG] Command '%s' exited with code %d\n" [.str cmd, .int a.lastExitCode]]
  else a

/-- The variables as the kernel is loaded. -/
def initial (totalMemory freeMemory uptimeSeconds : UInt32) : PlainShell where
  stored := []
  aliases := []
  echoEnabled := true
  debugMode := false
  colorEnabled := true
  lastExitCode := 0
  uptimeSeconds := uptimeSeconds
  totalMemory := totalMemory
  freeMemory := freeMemory
  acts := []

/-- What `start_shell` prints first. -/
def greetActs (a : PlainShell) : List Act :=
  a.bannerActs ++ a.paint 10 "BasedOS Shell v2.0\n" ++ a.paint 11 "Type 'help' for available commands\n" ++
    [.printk "\n" []]

/-- `start_shell` before its loop. -/
def start (a : PlainShell) : PlainShell :=
  defaultAliases.foldl (fun a p => a.addAlias p.1 p.2) (a.act a.greetActs)

/-- `execute_command`. -/
def line (a : PlainShell) (line : List UInt8) : Except Stop PlainShell :=
  let a := a.note line
  if wordsOf line = [] then .ok a
  else
    match resolvedWords a.table line with
    | [] => .error .nullAccess
    | cmd :: args => do
      match ← (a.exitCode 0).command cmd args with
      | (.returned, a) => .ok a
      | (.next, a) => .ok (a.debugNote cmd)

/-- A line entered: is the loop of `start_shell` left after it? -/
def enter (a : PlainShell) (line : Line) : Except Stop (Bool × PlainShell) := do
  let a ← a.line line.bytes
  .ok (line.bytes = exitWord, a)

end PlainShell

/-- One line on the plain shell, as long as every line has come back and none was `exit`. -/
def plainStep (r : Except Stop (Bool × PlainShell)) (line : Line) : Unit × Except Stop (Bool × PlainShell) :=
  ((), r >>= fun x => unlessLeft PlainShell.enter x line)

/-! ### What a command changes -/

variable {a a' : PlainShell} {cmd : List UInt8} {args : List (List UInt8)}

/-- The status a command leaves. -/
def codeOf (cmd : List UInt8) (code : Int32) : Int32 :=
  match commandOf cmd with
  | .cd => 1
  | .other => 127
  | _ => code

/-- What a command may change: the settings if it is `set`, the aliases if it is `alias`, the status if it fails. -/
structure Changes (a a' : PlainShell) (cmd : List UInt8) (args : List (List UInt8)) : Prop where
  stored : a'.stored = a.stored
  uptimeSeconds : a'.uptimeSeconds = a.uptimeSeconds
  totalMemory : a'.totalMemory = a.totalMemory
  freeMemory : a'.freeMemory = a.freeMemory
  settings : commandOf cmd ≠ .set →
    a'.echoEnabled = a.echoEnabled ∧ a'.debugMode = a.debugMode ∧ a'.colorEnabled = a.colorEnabled
  aliases : a'.aliases = a.aliases ∨ ∃ name command, commandOf cmd = .alias_ ∧ args = [name, command] ∧
    a.aliases.length < 20 ∧ a'.aliases = putAlias name command a.aliases
  lastExitCode : a'.lastExitCode = codeOf cmd a.lastExitCode
  acts : a.acts <+: a'.acts

/-- A command that only prints. -/
theorem changes_act (hcode : codeOf cmd a.lastExitCode = a.lastExitCode) (acts : List Act) :
    Changes a (a.act acts) cmd args :=
  ⟨rfl, rfl, rfl, rfl, fun _ => ⟨rfl, rfl, rfl⟩, .inl rfl, hcode.symm, List.prefix_append _ _⟩

/-- What may come of a command. -/
abbrev LeadsTo (a : PlainShell) (cmd : List UInt8) (args : List (List UInt8)) (r : Except Stop (Flow × PlainShell)) :
    Prop := Gives (fun r => Changes a r.2 cmd args) r

theorem leads_next (h : Changes a a' cmd args) : LeadsTo a cmd args a'.next := gives_ok h

theorem leads_returned (h : Changes a a' cmd args) : LeadsTo a cmd args a'.returned := gives_ok h

theorem memoryInfo_changes (hcode : codeOf cmd a.lastExitCode = a.lastExitCode) :
    Gives (Changes a · cmd args) a.memoryInfo := by
  unfold PlainShell.memoryInfo
  refine .ite gives_error (gives_ok ?_)
  split
  · have hact : ∀ acts acts', (a.act acts).act acts' = a.act (acts ++ acts') := by
      intro acts acts'
      simp only [PlainShell.act, List.append_assoc]
    rw [hact]
    exact changes_act hcode _
  · exact changes_act hcode _

theorem calculator_changes (hcode : codeOf cmd a.lastExitCode = a.lastExitCode) (ws : List (List UInt8)) :
    Gives (Changes a · cmd args) (a.calculator ws) := by
  have hprint : ∀ acts, Gives (Changes a · cmd args) (.ok (a.act acts) : Except Stop PlainShell) := fun acts =>
    gives_ok (changes_act hcode acts)
  unfold PlainShell.calculator
  split
  · have hdivide : ∀ (n m : Int32) (acts acts' : List Act), Gives (Changes a · cmd args)
        (if n = 0 then .ok (a.act acts)
          else if m = Int32.minValue ∧ n = -1 then .error (Stop.divideError a.acts) else .ok (a.act acts')) := by
      intro n m acts acts'
      exact .ite (hprint _) (.ite gives_error (hprint _))
    exact .ite (hprint _) (.ite (hprint _) (.ite (hprint _) (.ite (hdivide _ _ _ _)
      (.ite (hdivide _ _ _ _) (hprint _)))))
  · exact hprint _

theorem alias_changes (hcmd : commandOf cmd = .alias_) : Changes a (a.alias_ args) cmd args := by
  have hcode : codeOf cmd a.lastExitCode = a.lastExitCode := by rw [codeOf, hcmd]
  unfold PlainShell.alias_
  split
  · exact changes_act hcode _
  · next name command =>
    unfold PlainShell.addAlias
    split
    · exact changes_act hcode _
    · next hroom =>
      refine ⟨rfl, rfl, rfl, rfl, fun _ => ⟨rfl, rfl, rfl⟩, .inr ?_, hcode.symm, List.prefix_append _ _⟩
      exact ⟨name, command, hcmd, rfl, Nat.not_le.mp hroom, rfl⟩
  · exact changes_act hcode _

theorem set_changes (hcmd : commandOf cmd = .set) : Changes a (a.set args) cmd args := by
  have hcode : codeOf cmd a.lastExitCode = a.lastExitCode := by rw [codeOf, hcmd]
  have hset : ∀ echo debug color acts, Changes a
      ({ a with echoEnabled := echo, debugMode := debug, colorEnabled := color }.act acts) cmd args := fun _ _ _ _ =>
    ⟨rfl, rfl, rfl, rfl, fun hne => absurd hcmd hne, .inl rfl, hcode.symm, List.prefix_append _ _⟩
  unfold PlainShell.set
  split
  · exact changes_act hcode _
  · dsimp only
    split_ifs
    · exact hset _ _ _ _
    · exact hset _ _ _ _
    · exact hset _ _ _ _
    · exact changes_act hcode _
  · exact changes_act hcode _

/-- **What a command may change.** -/
theorem command_changes (a : PlainShell) (cmd : List UInt8) (args : List (List UInt8)) :
    LeadsTo a cmd args (a.command cmd args) := by
  have hcode : ∀ {c}, commandOf cmd = c → c ≠ .cd → c ≠ .other → codeOf cmd a.lastExitCode = a.lastExitCode := by
    rintro c rfl hcd hother
    unfold codeOf
    split
    · next h => exact absurd h hcd
    · next h => exact absurd h hother
    · rfl
  have hfile : ∀ {c : Prop} [Decidable c] {acts acts' : List Act}, codeOf cmd a.lastExitCode = a.lastExitCode →
      LeadsTo a cmd args (if c then (a.act acts).next else (a.act acts').returned) := fun hcode =>
    .ite (leads_next (changes_act hcode _)) (leads_returned (changes_act hcode _))
  have hnot : ∀ usage text, codeOf cmd a.lastExitCode = a.lastExitCode →
      LeadsTo a cmd args (a.notImplemented args usage text) := fun _ _ hcode =>
    .ite (leads_returned (changes_act hcode _)) (leads_next (changes_act hcode _))
  unfold PlainShell.command
  cases hc : commandOf cmd with
  | exit => exact leads_returned (changes_act (hcode hc nofun nofun) _)
  | shutdown => exact gives_error
  | reboot => exact gives_error
  | cd =>
    refine leads_next ⟨rfl, rfl, rfl, rfl, fun _ => ⟨rfl, rfl, rfl⟩, .inl rfl, ?_, List.prefix_append _ _⟩
    rw [codeOf, hc]
    rfl
  | memory => exact (memoryInfo_changes (hcode hc nofun nofun)).bind fun _ h => leads_next h
  | cat =>
    dsimp only [PlainShell.cat]
    split
    · exact leads_returned (changes_act (hcode hc nofun nofun) _)
    · exact hfile (hcode hc nofun nofun)
  | touch =>
    dsimp only [PlainShell.touch]
    split
    · exact leads_returned (changes_act (hcode hc nofun nofun) _)
    · exact hfile (hcode hc nofun nofun)
  | write =>
    dsimp only [PlainShell.write]
    split
    · exact hfile (hcode hc nofun nofun)
    · exact leads_returned (changes_act (hcode hc nofun nofun) _)
  | mkdir => exact hnot _ _ (hcode hc nofun nofun)
  | rm => exact hnot _ _ (hcode hc nofun nofun)
  | alias_ => exact leads_next (alias_changes hc)
  | set => exact leads_next (set_changes hc)
  | calc_ => exact (calculator_changes (hcode hc nofun nofun) args).bind fun _ h => leads_next h
  | other =>
    refine leads_next ⟨rfl, rfl, rfl, rfl, fun _ => ⟨rfl, rfl, rfl⟩, .inl rfl, ?_, List.prefix_append _ _⟩
    rw [codeOf, hc]
    rfl
  | _ => exact leads_next (changes_act (hcode hc nofun nofun) _)

/-! ### When a line comes back -/

namespace PlainShell

theorem next_comesBack (a : PlainShell) : ComesBack a.next := comesBack_ok _

theorem returned_comesBack (a : PlainShell) : ComesBack a.returned := comesBack_ok _

theorem memoryInfo_comesBack : ComesBack a.memoryInfo ↔ ¬ a.totalMemory = 0 := by
  unfold PlainShell.memoryInfo
  simp only [comesBack_ite, comesBack_ok, not_comesBack_error, implies_true, and_true, imp_false]

/-- **Which commands come back.** -/
theorem command_comesBack (a : PlainShell) (cmd : List UInt8) (args : List (List UInt8)) :
    ComesBack (a.command cmd args) ↔ ¬ Stops a.totalMemory cmd args := by
  have hboth : ∀ {c : Prop} [Decidable c] {a₁ a₂ : PlainShell},
      ComesBack (if c then a₁.next else a₂.returned) := comesBack_ite.mpr
    ⟨fun _ => next_comesBack _, fun _ => returned_comesBack _⟩
  have hnot : ∀ usage text, ComesBack (a.notImplemented args usage text) := fun _ _ => comesBack_ite.mpr
    ⟨fun _ => returned_comesBack _, fun _ => next_comesBack _⟩
  unfold PlainShell.command Stops
  cases hc : commandOf cmd with
  | exit => exact iff_of_true (returned_comesBack _) not_false
  | shutdown => exact iff_of_false (not_comesBack_error _) (not_not_intro trivial)
  | reboot => exact iff_of_false (not_comesBack_error _) (not_not_intro trivial)
  | memory => exact (comesBack_bind next_comesBack).trans memoryInfo_comesBack
  | cat =>
    refine iff_of_true ?_ not_false
    dsimp only [PlainShell.cat]
    split
    · exact returned_comesBack _
    · exact hboth
  | touch =>
    refine iff_of_true ?_ not_false
    dsimp only [PlainShell.touch]
    split
    · exact returned_comesBack _
    · exact hboth
  | write =>
    refine iff_of_true ?_ not_false
    dsimp only [PlainShell.write]
    split
    · exact hboth
    · exact returned_comesBack _
  | mkdir => exact iff_of_true (hnot _ _) not_false
  | rm => exact iff_of_true (hnot _ _) not_false
  | calc_ =>
    refine (comesBack_bind next_comesBack).trans ?_
    match args with
    | [] => exact iff_of_true (comesBack_ok _) not_false
    | [_] => exact iff_of_true (comesBack_ok _) not_false
    | [_, _] => exact iff_of_true (comesBack_ok _) not_false
    | [num1, operator, num2] => exact operator_comesBack _ _ _ _ _ _ _ _
    | _ :: _ :: _ :: _ :: _ => exact iff_of_true (comesBack_ok _) not_false
  | _ => exact iff_of_true (next_comesBack _) not_false

end PlainShell

/-! ### Lines -/

/-- The table of aliases: at most twenty, and a word in each command. -/
structure Tidy (a : PlainShell) : Prop where
  few : a.aliases.length ≤ 20
  commands : ∀ p ∈ a.aliases, wordsOf p.command ≠ []

theorem length_putAlias (name command : List UInt8) (ps : List PlainAlias) :
    (putAlias name command ps).length ≤ ps.length + 1 := by
  induction ps with
  | nil => exact le_rfl
  | cons p ps ih =>
    unfold putAlias
    split
    · exact Nat.le_succ _
    · exact Nat.succ_le_succ ih

/-- Every command of the table is the new one or was in it. -/
theorem command_of_mem_putAlias {name command : List UInt8} {ps : List PlainAlias} {p : PlainAlias}
    (h : p ∈ putAlias name command ps) : p.command = command ∨ p ∈ ps := by
  induction ps with
  | nil =>
    rw [List.mem_singleton.mp h]
    exact .inl rfl
  | cons q ps ih =>
    unfold putAlias at h
    split at h
    · rcases List.mem_cons.mp h with rfl | h
      · exact .inl rfl
      · exact .inr (List.mem_cons_of_mem q h)
    · rcases List.mem_cons.mp h with rfl | h
      · exact .inr List.mem_cons_self
      · exact (ih h).imp_right (List.mem_cons_of_mem q)

/-- The words of a command have no blank in them. -/
theorem word_of_resolved {l : List (List UInt8 × List UInt8)} {line w : List UInt8} (h : w ∈ resolvedWords l line) :
    wordsOf w = [w] := by
  have hword : ∀ {text : List UInt8}, w ∈ (wordsOf text).take 15 → wordsOf w = [w] := by
    intro text hmem
    obtain ⟨hne, hsep, -⟩ := mem_words (List.mem_of_mem_take hmem)
    exact words_of_word hne hsep
  unfold resolvedWords at h
  split at h
  · cases h
  · next cmd args hcons =>
    split at h
    · rw [← hcons] at h
      exact hword h
    · exact hword h

/-- A line with a word in it has a command. -/
theorem Tidy.resolved (h : Tidy a) {line : List UInt8} (hne : wordsOf line ≠ []) :
    resolvedWords a.table line ≠ [] := by
  have htake : ∀ {text : List UInt8}, wordsOf text ≠ [] → (wordsOf text).take 15 ≠ [] := by
    intro text hne hnil
    rw [List.take_eq_nil_iff] at hnil
    exact hne (hnil.resolve_left (by decide))
  unfold resolvedWords
  split
  · next hnil => exact absurd hnil (htake hne)
  · split
    · exact List.cons_ne_nil _ _
    · next hl =>
      obtain ⟨p, hp, hpair⟩ := List.mem_map.mp (mem_of_lookup hl)
      cases hpair
      exact htake (h.commands p hp)

/-- What a line may change. -/
structure LineChanges (a a' : PlainShell) (line : List UInt8) : Prop where
  stored : a'.stored = (a.note line).stored
  uptimeSeconds : a'.uptimeSeconds = a.uptimeSeconds
  totalMemory : a'.totalMemory = a.totalMemory
  freeMemory : a'.freeMemory = a.freeMemory
  settings : (∀ cmd args, resolvedWords a.table line = cmd :: args → commandOf cmd ≠ .set) →
    a'.echoEnabled = a.echoEnabled ∧ a'.debugMode = a.debugMode ∧ a'.colorEnabled = a.colorEnabled
  aliases : a'.aliases = a.aliases ∨ ∃ cmd name command, commandOf cmd = .alias_ ∧
    resolvedWords a.table line = [cmd, name, command] ∧ a.aliases.length < 20 ∧
    a'.aliases = putAlias name command a.aliases
  lastExitCode : a'.lastExitCode = if wordsOf line = [] then a.lastExitCode
    else codeOf ((resolvedWords a.table line).headD []) 0

theorem debugNote_eq (a : PlainShell) (cmd : List UInt8) : ∃ acts, a.debugNote cmd = a.act acts := by
  unfold PlainShell.debugNote
  split
  · exact ⟨_, rfl⟩
  · exact ⟨[], by simp [PlainShell.act]⟩

/-- **What a line may change.** -/
theorem line_changes (a : PlainShell) (line : List UInt8) : Gives (fun a' => LineChanges a a' line) (a.line line) := by
  dsimp only [PlainShell.line]
  by_cases hblank : wordsOf line = []
  · rw [if_pos hblank]
    exact gives_ok ⟨rfl, rfl, rfl, rfl, fun _ => ⟨rfl, rfl, rfl⟩, .inl rfl, (if_pos hblank).symm⟩
  · have htable : (a.note line).table = a.table := rfl
    rw [if_neg hblank, htable]
    cases hws : resolvedWords a.table line with
    | nil => exact gives_error
    | cons cmd args =>
      refine (command_changes ((a.note line).exitCode 0) cmd args).bind ?_
      rintro ⟨flow, a'⟩ h
      have hline : ∀ acts, LineChanges a (a'.act acts) line := by
        refine fun acts => ⟨h.stored, h.uptimeSeconds, h.totalMemory, h.freeMemory, ?_, ?_, ?_⟩
        · exact fun hset => h.settings (hset cmd args hws)
        · refine h.aliases.imp_right ?_
          rintro ⟨name, command, hcmd, rfl, hroom, heq⟩
          exact ⟨cmd, name, command, hcmd, hws, hroom, heq⟩
        · rw [if_neg hblank, hws]
          exact h.lastExitCode
      have hplain : a'.act [] = a' := by simp [PlainShell.act]
      cases flow with
      | returned => exact gives_ok (hplain ▸ hline [])
      | next =>
        obtain ⟨acts, hnote⟩ := debugNote_eq a' cmd
        exact gives_ok (hnote ▸ hline acts)

/-- **The table stays tidy.** -/
theorem Tidy.line (h : Tidy a) (line : List UInt8) : Gives Tidy (a.line line) := by
  refine (line_changes a line).mono fun a' ha' => ?_
  rcases ha'.aliases with heq | ⟨cmd, name, command, -, hws, hroom, heq⟩
  · exact ⟨heq ▸ h.few, heq ▸ h.commands⟩
  · have hword : wordsOf command = [command] := word_of_resolved (by rw [hws]; simp)
    refine ⟨?_, fun p hp => ?_⟩
    · rw [heq]
      exact Nat.le_trans (length_putAlias _ _ _) hroom
    · rcases command_of_mem_putAlias (heq ▸ hp) with hp | hp
      · rw [hp, hword]
        exact List.cons_ne_nil _ _
      · exact h.commands p hp

/-- The command of the line does not stop the kernel. -/
def LineReturns (a : PlainShell) (line : List UInt8) : Prop :=
  ∀ cmd args, resolvedWords a.table line = cmd :: args → ¬ Stops a.totalMemory cmd args

/-- **Which lines come back.** -/
theorem line_comesBack (h : Tidy a) (line : List UInt8) : ComesBack (a.line line) ↔ LineReturns a line := by
  have hdone : ∀ (cmd : List UInt8) (r : Flow × PlainShell), ComesBack (match r with
      | (.returned, a) => .ok a
      | (.next, a) => .ok (a.debugNote cmd) : Except Stop PlainShell) := by
    rintro cmd ⟨flow, a'⟩
    cases flow <;> exact comesBack_ok _
  dsimp only [PlainShell.line]
  unfold LineReturns
  by_cases hblank : wordsOf line = []
  · rw [if_pos hblank]
    refine iff_of_true (comesBack_ok _) fun cmd args hws => ?_
    rw [resolvedWords, hblank] at hws
    cases hws
  · have htable : (a.note line).table = a.table := rfl
    rw [if_neg hblank, htable]
    cases hws : resolvedWords a.table line with
    | nil => exact absurd hws (h.resolved hblank)
    | cons cmd args =>
      refine (comesBack_bind (hdone cmd)).trans ((PlainShell.command_comesBack _ cmd args).trans ?_)
      constructor
      · rintro hstops cmd' args' ⟨⟩
        exact hstops
      · exact fun hno => hno cmd args rfl

/-! ### Any lines -/

/-- The line is read and another after it, where the loop of the shell has not been left. -/
def ReturnsAt (r : Except Stop (Bool × PlainShell)) (line : Line) : Prop :=
  ∀ a, r = .ok (false, a) → line.bytes ≠ exitWord ∧ LineReturns a line.bytes

/-- The lines have come back, and none of them was `exit`. -/
def StillReads {σ : Type} (r : Except Stop (Bool × σ)) : Prop := ∃ s, r = .ok (false, s)

/-- A round of the loop keeps the table tidy. -/
theorem Tidy.step {r : Except Stop (Bool × PlainShell)} (h : Gives (fun x => Tidy x.2) r) (line : Line) :
    Gives (fun x => Tidy x.2) (plainStep r line).2 := by
  refine h.bind fun x hx => ?_
  unfold unlessLeft
  refine .ite (gives_ok hx) ?_
  exact (hx.line line.bytes).bind fun a ha => gives_ok ha

/-- Once the loop is left, or a line has not come back, no line is read. -/
theorem stillReads_step {r : Except Stop (Bool × PlainShell)} {line : Line} (h : StillReads (plainStep r line).2) :
    StillReads r := by
  obtain ⟨a', hstep⟩ := h
  obtain ⟨⟨left, a⟩, rfl, hround⟩ := bind_eq_ok.mp hstep
  cases left with
  | false => exact ⟨a, rfl⟩
  | true => cases hround

/-- **One line.** -/
theorem stillReads_line (h : Tidy a) (line : Line) :
    StillReads (plainStep (.ok (false, a)) line).2 ↔ line.bytes ≠ exitWord ∧ LineReturns a line.bytes := by
  have hstep : (plainStep (.ok (false, a)) line).2 = a.enter line := rfl
  rw [hstep, ← line_comesBack h, PlainShell.enter]
  cases a.line line.bytes with
  | error e =>
    refine iff_of_false ?_ fun hback => not_comesBack_error e hback.2
    rintro ⟨a', ⟨⟩⟩
  | ok a' =>
    rw [and_iff_left (comesBack_ok a')]
    constructor
    · rintro ⟨a'', heq⟩
      exact of_decide_eq_false (Prod.mk.inj (Except.ok.inj heq)).1
    · intro hne
      exact ⟨a', congrArg (fun left => Except.ok (left, a')) (decide_eq_false hne)⟩

/-- **When the shell still reads lines** after some: just when none of them is `exit` or has a command that stops the
kernel. -/
theorem run_stillReads {r : Except Stop (Bool × PlainShell)} (h : Gives (fun x => Tidy x.2) r) (lines : List Line) :
    StillReads (run plainStep r lines).2 ↔ StillReads r ∧ Along plainStep ReturnsAt r lines := by
  induction lines generalizing r with
  | nil => exact (and_iff_left trivial).symm
  | cons line lines ih =>
    have hstep : StillReads (plainStep r line).2 ↔ StillReads r ∧ ReturnsAt r line := by
      constructor
      · intro hstill
        obtain ⟨a, rfl⟩ := stillReads_step hstill
        refine ⟨⟨a, rfl⟩, ?_⟩
        rintro a' ⟨⟩
        exact (stillReads_line (h _ rfl) line).mp hstill
      · rintro ⟨⟨a, rfl⟩, hreturns⟩
        exact (stillReads_line (h _ rfl) line).mpr (hreturns a rfl)
    rw [run_cons, ih (Tidy.step h line), hstep, and_assoc]
    rfl

end Basedos.Kernel
