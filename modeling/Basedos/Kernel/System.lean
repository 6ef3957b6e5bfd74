import Basedos.Fs.Vfs
import Basedos.Kernel.Aliases
import Basedos.Kernel.Parse

/-!
# The shell's state, and the commands that only print

The static variables of `kernel/shell.c`, and what its commands use of the rest of the kernel.

## The model

`acts` records, in order, the calls that go to the terminal, the speaker and the ports. What
`get_uptime` and `get_memory_stats` return is read from the state and changed by nothing here: the
timer's interrupts are not modelled. A command may not come back (`Stop`): a store into an array of
the shell that is outside it, or a read of a string that does not end in its array, is `overrun`.

The table of aliases is one of slots here, and `add_alias` stops at a name that runs out of its own array: the
bytes behind it, where the real one goes on, are those of `Basedos.Kernel.AliasRecords`.
-/

namespace Basedos.Kernel

open Basedos.Lib Basedos.CLib Basedos.Fs

/-- An argument of `printk`. -/
inductive Arg where
  | int (n : Int32)
  | chr (c : UInt8)
  | str (s : List UInt8)
  | text (s : String)
  deriving DecidableEq

/-- What a command does that can be seen. -/
inductive Act where
  | printk (format : String) (args : List Arg)
  | writestring (text : String)
  | setcolor (fg bg : UInt8)
  | clear
  | beep (frequency : UInt32)
  | delay (milliseconds : Int32)
  | nosound
  | outb (port : UInt16) (value : UInt8)
  deriving DecidableEq

/-- Why a command does not come back, and what had been done by then. -/
inductive Stop where
  /-- An array of the shell was overrun: what has been done is not followed. -/
  | overrun
  /-- `NULL` was read as a string. -/
  | nullAccess
  /-- A store at a place the file system gave, outside the array. -/
  | wildStore (acts : List Act)
  /-- A division that the processor cannot do. -/
  | divideError (acts : List Act)
  /-- The processor was halted. -/
  | halted (acts : List Act)
  /-- A loop has gone round `2 ^ 32` times. -/
  | unending (acts : List Act)
  deriving DecidableEq

/-- What was done inside the arrays. -/
def inside {α : Type} : Option α → Except Stop α
  | some a => .ok a
  | none => .error .overrun

theorem inside_eq_ok {α : Type} {r : Option α} {a : α} : inside r = .ok a ↔ r = some a := by
  cases r with
  | none => exact iff_of_false nofun nofun
  | some a' => exact ⟨fun h => congrArg some (Except.ok.inj h), fun h => congrArg Except.ok (Option.some.inj h)⟩

/-- The static variables of `shell.c`, the file system, and what the kernel knows. -/
structure System (D : Type) where
  /-- `history`. -/
  history : Fin 10 → List UInt8
  /-- `history_pos`. -/
  historyPos : ℤ
  /-- `aliases`, the first `alias_count` of them. -/
  aliases : List AliasSlot
  /-- `shell_state.echo_enabled`. -/
  echoEnabled : Bool
  /-- `shell_state.debug_mode`. -/
  debugMode : Bool
  /-- `shell_state.current_directory`, of 64 bytes. -/
  currentDirectory : List UInt8
  /-- `shell_state.last_exit_code`. -/
  lastExitCode : Int32
  /-- `shell_state.color_enabled`. -/
  colorEnabled : Bool
  /-- `buffer` of `parse_command`, and `last` of `strtok`. -/
  parse : Tokenizer
  /-- `kernel_status.uptime_seconds`. -/
  uptimeSeconds : UInt32
  /-- `kernel_status.total_memory`. -/
  totalMemory : UInt32
  /-- `kernel_status.free_memory`. -/
  freeMemory : UInt32
  /-- What lies on the stack where `cat` has its buffer. -/
  stack : Mem
  /-- The file systems. -/
  vfs : Vfs D
  /-- What has been done that can be seen. -/
  acts : List Act

/-- The variables as the kernel is loaded. -/
def System.initial {D : Type} (vfs : Vfs D) (totalMemory freeMemory uptimeSeconds : UInt32) (stack : Mem) :
    System D where
  history _ := List.replicate MAX_INPUT 0
  historyPos := 0
  aliases := []
  echoEnabled := true
  debugMode := false
  currentDirectory := slash :: List.replicate 63 0
  lastExitCode := 0
  colorEnabled := true
  parse := ⟨List.replicate MAX_INPUT 0, none⟩
  uptimeSeconds := uptimeSeconds
  totalMemory := totalMemory
  freeMemory := freeMemory
  stack := stack
  vfs := vfs
  acts := []

variable {D : Type}

namespace System

/-! ### Printing -/

/-- More is done. -/
def act (s : System D) (acts : List Act) : System D := { s with acts := s.acts ++ acts }

theorem act_act (s : System D) (acts acts' : List Act) : (s.act acts).act acts' = s.act (acts ++ acts') := by
  simp only [act, List.append_assoc]

/-- `printk`. -/
def printk (s : System D) (format : String) (args : List Arg) : System D := s.act [.printk format args]

/-- `print_color`. -/
def printColor (s : System D) (text : String) (color : UInt8) : System D :=
  s.act (if s.colorEnabled then [.setcolor color 0, .printk "%s" [.text text], .setcolor 15 0]
    else [.printk "%s" [.text text]])

/-- `print_error`. -/
def printError (s : System D) (text : String) : System D := s.printColor text 12

/-- `print_success`. -/
def printSuccess (s : System D) (text : String) : System D := s.printColor text 10

/-- `print_info`. -/
def printInfo (s : System D) (text : String) : System D := s.printColor text 11

/-- `print_warning`. -/
def printWarning (s : System D) (text : String) : System D := s.printColor text 14

/-- `"on"` or `"off"`. -/
def onOff (b : Bool) : Arg := .text (if b then "on" else "off")

/-- `"ON"` or `"OFF"`. -/
def onOffUpper (b : Bool) : Arg := .text (if b then "ON" else "OFF")

/-! ### The history and the aliases -/

/-- The shell's editor, of which only the history is looked at. -/
def editor (s : System D) : Shell Unit where
  input := []
  position := 0
  history := s.history
  historyPos := s.historyPos
  currentHistory := -1
  rest := ()
  running := true
  out := []
  stored := []
  recalls := []

/-- `add_to_history`. -/
def addToHistory (s : System D) (cmd : List UInt8) : Option (System D) :=
  (Kernel.addToHistory s.editor cmd).map fun e => { s with history := e.history, historyPos := e.historyPos }

/-- One round of the loop of `show_history`. -/
def historyEntry (s : System D) (i : ℕ) : Option (List Act) := do
  let k ← historyIndex ((s.historyPos + i) % HISTORY_SIZE)
  let line ← stringIn (s.history k)
  some (if line = [] then [] else [.printk " %d: %s\n" [.int (Int32.ofNat i + 1), .str line]])

/-- `show_history`. -/
def showHistory (s : System D) : Option (System D) := do
  let entries ← (List.range HISTORY_SIZE).mapM s.historyEntry
  some ((s.printInfo "Command history:\n").act entries.flatten)

/-- `add_alias`, up to a name that runs out of its array; `RecordShell.addAlias` goes on with any name. -/
def addAlias (s : System D) (aliasName command : List UInt8) : Option (System D) := do
  let (reply, aliases) ← Kernel.addAlias s.aliases aliasName command
  some ({ s with aliases }.printColor reply.text (if reply = AliasReply.full then 12 else 10))

/-- One round of the loop of `list_aliases`. -/
def aliasEntry (slot : AliasSlot) : Option Act := do
  let name ← stringIn slot.alias_
  let command ← stringIn slot.command
  some (.printk "  %s -> %s\n" [.str name, .str command])

/-- `list_aliases`. -/
def listAliases (s : System D) : Option (System D) :=
  if s.aliases = [] then some (s.printInfo "No aliases defined\n")
  else do
    let entries ← s.aliases.mapM aliasEntry
    some ((s.printInfo "Defined aliases:\n").act entries)

/-! ### What the kernel knows -/

/-- `show_system_info`. -/
def showSystemInfo (s : System D) : Option (System D) := do
  let directory ← stringIn s.currentDirectory
  some (((s.printInfo "BasedOS System Information\n").printInfo "==========================\n").act
    [.printk "OS Version: BasedOS v0.1\n" [], .printk "Architecture: x86 32-bit\n" [],
     .printk "Uptime: %d seconds\n" [.int s.uptimeSeconds.toInt32],
     .printk "Memory: %d KB total, %d KB free\n"
       [.int (s.totalMemory / 1024).toInt32, .int (s.freeMemory / 1024).toInt32],
     .printk "Current directory: %s\n" [.str directory],
     .printk "Debug mode: %s\n" [onOffUpper s.debugMode],
     .printk "Color mode: %s\n" [onOffUpper s.colorEnabled],
     .printk "Last exit code: %d\n" [.int s.lastExitCode]])

/-- `show_memory_info`. -/
def showMemoryInfo (s : System D) : Except Stop (System D) :=
  let used := s.totalMemory - s.freeMemory
  if s.totalMemory = 0 then .error (.divideError s.acts)
  else
    let usagePercent := (used * 100 / s.totalMemory).toInt32
    let s := ((s.printInfo "Memory Information\n").printInfo "==================\n").act
      [.printk "Total memory: %d KB (%d bytes)\n" [.int (s.totalMemory / 1024).toInt32, .int s.totalMemory.toInt32],
       .printk "Free memory: %d KB (%d bytes)\n" [.int (s.freeMemory / 1024).toInt32, .int s.freeMemory.toInt32],
       .printk "Used memory: %d KB (%d bytes)\n" [.int (used / 1024).toInt32, .int used.toInt32],
       .printk "Memory usage: %d%%\n" [.int usagePercent]]
    .ok (if usagePercent > 80 then s.printWarning "Warning: High memory usage!\n" else s)

/-! ### The commands that only print -/

/-- The texts of `help`. -/
def helpTexts : List String :=
  ["  help          - Show this help\n", "  clear         - Clear screen\n",
   "  echo          - Print arguments to the screen\n", "  exit          - Exit the shell\n",
   "  shutdown      - Shut down the system\n", "  reboot        - Reboot the system\n",
   "  beep          - Play a beep sound\n", "  memory        - Show memory information\n",
   "  uptime        - Show system uptime\n", "  ls            - List directory contents\n",
   "  cd <dir>      - Change directory\n", "  pwd           - Print working directory\n",
   "  cat <file>    - Display file contents\n", "  mkdir <dir>   - Create a directory\n",
   "  touch <file>  - Create an empty file\n", "  rm <file>     - Remove a file or directory\n",
   "  write <file>  - Write text to a file\n", "  date          - Show system uptime\n",
   "  banner        - Show ASCII banner\n", "  alias         - Manage command aliases\n",
   "  set           - Change shell settings\n", "  history       - Show command history\n",
   "  sysinfo       - Show system information\n", "  calc          - Simple calculator\n",
   "  sound         - Play startup sound\n"]

/-- `help`. -/
def help (s : System D) : System D :=
  (s.printInfo "Available commands:\n").act (helpTexts.map fun text => .printk text [])

/-- `display_banner`. -/
def displayBanner (s : System D) : System D :=
  (((((s.printInfo "  ____                   _  ___  ____\n").printInfo
    " | __ )  __ _ ___  ___  __| |/ _ \\/ ___|\n").printInfo
    " |  _ \\ / _` / __|/ _ \\/ _` | | | \\___ \\\n").printInfo
    " | |_) | (_| \\__ \\  __/ (_| | |_| |___) |\n").printInfo
    " |____/ \\__,_|___/\\___|\\__,_|\\___/|____/\n").printk "\n" []

/-- `play_startup_sound`: a C major scale. -/
def playStartupSound (s : System D) : System D :=
  s.act ([523, 587, 659, 698, 784, 880, 988, 1047].flatMap fun note =>
    [.beep note, .delay 200, .nosound, .delay 50])

/-- `echo_test`. -/
def echoTest (s : System D) (args : List CStr) : System D :=
  if args = [] then s.printk "Usage: echo <text>\n" []
  else s.act (((args.map fun arg => [Act.printk "%s" [.str arg.bytes]]).intersperse [.printk " " []]).flatten ++
    [.printk "\n" []])

/-- `calculator`. The division of the processor has no result for the least number and `-1`. -/
def calculator (s : System D) (args : List CStr) : Except Stop (System D) :=
  match args with
  | [num1, operator, num2] =>
    let a := atoi num1.bytes
    let b := atoi num2.bytes
    let op := operator.bytes.headD 0
    let print := fun result => s.printk "%d %c %d = %d\n" [.int a, .chr op, .int b, .int result]
    if op = 43 then .ok (print (a + b))
    else if op = 45 then .ok (print (a - b))
    else if op = 42 then .ok (print (a * b))
    else if op = 47 then
      if b = 0 then .ok (s.printError "Error: Division by zero\n")
      else if a = Int32.minValue ∧ b = -1 then .error (.divideError s.acts)
      else .ok (print (a / b))
    else if op = 37 then
      if b = 0 then .ok (s.printError "Error: Division by zero\n")
      else if a = Int32.minValue ∧ b = -1 then .error (.divideError s.acts)
      else .ok (print (a % b))
    else .ok (s.printError "Error: Unknown operator\n")
  | _ =>
    .ok ((s.printk "Usage: calc <num1> <operator> <num2>\n" []).printk "Operators: +, -, *, /, %\n" [])

end System

end Basedos.Kernel
