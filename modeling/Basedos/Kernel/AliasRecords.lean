import Basedos.Kernel.Arguments
import Basedos.Kernel.ShellArrays

/-!
# The shell over the bytes of its alias table

`execute_command` of `kernel/shell.c`, with the table of aliases as it lies in memory, and the words of a
line as pointers.

## The model

An `alias_t` is its 160 bytes: `alias` is the string at the first of them, and `command` the one at byte 32
(`AliasRecord`). A name of 32 or more characters runs on into `command`, and its end is overwritten by what
is stored there next; only what leaves the record is an overrun. The other variables of the shell are
those of `System`, of which the table of slots is not used.

An argument that is read is a pointer in `args`, and `NULL` is not read (`pointed`).

## What is proved

* `addRecord_ok` — `add_alias` with any name and any command with a word in it keeps the records whole: each
  holds a command, with a word in it.
* `findRecord_ok` — `find_alias` then gives no command or one with a word in it.
-/

namespace Basedos.Kernel

open Basedos.Lib Basedos.CLib Basedos.Fs

/-! ### The table -/

/-- `sizeof(alias_t)`. -/
def RECORD_SIZE : ℕ := 32 + MAX_INPUT

/-- `alias_t`. -/
abbrev AliasRecord := List UInt8

/-- A record never written. -/
def AliasRecord.zero : AliasRecord := List.replicate RECORD_SIZE 0

/-- `alias`. -/
def AliasRecord.alias_ (record : AliasRecord) : Option (List UInt8) := stringIn record

/-- `command`. -/
def AliasRecord.command (record : AliasRecord) : Option (List UInt8) := stringIn (record.drop 32)

/-- The loop of `add_alias`, from a record on, and the record after the last. -/
def addRecordLoop (aliasName command : List UInt8) : List AliasRecord → Option (AliasReply × List AliasRecord)
  | [] => do
    let record ← strcpyAt AliasRecord.zero 0 aliasName
    let record ← strcpyAt record 32 command
    some (.added, [record])
  | record :: records => do
    let name ← AliasRecord.alias_ record
    if strcmp name aliasName = 0 then
      let record ← strcpyAt record 32 command
      some (.updated, record :: records)
    else
      let r ← addRecordLoop aliasName command records
      some (r.1, record :: r.2)

/-- `add_alias`. -/
def addRecord (records : List AliasRecord) (aliasName command : List UInt8) :
    Option (AliasReply × List AliasRecord) :=
  if records.length ≥ MAX_ALIASES then some (.full, records) else addRecordLoop aliasName command records

/-- The loop of `resolve_alias`: the command of the first alias of that name, if there is one. -/
def findRecord (cmd : List UInt8) : List AliasRecord → Option (Option (List UInt8))
  | [] => some none
  | record :: records => do
    let name ← AliasRecord.alias_ record
    if strcmp name cmd = 0 then (AliasRecord.command record).map some else findRecord cmd records

/-- One round of the loop of `list_aliases`. -/
def recordEntry (record : AliasRecord) : Option Act := do
  let name ← AliasRecord.alias_ record
  let command ← AliasRecord.command record
  some (.printk "  %s -> %s\n" [.str name, .str command])

/-! ### The shell -/

/-- The static variables of `shell.c`, with the first `alias_count` records of the table. -/
structure RecordShell (D : Type) where
  /-- The other variables. -/
  vars : System D
  /-- `aliases`. -/
  records : List AliasRecord

/-- A string that is read through a pointer of `args`. -/
def pointed (t : Tokenizer) : Option ℕ → Except Stop CStr
  | some p => inside (CStr.read (t.buffer.drop p))
  | none => .error .nullAccess

variable {D : Type}

namespace RecordShell

/-- `add_alias`. -/
def addAlias (s : RecordShell D) (aliasName command : List UInt8) : Option (RecordShell D) := do
  let (reply, records) ← addRecord s.records aliasName command
  some ⟨s.vars.printColor reply.text (if reply = AliasReply.full then 12 else 10), records⟩

/-- `list_aliases`. -/
def listAliases (s : RecordShell D) : Option (RecordShell D) :=
  if s.records = [] then some { s with vars := s.vars.printInfo "No aliases defined\n" }
  else do
    let entries ← s.records.mapM recordEntry
    some { s with vars := (s.vars.printInfo "Defined aliases:\n").act entries }

/-- `alias`. -/
def alias_ (s : RecordShell D) (args : List CStr) : Option (RecordShell D) :=
  match args with
  | [] => s.listAliases
  | [name, command] => s.addAlias name.bytes command.bytes
  | _ => some { s with vars := s.vars.printk "Usage: alias [name] [command]\n" [] }

/-- The words of the command of an alias, or else those of the line. -/
def reparse (resolved : Option (List UInt8)) (argc : ℕ) (args : ArgArray) (parse : Tokenizer) :
    Except Stop (ℕ × ArgArray × Tokenizer) :=
  match resolved with
  | none => .ok (argc, args, parse)
  | some command => inside (parseArgs parse command args)

/-- `execute_command` before its branches: `argc` and `args`, or nothing for a blank line. -/
def dispatch (s : RecordShell D) (input : List UInt8) (args : ArgArray) :
    Except Stop (Option (ℕ × ArgArray) × RecordShell D) :=
  if input.length = 0 then .ok (none, s)
  else do
    let vars ← inside (s.vars.addToHistory input)
    let (argc, args, parse) ← inside (parseArgs vars.parse input args)
    if argc = 0 then .ok (none, { s with vars := { vars with parse } })
    else do
      let cmd ← pointed parse (args.cells.headD none)
      let resolved ← inside (findRecord cmd.bytes s.records)
      let (argc, args, parse) ← reparse resolved argc args parse
      .ok (some (argc, args), { s with vars := { vars with parse, lastExitCode := 0 } })

/-- The strings `args[0]`, and `args[1]` and on. -/
def strings (s : RecordShell D) (argc : ℕ) (args : ArgArray) : Except Stop (CStr × List CStr) := do
  let cmd ← pointed s.vars.parse (args.cells.headD none)
  let rest ← ((args.cells.take argc).drop 1).mapM (pointed s.vars.parse)
  .ok (cmd, rest)

/-- The command of a line, and its arguments. -/
def commandWords (s : RecordShell D) (line : List UInt8) (pointers : ArgArray) :
    Except Stop (Option (CStr × List CStr) × RecordShell D) := do
  let (words, s) ← s.dispatch line pointers
  match words with
  | none => .ok (none, s)
  | some (argc, args) => do
    let words ← s.strings argc args
    .ok (some words, s)

variable (K : DirDrivers D)

/-- The branches. -/
def runCommand (s : RecordShell D) (cmd : CStr) (args : List CStr) : Except Stop (Flow × RecordShell D) :=
  match commandOf cmd.bytes with
  | .alias_ => (inside (s.alias_ args)).map fun s => (.next, s)
  | _ => (s.vars.runCommand K cmd args).map fun r => (r.1, { s with vars := r.2 })

theorem runCommand_alias {s : RecordShell D} {cmd : CStr} (h : commandOf cmd.bytes = .alias_) (args : List CStr) :
    s.runCommand K cmd args = (inside (s.alias_ args)).map fun s => (.next, s) := by
  simp only [runCommand, h]

theorem runCommand_of_ne {s : RecordShell D} {cmd : CStr} (h : commandOf cmd.bytes ≠ .alias_) (args : List CStr) :
    s.runCommand K cmd args = (s.vars.runCommand K cmd args).map fun r => (r.1, { s with vars := r.2 }) := by
  unfold runCommand
  split
  · next hc => exact absurd hc h
  · rfl

/-- `execute_command`. `args` is what lies on the stack where it has its array. -/
def executeCommand (s : RecordShell D) (input : List UInt8) (args : ArgArray) : Except Stop (RecordShell D) := do
  let (words, s) ← s.dispatch input args
  match words with
  | none => .ok s
  | some (argc, args) =>
    let (cmd, args) ← s.strings argc args
    match ← s.runCommand K cmd args with
    | (.returned, s) => .ok s
    | (.next, s) => .ok { s with vars := s.vars.debugNote cmd }

/-- The end of `execute_command`, after a branch. -/
def finished (cmd : CStr) : Flow × RecordShell D → RecordShell D
  | (.returned, s) => s
  | (.next, s) => { s with vars := s.vars.debugNote cmd }

/-- A line is its words, the branch they name, and the end. -/
theorem executeCommand_eq (s : RecordShell D) (input : List UInt8) (args : ArgArray) :
    s.executeCommand K input args = s.commandWords input args >>= fun x =>
      match x.1 with
      | none => .ok x.2
      | some words => (x.2.runCommand K words.1 words.2).map (finished words.1) := by
  unfold executeCommand commandWords
  cases s.dispatch input args with
  | error e => rfl
  | ok x =>
    obtain ⟨words, s⟩ := x
    cases words with
    | none => rfl
    | some words =>
      simp only [bind, Except.bind]
      cases s.strings words.1 words.2 with
      | error e => rfl
      | ok words =>
        cases hrun : s.runCommand K words.1 words.2 with
        | error e =>
          simp only [hrun]
          rfl
        | ok x =>
          obtain ⟨flow, s'⟩ := x
          simp only [hrun]
          cases flow <;> rfl

/-- The loop of `start_shell` after a line has been entered: the line is executed; is the loop left? -/
def shellLine (s : RecordShell D) (input : List UInt8) (args : ArgArray) : Except Stop (Bool × RecordShell D) := do
  let s ← s.executeCommand K input args
  .ok (strcmp input exitWord = 0, s)

/-- `start_shell` before its loop. -/
def start (s : System D) : Option (RecordShell D) :=
  defaultAliases.foldlM (fun s p => s.addAlias p.1 p.2) ⟨s.greet, []⟩

end RecordShell

/-! ### The records are whole -/

/-- The record holds a command, with a word in it. -/
structure RecordOk (record : AliasRecord) : Prop where
  size : record.length = RECORD_SIZE
  command : ∃ c, Holds (record.drop 32) c ∧ wordsOf c ≠ []

variable {record : AliasRecord} {records : List AliasRecord} {aliasName command cmd : List UInt8}

/-- The name is a string that ends in the record. -/
theorem RecordOk.alias_ (h : RecordOk record) : ∃ name, AliasRecord.alias_ record = some name := by
  obtain ⟨c, ⟨-, rest, hdrop⟩, -⟩ := h.command
  have h0 : 0 ∈ record := by
    refine List.mem_of_mem_drop (i := 32) ?_
    rw [hdrop]
    simp
  exact ⟨_, if_pos h0⟩

/-- **What is stored**: the command after a name of any length. -/
theorem addRecordLoop_ok (h : ∀ record ∈ records, RecordOk record) (hn : 0 ∉ aliasName)
    (hlen : aliasName.length < RECORD_SIZE) (hc : 0 ∉ command) (hclen : command.length < MAX_INPUT)
    (hne : wordsOf command ≠ []) :
    ∃ r, addRecordLoop aliasName command records = some r ∧ ∀ record ∈ r.2, RecordOk record := by
  have hstore : ∀ b : AliasRecord, b.length = RECORD_SIZE → ∃ b', strcpyAt b 32 command = some b' ∧ RecordOk b' := by
    intro b hb
    obtain ⟨b', hcopy, hsize, hholds, -⟩ := strcpyAt_inside (b := b) (i := 32) hc (by rw [hb, RECORD_SIZE]; omega)
    exact ⟨b', hcopy, hsize.trans hb, command, hholds, hne⟩
  induction records with
  | nil =>
    have hzero : AliasRecord.zero.length = RECORD_SIZE := List.length_replicate
    obtain ⟨b, hname, hsize, -⟩ := strcpyAt_inside (b := AliasRecord.zero) (i := 0) hn (by omega)
    obtain ⟨b', hcopy, hok⟩ := hstore b (hsize.trans hzero)
    refine ⟨(.added, [b']), ?_, by simpa using hok⟩
    rw [Nat.cast_zero] at hname
    simp only [addRecordLoop, hname, hcopy, Option.bind_eq_bind, Option.bind_some]
  | cons record records ih =>
    obtain ⟨hrecord, hrest⟩ := List.forall_mem_cons.mp h
    obtain ⟨name, hname⟩ := hrecord.alias_
    simp only [addRecordLoop, hname, Option.bind_eq_bind, Option.bind_some]
    split
    · obtain ⟨b', hcopy, hok⟩ := hstore record hrecord.size
      exact ⟨_, by rw [hcopy]; rfl, List.forall_mem_cons.mpr ⟨hok, hrest⟩⟩
    · obtain ⟨r, hloop, hr⟩ := ih hrest
      exact ⟨_, by rw [hloop]; rfl, List.forall_mem_cons.mpr ⟨hrecord, hr⟩⟩

theorem addRecord_ok (h : ∀ record ∈ records, RecordOk record) (hn : 0 ∉ aliasName)
    (hlen : aliasName.length < RECORD_SIZE) (hc : 0 ∉ command) (hclen : command.length < MAX_INPUT)
    (hne : wordsOf command ≠ []) :
    ∃ r, addRecord records aliasName command = some r ∧ ∀ record ∈ r.2, RecordOk record := by
  unfold addRecord
  split
  · exact ⟨_, rfl, h⟩
  · exact addRecordLoop_ok h hn hlen hc hclen hne

/-- **What an alias resolves to**: a command with a word in it, which fits the array of the parser. -/
theorem findRecord_ok (h : ∀ record ∈ records, RecordOk record) (cmd : List UInt8) :
    findRecord cmd records = some none ∨
    ∃ c, findRecord cmd records = some (some c) ∧ 0 ∉ c ∧ c.length ≤ 127 ∧ wordsOf c ≠ [] := by
  induction records with
  | nil => exact .inl rfl
  | cons record records ih =>
    obtain ⟨hrecord, hrest⟩ := List.forall_mem_cons.mp h
    obtain ⟨name, hname⟩ := hrecord.alias_
    simp only [findRecord, hname, Option.bind_eq_bind, Option.bind_some]
    split
    · obtain ⟨c, hholds, hne⟩ := hrecord.command
      have hlt := hholds.length_lt
      rw [List.length_drop, hrecord.size] at hlt
      refine .inr ⟨c, by rw [AliasRecord.command, hholds.stringIn]; rfl, hholds.noNul, ?_, hne⟩
      have hmax : RECORD_SIZE = 160 := rfl
      omega
    · exact ih hrest

end Basedos.Kernel
