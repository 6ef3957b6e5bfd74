import Basedos.Kernel.AliasRecords
import Basedos.Kernel.ShellBuffers

/-!
# The command word

`execute_command` tests that a line has a word before it looks for an alias, and splits the alias's command
afterwards without another test. What keeps the word it then compares with the names of the commands from
being `NULL` is that every command stored in the table of aliases has a word in it (`RecordOk`), whatever
the names are.

## What is proved

* `RecordInv` is kept by every line that comes back (`executeCommand_inv`).
* `dispatch_commandWord` — **the chain of comparisons is reached with a word**: after any lines, for any
  line.
-/

namespace Basedos.Kernel

open Basedos.Lib Basedos.CLib Basedos.Fs

variable {D : Type} {K : DirDrivers D} {s s' : RecordShell D} {line : List UInt8}

/-- **There is a command word**: `args[0]` is a word, the pointers up to `argc` are none of them `NULL`, and the
one after them is. -/
structure HasCommandWord (b : List UInt8) (argc : ℕ) (args : ArgArray) : Prop where
  pos : 1 ≤ argc
  cmd : ∃ p w, args.cells[0]? = some (some p) ∧ Holds (b.drop p) w ∧ w ≠ [] ∧ ∀ c ∈ w, c ∉ blanks
  arg : ∀ i < argc, ∃ p, args.cells[i]? = some (some p)
  null : args.cells[argc]? = some none

theorem Tokenised.hasCommandWord {text b : List UInt8} {argc : ℕ} {args : ArgArray} (h : Tokenised text b argc args)
    (hne : wordsOf text ≠ []) : HasCommandWord b argc args := by
  have hpos : 1 ≤ argc := by
    have hlen := List.length_pos_iff.mpr hne
    rw [h.count]
    omega
  obtain ⟨p, w, hp, hw, hwne, hholds, -⟩ := h.word 0 hpos
  refine ⟨hpos, ⟨p, w, hp, hholds, hwne, fun c hc => ?_⟩, fun i hi => ?_, h.null⟩
  · have hsep := (mem_words (List.mem_of_getElem? hw)).2.1 c hc
    simpa using hsep
  · obtain ⟨p, -, hp, -⟩ := h.word i hi
    exact ⟨p, hp⟩

/-- What is kept: the arrays of the shell, and the records of its table. -/
structure RecordInv (s : RecordShell D) : Prop where
  arrays : ShellArrays s.vars []
  records : ∀ record ∈ s.records, RecordOk record

/-- What `parse_command` changes is in its own array. -/
theorem ShellArrays.parsed {vars : System D} (h : ShellArrays vars []) {parse : Tokenizer}
    (hsize : parse.buffer.length = 128) (hnul : 0 ∈ parse.buffer) (code : Int32) :
    ShellArrays { vars with parse, lastExitCode := code } [] :=
  ⟨h.history, h.nonneg, h.le, h.aliases, ⟨hsize, hnul⟩, h.currentDirectory⟩

/-- `s'` is `s` when the line has been noted: stored in the history and cut into words. -/
structure RecordShell.Noted (s s' : RecordShell D) (line : List UInt8) (code : Int32) : Prop where
  same : s' = ⟨{ s.vars with
    history := s'.vars.history
    historyPos := s'.vars.historyPos
    parse := s'.vars.parse
    lastExitCode := code }, s.records⟩
  history : s.vars.addToHistory line =
    some { s.vars with history := s'.vars.history, historyPos := s'.vars.historyPos }
  inv : RecordInv s'

section Noted

variable {code : Int32} (h : s.Noted s' line code)

include h

theorem RecordShell.Noted.vfs : s'.vars.vfs = s.vars.vfs := by rw [h.same]

theorem RecordShell.Noted.totalMemory : s'.vars.totalMemory = s.vars.totalMemory := by rw [h.same]

theorem RecordShell.Noted.acts : s'.vars.acts = s.vars.acts := by rw [h.same]

theorem RecordShell.Noted.records : s'.records = s.records := by rw [h.same]

end Noted

/-- The first words of a line, with an alias replaced. -/
def recordWords (records : List AliasRecord) (line : List UInt8) : List (List UInt8) :=
  match (wordsOf line).take 15 with
  | [] => []
  | cmd :: args =>
    match findRecord cmd records with
    | some (some command) => (wordsOf command).take 15
    | _ => cmd :: args

/-- **Before the branches**: a blank line is only noted, and otherwise there are the words of some text, which is the
line or a command of the table. -/
theorem RecordShell.dispatch_cases (h : RecordInv s) (h0 : 0 ∉ line) (hlen : line.length ≤ 127) (args : ArgArray) :
    (wordsOf line = [] ∧ ∃ s', s.dispatch line args = .ok (none, s') ∧ s.Noted s' line s.vars.lastExitCode) ∨
    ∃ text argc args' s', s.dispatch line args = .ok (some (argc, args'), s') ∧ s.Noted s' line 0 ∧
      wordsOf line ≠ [] ∧ text.length ≤ 127 ∧ wordsOf text ≠ [] ∧
      (wordsOf text).take 15 = recordWords s.records line ∧ Tokenised text s'.vars.parse.buffer argc args' := by
  obtain ⟨history, historyPos, hadd, harrays⟩ := addToHistory_arrays h.arrays h0 (Nat.lt_succ_of_le hlen)
  unfold RecordShell.dispatch
  by_cases hempty : line.length = 0
  · have hnil : line = [] := List.length_eq_zero_iff.mp hempty
    rw [hnil]
    exact .inl ⟨rfl, s, rfl, rfl, rfl, h⟩
  · obtain ⟨argc, args₁, t₁, hparse, hsize, hnul, htok⟩ := parseArgs_holds h0
      (by rw [h.arrays.parse.size]; exact Nat.lt_succ_of_le hlen) args
    have hnoted : ∀ {parse : Tokenizer}, parse.buffer.length = 128 → 0 ∈ parse.buffer → ∀ code,
        s.Noted ⟨{ s.vars with history, historyPos, parse, lastExitCode := code }, s.records⟩ line code :=
      fun hsize hnul code => ⟨rfl, hadd, harrays.parsed hsize hnul code, h.records⟩
    have hsize₁ : t₁.buffer.length = 128 := hsize.trans h.arrays.parse.size
    rw [if_neg hempty, hadd]
    simp only [inside, bind, Except.bind, hparse]
    by_cases hargc : argc = 0
    · have hblank : wordsOf line = [] := by
        have hcount := htok.count
        rw [hargc] at hcount
        exact List.length_eq_zero_iff.mp (by omega)
      rw [if_pos hargc]
      exact .inl ⟨hblank, _, rfl, hnoted hsize₁ hnul _⟩
    · have hne : wordsOf line ≠ [] := by
        intro hblank
        have hcount := htok.count
        rw [hblank, List.length_nil] at hcount
        omega
      obtain ⟨p, w, hp, hw, -, hholds, -⟩ := htok.word 0 (Nat.pos_of_ne_zero hargc)
      obtain ⟨ws, hwords⟩ : ∃ ws, (wordsOf line).take 15 = w :: ws := by
        cases hline : wordsOf line with
        | nil => exact absurd hline hne
        | cons w' ws =>
          rw [hline] at hw
          cases hw
          exact ⟨ws.take 14, List.take_succ_cons⟩
      have hhead : args₁.cells.headD none = some p := by
        rw [List.headD_eq_head?_getD, List.head?_eq_getElem?, hp]
        rfl
      rw [if_neg hargc, hhead]
      simp only [pointed, read_of_holds hholds, inside]
      rcases findRecord_ok h.records w with hnone | ⟨c, hc, hc0, hclen, hcne⟩
      · simp only [hnone, RecordShell.reparse]
        refine .inr ⟨line, argc, args₁, _, rfl, hnoted hsize₁ hnul 0, hne, hlen, hne, ?_, htok⟩
        simp only [recordWords, hwords, hnone]
      · obtain ⟨argc', args₂, t₂, hparse₂, hsize₂, hnul₂, htok₂⟩ := parseArgs_holds hc0
          (by rw [hsize₁]; exact Nat.lt_succ_of_le hclen) args₁
        simp only [hc, RecordShell.reparse, hparse₂, inside]
        refine .inr ⟨c, argc', args₂, _, rfl, hnoted (hsize₂.trans hsize₁) hnul₂ 0, hne, hclen, hcne, ?_, htok₂⟩
        simp only [recordWords, hwords, hc]

/-! ### The branches -/

/-- A pointer is to a string. -/
def PointsTo (t : Tokenizer) (cell : Option ℕ) (w : List UInt8) : Prop :=
  ∃ v : CStr, pointed t cell = .ok v ∧ v.bytes = w

/-- Pointers that are all to strings. -/
theorem mapM_pointed {t : Tokenizer} {cells : List (Option ℕ)} {words : List (List UInt8)}
    (h : List.Forall₂ (PointsTo t) cells words) :
    ∃ ws, cells.mapM (pointed t) = .ok ws ∧ ws.map CStr.bytes = words := by
  induction h with
  | nil => exact ⟨[], rfl, rfl⟩
  | cons hcell _ ih =>
    obtain ⟨v, hv, rfl⟩ := hcell
    obtain ⟨ws, hws, rfl⟩ := ih
    refine ⟨v :: ws, ?_, rfl⟩
    rw [List.mapM_cons, hv, hws]
    rfl

/-- The pointers up to `argc` are to the words. -/
theorem Tokenised.pointsTo {t : Tokenizer} {text : List UInt8} {argc : ℕ} {args : ArgArray}
    (h : Tokenised text t.buffer argc args) :
    List.Forall₂ (PointsTo t) (args.cells.take argc) ((wordsOf text).take 15) := by
  have hcount := h.count
  have hargs : (args.cells.take argc).length = argc := by
    rw [List.length_take, args.size, MAX_ARGS]
    omega
  have hwords : ((wordsOf text).take 15).length = argc := by rw [hcount, List.length_take]
  rw [List.forall₂_iff_get]
  refine ⟨hargs.trans hwords.symm, fun i hi hi' => ?_⟩
  obtain ⟨p, w, hp, hw, -, hholds, -⟩ := h.word i (hargs ▸ hi)
  refine ⟨⟨w, hholds.noNul⟩, ?_, ?_⟩
  · have hcell : (args.cells.take argc).get ⟨i, hi⟩ = some p := by
      rw [List.get_eq_getElem, List.getElem_take]
      exact (List.getElem?_eq_some_iff.mp hp).2
    rw [hcell, pointed, read_of_holds hholds]
    rfl
  · rw [List.get_eq_getElem, List.getElem_take]
    exact (List.getElem?_eq_some_iff.mp hw).2.symm

/-- The strings read through the pointers are the words of the text. -/
theorem RecordShell.strings_eq {text : List UInt8} {argc : ℕ} {args : ArgArray}
    (h : Tokenised text s.vars.parse.buffer argc args) (hne : wordsOf text ≠ []) :
    ∃ cmd rest, s.strings argc args = .ok (cmd, rest) ∧ (cmd :: rest).map CStr.bytes = (wordsOf text).take 15 := by
  have hpointers := h.pointsTo
  obtain ⟨w, ws, hwords⟩ : ∃ w ws, (wordsOf text).take 15 = w :: ws :=
    List.exists_cons_of_ne_nil fun hnil => hne ((List.take_eq_nil_iff.mp hnil).resolve_left (by decide))
  rw [hwords] at hpointers ⊢
  cases hcells : args.cells.take argc with
  | nil =>
    rw [hcells] at hpointers
    cases hpointers
  | cons cell cells =>
    rw [hcells, List.forall₂_cons] at hpointers
    obtain ⟨⟨cmd, hcmd, rfl⟩, hrest⟩ := hpointers
    obtain ⟨rest, hmap, rfl⟩ := mapM_pointed hrest
    have hhead : args.cells.headD none = cell := by
      cases hall : args.cells with
      | nil => simp [hall] at hcells
      | cons x xs =>
        cases argc with
        | zero => simp at hcells
        | succ n =>
          rw [hall, List.take_succ_cons] at hcells
          exact (List.cons.inj hcells).1
    refine ⟨cmd, rest, ?_, rfl⟩
    rw [RecordShell.strings, hhead, hcmd, hcells, List.drop_one, List.tail_cons, hmap]
    rfl

/-- **The command of a line**, and its arguments: there are none just when the line is blank. -/
theorem RecordShell.commandWords_cases (h : RecordInv s) (h0 : 0 ∉ line) (hlen : line.length ≤ 127)
    (args : ArgArray) :
    (wordsOf line = [] ∧ recordWords s.records line = [] ∧
      ∃ s', s.commandWords line args = .ok (none, s') ∧ s.Noted s' line s.vars.lastExitCode) ∨
    ∃ cmd rest s', s.commandWords line args = .ok (some (cmd, rest), s') ∧ wordsOf line ≠ [] ∧
      recordWords s.records line = cmd.bytes :: rest.map CStr.bytes ∧ s.Noted s' line 0 ∧ Words128 cmd rest := by
  rcases dispatch_cases h h0 hlen args with
    ⟨hblank, s', hd, hnoted⟩ | ⟨text, argc, args', s', hd, hnoted, hline, htext, hne, hwords, htok⟩ <;>
  simp only [commandWords, hd, bind, Except.bind]
  · refine .inl ⟨hblank, ?_, s', rfl, hnoted⟩
    rw [recordWords, hblank]
    rfl
  · obtain ⟨cmd, rest, hstrings, hmap⟩ := strings_eq htok hne
    simp only [hstrings]
    exact .inr ⟨cmd, rest, s', rfl, hline, hwords.symm.trans hmap.symm, hnoted,
      words128_of_text (Nat.lt_succ_of_le htext) hmap⟩

/-- The table listed. -/
theorem RecordShell.listAliases_inv (h : RecordInv s) : ∃ s', s.listAliases = some s' ∧ RecordInv s' := by
  have hentry : ∀ record ∈ s.records, ∃ act, recordEntry record = some act := by
    intro record hrecord
    obtain ⟨name, hname⟩ := (h.records record hrecord).alias_
    obtain ⟨c, hholds, -⟩ := (h.records record hrecord).command
    have hcommand : AliasRecord.command record = some c := hholds.stringIn
    exact ⟨_, by rw [recordEntry, hname, hcommand]; rfl⟩
  have : Nonempty Act := ⟨.clear⟩
  choose! entry hentry using hentry
  unfold RecordShell.listAliases
  split
  · exact ⟨_, rfl, h.arrays.same ((SameArrays.refl _).act _), h.records⟩
  · refine ⟨_, by rw [mapM_some hentry]; rfl, ?_⟩
    exact ⟨h.arrays.same (((SameArrays.refl _).act _).act _), h.records⟩

/-- `add_alias`, with any name from a line. -/
theorem RecordShell.addAlias_inv (h : RecordInv s) {name command : List UInt8} (hn : 0 ∉ name)
    (hlen : name.length < RECORD_SIZE) (hc : 0 ∉ command) (hclen : command.length < MAX_INPUT)
    (hne : wordsOf command ≠ []) : ∃ s', s.addAlias name command = some s' ∧ RecordInv s' := by
  obtain ⟨⟨reply, records⟩, hadd, hrecords⟩ := addRecord_ok h.records hn hlen hc hclen hne
  exact ⟨_, by rw [RecordShell.addAlias, hadd]; rfl, h.arrays.same ((SameArrays.refl _).act _), hrecords⟩

/-- `alias`, with the words of a line. -/
theorem RecordShell.alias_inv (h : RecordInv s) {cmd : CStr} {args : List CStr} (hw : Words128 cmd args) :
    ∃ s', s.alias_ args = some s' ∧ RecordInv s' := by
  unfold RecordShell.alias_
  split
  · exact listAliases_inv h
  · next name command =>
    have hshort := hw.short (show name ∈ [name, command] by simp)
    have hmax : RECORD_SIZE = 160 := rfl
    refine addAlias_inv h name.noNul (by omega) command.noNul (hw.short (by simp)) ?_
    rw [hw.word command (by simp)]
    exact List.cons_ne_nil _ _
  · exact ⟨_, rfl, h.arrays.same ((SameArrays.refl _).act _), h.records⟩

/-- **The branches keep the invariant.** -/
theorem RecordShell.runCommand_inv (h : RecordInv s) {cmd : CStr} {args : List CStr} (hw : Words128 cmd args) :
    Avoids Stop.overrun (fun r => RecordInv r.2) (s.runCommand K cmd args) := by
  have hlift : ∀ r : Except Stop (Flow × System D), Avoids Stop.overrun (fun r => ShellArrays r.2 []) r →
      Avoids Stop.overrun (fun r => RecordInv r.2)
        (r.map fun r => (r.1, ({ s with vars := r.2 } : RecordShell D))) := by
    intro r hr
    cases r with
    | error e => exact hr
    | ok r => exact ⟨hr, h.records⟩
  by_cases halias : commandOf cmd.bytes = .alias_
  · obtain ⟨s', hs', hinv⟩ := alias_inv h hw
    rw [RecordShell.runCommand_alias K halias, hs']
    exact hinv
  · rw [RecordShell.runCommand_of_ne K halias]
    refine hlift _ ?_
    by_cases hcd : commandOf cmd.bytes = .cd
    · simp only [System.runCommand, hcd]
      exact (cd_arrays h.arrays).bind fun s' hs' => hs'
    · exact (runCommand_leaves h.arrays hw.joined_lt halias hcd).mono fun r hr => h.arrays.same hr

theorem SameArrays.debugNote (vars : System D) (cmd : CStr) : SameArrays vars (vars.debugNote cmd) := by
  unfold System.debugNote
  split
  · exact (SameArrays.refl _).act _
  · exact .refl _

theorem RecordInv.finished {cmd : CStr} {x : Flow × RecordShell D} (h : RecordInv x.2) :
    RecordInv (RecordShell.finished cmd x) := by
  obtain ⟨flow, s'⟩ := x
  cases flow with
  | returned => exact h
  | next => exact ⟨h.arrays.same (.debugNote s'.vars cmd), h.records⟩

/-- **One line** keeps the invariant, if it comes back. -/
theorem RecordShell.executeCommand_inv (h : RecordInv s) (h0 : 0 ∉ line) (hlen : line.length ≤ 127)
    (args : ArgArray) : Avoids Stop.overrun RecordInv (s.executeCommand K line args) := by
  rw [executeCommand_eq]
  rcases commandWords_cases h h0 hlen args with ⟨-, -, s', hwords, hnoted⟩ | ⟨cmd, rest, s', hwords, -, -, hnoted, hw⟩
  · rw [hwords]
    exact hnoted.inv
  · rw [hwords]
    exact (runCommand_inv (K := K) hnoted.inv hw).map fun x hx => hx.finished

/-! ### Any lines -/

/-- A line, and what lies on the stack where `execute_command` has its pointers. -/
structure LineCall where
  line : Line
  args : ArgArray

theorem LineCall.fits (call : LineCall) : call.line.bytes.length ≤ 127 := Nat.le_succ_of_le call.line.short

/-- One line, as long as every line has come back. -/
def recordStep (K : DirDrivers D) (s : Except Stop (RecordShell D)) (call : LineCall) :
    Unit × Except Stop (RecordShell D) :=
  ((), s >>= fun s => s.executeCommand K call.line.bytes call.args)

/-- The state in which `start_shell` begins its loop. -/
def recordStart (vfs : Vfs D) (totalMemory freeMemory uptimeSeconds : UInt32) (stack : Mem) :
    Except Stop (RecordShell D) :=
  inside (RecordShell.start (System.initial vfs totalMemory freeMemory uptimeSeconds stack))

/-- The aliases there are at first fit their records, with a word in each command. -/
theorem defaultAliases_fit : ∀ p ∈ defaultAliases, 0 ∉ p.1 ∧ p.1.length < RECORD_SIZE ∧ 0 ∉ p.2 ∧
    p.2.length < MAX_INPUT ∧ wordsOf p.2 ≠ [] := by decide +kernel

/-- **The start of the shell.** -/
theorem RecordShell.start_inv {vars : System D} (h : ShellArrays vars []) :
    ∃ s, RecordShell.start vars = some s ∧ RecordInv s := by
  have hcolor : ∀ {vars' : System D} (text : String) (color : UInt8), SameArrays vars vars' →
      SameArrays vars (vars'.printColor text color) := fun _ _ hsame => hsame.act _
  have hbanner : SameArrays vars vars.displayBanner := SameArrays.act
    (hcolor _ _ (hcolor _ _ (hcolor _ _ (hcolor _ _ (hcolor _ _ (.refl vars)))))) _
  have hsame : SameArrays vars vars.greet := SameArrays.act (hcolor _ _ (hcolor _ _ hbanner)) _
  have hgreet : RecordInv (⟨vars.greet, []⟩ : RecordShell D) :=
    ⟨h.same hsame, fun _ hrecord => absurd hrecord List.not_mem_nil⟩
  refine foldlM_inv (fun s p hp hs => ?_) hgreet
  obtain ⟨hn, hlen, hc, hclen, hne⟩ := defaultAliases_fit p hp
  exact addAlias_inv hs hn hlen hc hclen hne

/-- **The state of the first line.** -/
theorem recordStart_inv (vfs : Vfs D) (totalMemory freeMemory uptimeSeconds : UInt32) (stack : Mem) :
    ∃ s, recordStart vfs totalMemory freeMemory uptimeSeconds stack = .ok s ∧ RecordInv s := by
  obtain ⟨s, hstart, h⟩ := RecordShell.start_inv
    (initial_inv vfs totalMemory freeMemory uptimeSeconds stack).toShellArrays
  exact ⟨s, by rw [recordStart, hstart]; rfl, h⟩

/-- **The chain of comparisons is reached with a command word**: after every sequence of lines that came back, whatever
aliases they have made, for every line that has a word in it, and for no other. -/
theorem dispatch_commandWord (K : DirDrivers D) (vfs : Vfs D) (totalMemory freeMemory uptimeSeconds : UInt32)
    (stack : Mem) (calls : List LineCall) (s : RecordShell D)
    (hs : (run (recordStep K) (recordStart vfs totalMemory freeMemory uptimeSeconds stack) calls).2 = .ok s)
    (call : LineCall) :
    ∃ r s', s.dispatch call.line.bytes call.args = .ok (r, s') ∧ (r = none ↔ wordsOf call.line.bytes = []) ∧
      ∀ argc args, r = some (argc, args) → HasCommandWord s'.vars.parse.buffer argc args := by
  obtain ⟨s₀, hstart, h₀⟩ := recordStart_inv vfs totalMemory freeMemory uptimeSeconds stack
  rw [hstart] at hs
  have hrun : Avoids Stop.overrun RecordInv (run (recordStep K) (.ok s₀) calls).2 := by
    refine run_inv' (I := Avoids Stop.overrun RecordInv) (fun s call h => ?_) (avoids_ok.mpr h₀) calls
    exact h.bind fun s h => RecordShell.executeCommand_inv h call.line.noNul call.fits _
  rw [hs] at hrun
  rcases RecordShell.dispatch_cases hrun call.line.noNul call.fits call.args with
    ⟨hblank, s', hd, -⟩ | ⟨text, argc, args, s', hd, -, hline, -, hne, -, htok⟩
  · exact ⟨none, s', hd, iff_of_true rfl hblank, fun argc args h => by cases h⟩
  · refine ⟨some (argc, args), s', hd, iff_of_false (Option.some_ne_none _) hline, fun argc' args' h => ?_⟩
    cases h
    exact htok.hasCommandWord hne

/-- The shell on the small tree, with no aliases. -/
def smallRecords : RecordShell Memfs := ⟨smallSystem, []⟩

theorem smallRecords_inv : RecordInv smallRecords :=
  ⟨smallSystem_inv.toShellArrays, fun _ hrecord => absurd hrecord List.not_mem_nil⟩

/-- `args` with nothing in it. -/
def noPointers : ArgArray := ⟨List.replicate 16 none, List.length_replicate⟩

/-- The line that makes an alias of 32 characters, and the name that the table has for it afterwards. -/
def longName : LineCall × LineCall :=
  (⟨longAlias, noPointers⟩, ⟨⟨List.replicate 32 97 ++ [120], by decide, by decide⟩, noPointers⟩)

/-- The shell on the small tree, when that alias has been made. -/
def longNameShell : Except Stop (RecordShell Memfs) :=
  (run (recordStep memfsDirDrivers) (recordStart smallVfs 0x1000000 0xF00000 0 fun _ => 0) [longName.1]).2

/-- A name that has run on into the command, and is found with it. -/
theorem dispatch_commandWord_long :
    ∃ s, longNameShell = .ok s ∧ ∃ argc args s',
      s.dispatch longName.2.line.bytes longName.2.args = .ok (some (argc, args), s') ∧
      HasCommandWord s'.vars.parse.buffer argc args := by
  have hback : longNameShell.map (fun _ => ()) = .ok () := by decide +kernel
  obtain ⟨s, hs, -⟩ := map_eq_ok.mp hback
  obtain ⟨r, s', hd, hnone, hword⟩ := dispatch_commandWord _ _ _ _ _ _ _ s hs longName.2
  cases r with
  | none => exact absurd (hnone.mp rfl) (by decide +kernel)
  | some words => exact ⟨s, hs, words.1, words.2, s', hd, hword _ _ rfl⟩

end Basedos.Kernel
