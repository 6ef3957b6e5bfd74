import Basedos.Kernel.Returning

/-!
# Leaving the shell

Whether the shell is left is decided twice: `execute_command` says goodbye when the first word of the
line, or of the text it is an alias for, is `exit`; `start_shell` leaves its loop when the line itself,
every character of it, is `exit`.

## What is proved

* `tookExit_iff`, `leavesLoop_iff` — each decision on the characters of the line and the bytes of the table.
* `exit_oneMeaning_iff` — **exactly when** they agree.
-/

namespace Basedos.Kernel

open Basedos.Lib Basedos.CLib Basedos.Fs

variable {D : Type} (K : DirDrivers D) {s : RecordShell D}

/-! ### The two decisions -/

/-- `execute_command` takes the branch of `exit`. -/
def TookExit (s : RecordShell D) (call : LineCall) : Prop :=
  ∃ cmd args s', s.commandWords call.line.bytes call.args = .ok (some (cmd, args), s') ∧ commandOf cmd.bytes = .exit

/-- `start_shell` leaves its loop after the line. -/
def LeavesLoop (s : RecordShell D) (call : LineCall) : Prop :=
  ∃ s', s.shellLine K call.line.bytes call.args = .ok (true, s')

/-- The two decisions are the same. -/
def OneMeaning (s : RecordShell D) (call : LineCall) : Prop := LeavesLoop K s call ↔ TookExit s call

/-- The line does not say `exit` to one of the two only. If it is `exit` and that is an alias, the alias is
for a text that begins with `exit`; if it is not, its first word is neither `exit`, with anything before or
after it, nor an alias for a text that begins so. -/
def SaysExitToBoth (records : List AliasRecord) (line : List UInt8) : Prop :=
  if line = exitWord then
    ∀ command, findRecord exitWord records = some (some command) → (wordsOf command).head? = some exitWord
  else ∀ word, (wordsOf line).head? = some word →
    match findRecord word records with
    | some (some command) => (wordsOf command).head? ≠ some exitWord
    | _ => word ≠ exitWord

/-- `exit` is an alias for a command that never returns: `shutdown` or `reboot`, a division that the processor cannot
do, or the list of a directory without an end. -/
def ExitNeverReturns (s : RecordShell D) : Prop :=
  ∃ command cmd args, findRecord exitWord s.records = some (some command) ∧
    (wordsOf command).take 15 = cmd :: args ∧ NeverReturns K s.vars cmd args

variable {K}

theorem commandOf_exit {word : List UInt8} (h0 : 0 ∉ word) : commandOf word = .exit ↔ word = exitWord :=
  commandOf_eq_iff (by decide) h0

/-- **The decision of `execute_command`.** -/
theorem tookExit_iff (h : RecordInv s) (call : LineCall) :
    TookExit s call ↔ (recordWords s.records call.line.bytes).head? = some exitWord := by
  unfold TookExit
  rcases RecordShell.commandWords_cases h call.line.noNul call.fits call.args with
    ⟨-, hnil, s', hwords, -⟩ | ⟨cmd, args, s', hwords, -, hcons, -⟩
  · rw [hwords, hnil]
    refine iff_of_false ?_ nofun
    rintro ⟨cmd, args, s'', ⟨⟩, -⟩
  · rw [hwords, hcons, List.head?_cons, Option.some.injEq, ← commandOf_exit cmd.noNul]
    constructor
    · rintro ⟨cmd', args', s'', ⟨⟩, hexit⟩
      exact hexit
    · exact fun hexit => ⟨cmd, args, s', rfl, hexit⟩

/-- **The decision of `start_shell`**, which is made when the command has come back. -/
theorem leavesLoop_iff (K : DirDrivers D) (s : RecordShell D) (call : LineCall) :
    LeavesLoop K s call ↔
      call.line.bytes = exitWord ∧ ComesBack (s.executeCommand K call.line.bytes call.args) := by
  have hexit : strcmp call.line.bytes exitWord = 0 ↔ call.line.bytes = exitWord :=
    strcmp_eq_zero_iff call.line.noNul (by decide)
  unfold LeavesLoop RecordShell.shellLine
  rw [← hexit]
  cases s.executeCommand K call.line.bytes call.args with
  | error e =>
    refine iff_of_false ?_ fun hback => not_comesBack_error e hback.2
    rintro ⟨s', ⟨⟩⟩
  | ok s₁ =>
    rw [and_iff_left (comesBack_ok s₁)]
    constructor
    · rintro ⟨s', heq⟩
      exact of_decide_eq_true (Prod.mk.inj (Except.ok.inj heq)).1
    · intro heq
      refine ⟨s₁, ?_⟩
      show Except.ok (decide _, s₁) = _
      rw [decide_eq_true heq]

/-- The branch of `exit` always comes back. -/
theorem executeCommand_of_tookExit {call : LineCall} (h : TookExit s call) :
    ComesBack (s.executeCommand K call.line.bytes call.args) := by
  obtain ⟨cmd, args, s', hwords, hexit⟩ := h
  have hne : commandOf cmd.bytes ≠ .alias_ := by
    rw [hexit]
    exact nofun
  rw [RecordShell.executeCommand_eq, hwords]
  refine comesBack_map.mpr ?_
  dsimp only
  rw [RecordShell.runCommand_of_ne K hne, comesBack_map, System.runCommand, hexit]
  exact comesBack_ok _

/-! ### On the characters -/

/-- The first word that a line stands for. -/
theorem head_recordWords (records : List AliasRecord) (line : List UInt8) :
    (recordWords records line).head? = (wordsOf line).head?.bind fun word =>
      match findRecord word records with
      | some (some command) => (wordsOf command).head?
      | _ => some word := by
  have htake : ∀ ws : List (List UInt8), (ws.take 15).head? = ws.head? := by
    intro ws
    cases ws <;> rfl
  unfold recordWords
  cases wordsOf line with
  | nil => rfl
  | cons word ws =>
    simp only [List.take_succ_cons, List.head?_cons, Option.bind_some]
    rcases findRecord word records with _ | _ | command
    · rfl
    · rfl
    · exact htake _

/-- The two decisions on the characters of the line, whether or not the command comes back. -/
theorem saysExitToBoth_iff (records : List AliasRecord) (line : List UInt8) :
    SaysExitToBoth records line ↔ (line = exitWord ↔ (recordWords records line).head? = some exitWord) := by
  unfold SaysExitToBoth
  rw [head_recordWords]
  split
  · next hline =>
    have hwords : wordsOf line = [exitWord] := by
      rw [hline]
      exact words_of_word (by decide) (by simp [exitWord, ascii, blanks])
    rw [hwords, iff_true_left hline, List.head?_cons, Option.bind_some]
    rcases findRecord exitWord records with _ | _ | command
    · simp
    · simp
    · simp
  · next hline =>
    rw [iff_false_left hline]
    cases (wordsOf line).head? with
    | none => simp
    | some word =>
      simp only [Option.some.injEq, forall_eq', Option.bind_some]
      rcases findRecord word records with _ | _ | command
      · simp
      · simp
      · simp

/-- The words of the line `exit`. -/
theorem recordWords_exit (records : List AliasRecord) :
    recordWords records exitWord = match findRecord exitWord records with
      | some (some command) => (wordsOf command).take 15
      | _ => [exitWord] := by
  have hwords : wordsOf exitWord = [exitWord] := words_of_word (by decide) (by simp [exitWord, ascii, blanks])
  rw [recordWords, hwords]
  rfl

/-- When the command of the line `exit` does not come back. -/
theorem exit_comesBack (h : RecordInv s) {call : LineCall} (hline : call.line.bytes = exitWord) :
    ComesBack (s.executeCommand K call.line.bytes call.args) ↔ ¬ ExitNeverReturns K s := by
  have hplain : ¬ NeverReturns K s.vars exitWord [] := not_neverReturns (by decide +kernel)
  rw [RecordShell.executeCommand_comesBack h call.line.noNul call.fits, hline, recordWords_exit]
  unfold ExitNeverReturns
  rcases findRecord exitWord s.records with _ | _ | command
  · refine iff_of_true ?_ (by rintro ⟨command, cmd, args, ⟨⟩, -⟩)
    rintro cmd args ⟨⟩
    exact hplain
  · refine iff_of_true ?_ (by rintro ⟨command, cmd, args, ⟨⟩, -⟩)
    rintro cmd args ⟨⟩
    exact hplain
  · constructor
    · rintro hreturns ⟨command', cmd, args, ⟨⟩, hwords, hnever⟩
      exact hreturns cmd args hwords hnever
    · exact fun hno cmd args hwords hnever => hno ⟨command, cmd, args, rfl, hwords, hnever⟩

/-- **When the exit decision has one meaning**: when the line says `exit` to both, or to neither; or when it is `exit`
and that is an alias for a command that never returns. -/
theorem exit_oneMeaning_iff (K : DirDrivers D) (h : RecordInv s) (call : LineCall) :
    OneMeaning K s call ↔
      SaysExitToBoth s.records call.line.bytes ∨ call.line.bytes = exitWord ∧ ExitNeverReturns K s := by
  rw [OneMeaning, leavesLoop_iff, saysExitToBoth_iff, ← tookExit_iff h]
  by_cases hline : call.line.bytes = exitWord
  · rw [and_iff_right hline, and_iff_right hline, iff_true_left hline, exit_comesBack h hline]
    constructor
    · intro hone
      by_cases hnever : ExitNeverReturns K s
      · exact .inr hnever
      · exact .inl (hone.mp hnever)
    · rintro (htook | hnever)
      · exact iff_of_true ((exit_comesBack h hline).mp (executeCommand_of_tookExit htook)) htook
      · refine iff_of_false (not_not_intro hnever) fun htook => ?_
        exact (exit_comesBack h hline).mp (executeCommand_of_tookExit htook) hnever
  · rw [or_iff_left fun hand => hline hand.1]
    exact iff_congr (iff_of_false (fun hand => hline hand.1) hline) Iff.rfl

/-- `exit`. -/
def exitLine : Line := ⟨exitWord, by decide, by decide⟩

theorem exit_oneMeaning_small : OneMeaning memfsDirDrivers smallRecords ⟨exitLine, noPointers⟩ := by
  refine (exit_oneMeaning_iff memfsDirDrivers smallRecords_inv ⟨exitLine, noPointers⟩).mpr (.inl ?_)
  rw [SaysExitToBoth, if_pos (show exitLine.bytes = exitWord from rfl)]
  exact nofun

/-- `exit` and a blank, entered first of all: the shell says goodbye and goes on. -/
theorem not_forall_oneMeaning : ¬ ∀ (s : RecordShell Memfs), RecordInv s →
    ∀ call : LineCall, OneMeaning memfsDirDrivers s call := by
  intro h
  let call : LineCall := ⟨⟨exitWord ++ [32], by decide, by decide⟩, noPointers⟩
  obtain ⟨s, hstart, hinv⟩ := recordStart_inv smallVfs 0x1000000 0xF00000 0 fun _ => 0
  have hwords : (recordStart smallVfs 0x1000000 0xF00000 0 fun _ => 0).map
      (fun s => (recordWords s.records call.line.bytes).head?) = .ok (some exitWord) := by decide +kernel
  rw [hstart] at hwords
  have htook : TookExit s call := (tookExit_iff hinv call).mpr (Except.ok.inj hwords)
  have hleft := (leavesLoop_iff memfsDirDrivers s call).mp ((h s hinv call).mpr htook)
  exact absurd hleft.1 (by decide)

end Basedos.Kernel
