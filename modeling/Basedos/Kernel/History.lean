import Basedos.Kernel.Editing
import Basedos.Kernel.ShellBuffers
import Basedos.Lib.Latest

/-!
# The history

`add_to_history` and `show_history` in `kernel/shell.c`. The lines stored go to the ten rows in turn,
and are listed from the row to be used next on and round: the last ten of them, oldest first.

A command that is the one before over again is to be stored once. It is compared with the row before
`history_pos`; but when `history_pos` has come round to `0` that row is the last one, and it is not
looked at.

## What is proved

* `Recorded.addToHistory` — what is stored, of any calls.
* `Recorded.listed` — what is listed: the last ten lines stored.
* `showHistory_iff` — **exactly when** the lines listed go on being the last ten commands: when no command
  is given over again while `history_pos` is `0`.
-/

namespace Basedos.Kernel

open Basedos.Lib Basedos.CLib Basedos.Fs

variable {ρ D : Type}

/-! ### What is listed -/

/-- The line of an entry, as it is printed. -/
def entryLine : Act → Option (List UInt8)
  | .printk format [.int _, .str line] => if format = " %d: %s\n" then some line else none
  | _ => none

/-- The entries `show_history` lists, in their order. -/
def System.listed (s : System D) : Option (List (List UInt8)) :=
  s.showHistory.map fun s' => (s'.acts.drop s.acts.length).filterMap entryLine

/-- The commands without the empty ones, and each that is given over again only once. -/
def commandsOf (calls : List (List UInt8)) : List (List UInt8) :=
  (calls.filter (· ≠ [])).destutter (· ≠ ·)

/-- The shell after some calls of `add_to_history`; `none` when one has left the arrays. -/
structure HistoryRun (D : Type) where
  /-- What it was called with. -/
  calls : List (List UInt8)
  /-- The shell. -/
  system : Option (System D)

/-- A call. -/
def historyStep (h : HistoryRun D) (cmd : Line) : Unit × HistoryRun D :=
  ((), ⟨h.calls ++ [cmd.bytes], h.system.bind fun s => s.addToHistory cmd.bytes⟩)

/-- No calls yet. -/
def HistoryRun.start (s : System D) : HistoryRun D := ⟨[], some s⟩

/-- What is asked: the last ten commands are listed. -/
def ListsCommands (h : HistoryRun D) : Prop :=
  ∃ s, h.system = some s ∧ s.listed = some ((commandsOf h.calls).rtake 10)

/-- The command is not that of the last row, or `history_pos` is not `0`. -/
def SeenAgain (h : HistoryRun D) (cmd : Line) : Prop :=
  ∀ s, h.system = some s → s.historyPos = 0 → stringIn (s.history 9) = some cmd.bytes → cmd.bytes = []

/-! ### The rows -/

/-- The last ten lines stored are in the rows, and those not used are empty. -/
structure Recorded (history : Fin 10 → List UInt8) (historyPos : ℤ) (stored : List (List UInt8)) : Prop where
  position : historyPos = (stored.length % 10 : ℕ)
  rowSize : ∀ k, (history k).length = 128
  rows : Latest (fun k line => Holds (history k) (line.getD [])) stored
  nonempty : [] ∉ stored

variable {history : Fin 10 → List UInt8} {historyPos : ℤ} {stored : List (List UInt8)} {cmd : List UInt8}

theorem initial_recorded : Recorded (fun _ => List.replicate MAX_INPUT 0) 0 [] where
  position := rfl
  rowSize _ := List.length_replicate
  rows := latest_nil fun _ => ⟨List.not_mem_nil, List.replicate 127 0, rfl⟩
  nonempty := List.not_mem_nil

/-- The row so many places on from the position. -/
theorem Recorded.index (h : Recorded history historyPos stored) {k : ℤ} {j : ℕ}
    (hk : k % 10 = (historyPos + j) % 10) (h₀ : 0 ≤ k) (h₁ : k < 10) :
    historyIndex k = some (Fin.ofNat 10 (stored.length + j)) := by
  have hpos := h.position
  rw [historyIndex_of_lt h₀ h₁]
  congr 1
  apply Fin.ext
  show k.toNat = (stored.length + j) % 10
  omega

/-- The row before the position holds the last line stored. -/
theorem Recorded.last (h : Recorded history historyPos stored) :
    Holds (history (Fin.ofNat 10 (stored.length + 9))) (stored.getLast?.getD []) := h.rows.last

/-- **A line stored.** -/
theorem Recorded.store {e : Shell ρ} (h : Recorded e.history e.historyPos stored) (h0 : 0 ∉ cmd)
    (hlen : cmd.length ≤ 126) (hne : cmd ≠ []) :
    ∃ history historyPos, storeHistory e cmd = some { e with history, historyPos, stored := e.stored ++ [cmd] } ∧
      Recorded history historyPos (stored ++ [cmd]) := by
  have hpos := h.position
  have h10 : (HISTORY_SIZE : ℤ) = 10 := rfl
  have hindex : historyIndex e.historyPos = some (Fin.ofNat 10 stored.length) :=
    h.index (j := 0) (by simp) (by omega) (by omega)
  obtain ⟨row, hcopy, hholds, hsize⟩ :=
    strcpyAt_zero (b := e.history (Fin.ofNat 10 stored.length)) h0 (by rw [h.rowSize]; omega)
  refine ⟨Function.update e.history (Fin.ofNat 10 stored.length) row, (e.historyPos + 1) % HISTORY_SIZE, ?_, ?_⟩
  · simp only [storeHistory, hindex, hcopy, Option.bind_eq_bind, Option.bind_some]
  · refine ⟨?position, fun k => ?rowSize, h.rows.concat ?new ?others, ?nonempty⟩
    case position =>
      rw [h10, hpos, List.length_append, List.length_singleton]
      omega
    case rowSize =>
      by_cases hk : k = Fin.ofNat 10 stored.length
      · rw [hk, Function.update_self, hsize, h.rowSize]
      · rw [Function.update_of_ne hk, h.rowSize]
    case new =>
      rw [Function.update_self]
      exact hholds
    case others =>
      intro k hk line hline
      rw [Function.update_of_ne hk]
      exact hline
    case nonempty =>
      rw [List.mem_append, List.mem_singleton]
      rintro (hmem | hnil)
      · exact h.nonempty hmem
      · exact hne hnil.symm

/-- **`add_to_history`**: what is stored, and what is not. -/
theorem Recorded.addToHistory {e : Shell ρ} (h : Recorded e.history e.historyPos stored) (h0 : 0 ∉ cmd)
    (hlen : cmd.length ≤ 126) :
    if cmd = [] ∨ e.historyPos ≠ 0 ∧ stored.getLast? = some cmd then addToHistory e cmd = some e
    else ∃ history historyPos, Kernel.addToHistory e cmd =
        some { e with history, historyPos, stored := e.stored ++ [cmd] } ∧
      Recorded history historyPos (stored ++ [cmd]) := by
  unfold Kernel.addToHistory
  by_cases hempty : cmd = []
  · rw [if_pos (.inl hempty), hempty]
    rfl
  · have hpos := h.position
    have hlength : cmd.length ≠ 0 := fun hl => hempty (List.length_eq_zero_iff.mp hl)
    have hstore := h.store h0 hlen hempty
    rw [if_neg hlength]
    by_cases hzero : e.historyPos = 0
    · rw [if_neg (not_or.mpr ⟨hempty, fun hand => hand.1 hzero⟩), if_neg (show ¬ e.historyPos > 0 by omega)]
      exact hstore
    · have hindex : historyIndex (e.historyPos - 1) = some (Fin.ofNat 10 (stored.length + 9)) :=
        h.index (j := 9) (by omega) (by omega) (by omega)
      have hlast : strcmp (stored.getLast?.getD []) cmd = 0 ↔ stored.getLast? = some cmd := by
        rw [strcmp_eq_zero_iff h.last.noNul h0]
        cases stored.getLast? with
        | none => simp [Ne.symm hempty]
        | some line => simp
      simp only [if_pos (show e.historyPos > 0 by omega), hindex, h.last.stringIn, Option.bind_eq_bind,
        Option.bind_some, hlast, hempty, hzero, false_or, ne_eq, not_false_eq_true, true_and]
      split
      · rfl
      · exact hstore

/-! ### Listing -/

/-- A round of the loop of `show_history`, in which there may be no line. -/
def entryOf (i : ℕ) : Option (List UInt8) → List Act
  | none => []
  | some line => [.printk " %d: %s\n" [.int (Int32.ofNat i + 1), .str line]]

theorem Recorded.entry {s : System D} (h : Recorded s.history s.historyPos stored) {i : ℕ} (hi : i < 10) :
    s.historyEntry i = some (entryOf i (before 10 stored i)) := by
  have h10 : (HISTORY_SIZE : ℤ) = 10 := rfl
  have hindex : historyIndex ((s.historyPos + i) % HISTORY_SIZE) = some (Fin.ofNat 10 (stored.length + i)) :=
    h.index (by rw [h10]; omega) (by rw [h10]; omega) (by rw [h10]; omega)
  simp only [System.historyEntry, hindex, (h.rows.read hi).stringIn, Option.bind_eq_bind, Option.bind_some]
  cases hline : before 10 stored i with
  | none => rfl
  | some line =>
    have hmem : line ∈ stored := by
      unfold before at hline
      split at hline
      · exact List.mem_of_getElem? hline
      · cases hline
    have hne : line ≠ [] := by
      rintro rfl
      exact h.nonempty hmem
    rw [Option.getD_some, if_neg hne]
    rfl

theorem printInfo_entries (s : System D) (text : String) :
    ∃ acts, s.printInfo text = s.act acts ∧ acts.filterMap entryLine = [] := by
  unfold System.printInfo System.printColor
  exact ⟨_, rfl, by split <;> rfl⟩

/-- **`show_history`** lists the last ten lines stored. -/
theorem Recorded.listed {s : System D} (h : Recorded s.history s.historyPos stored) :
    s.listed = some (stored.rtake 10) := by
  obtain ⟨heading, hheading, hnone⟩ := printInfo_entries s "Command history:\n"
  have hentries : (List.range HISTORY_SIZE).mapM s.historyEntry =
      some ((List.range 10).map fun i => entryOf i (before 10 stored i)) :=
    mapM_some fun i hi => h.entry (List.mem_range.mp hi)
  have hlines : ∀ i line, (entryOf i line).filterMap entryLine = line.toList := by
    intro i line
    cases line <;> rfl
  simp only [System.listed, System.showHistory, hentries, hheading, Option.bind_eq_bind, Option.bind_some,
    Option.map_some, System.act, List.append_assoc, List.drop_left, List.filterMap_append, hnone, List.nil_append]
  rw [← filterMap_before, List.filterMap_flatten, List.map_map]
  simp only [Function.comp_def, hlines]
  rw [List.filterMap_eq_flatMap_toList, List.flatMap_def]

/-! ### Any calls -/

/-- Another command. -/
theorem commandsOf_concat (calls : List (List UInt8)) (cmd : List UInt8) :
    commandsOf (calls ++ [cmd]) =
      if cmd = [] ∨ (commandsOf calls).getLast? = some cmd then commandsOf calls else commandsOf calls ++ [cmd] := by
  unfold commandsOf
  by_cases hempty : cmd = []
  · simp [hempty]
  · have hfilter : (calls ++ [cmd]).filter (· ≠ []) = calls.filter (· ≠ []) ++ [cmd] := by
      rw [List.filter_append, List.filter_singleton]
      simp [hempty]
    rw [hfilter, destutter_concat, getLast?_destutter]
    simp only [hempty, false_or]

/-- The rows hold what has been stored, and that is the commands, some of them more than once. -/
def FollowsCalls (h : HistoryRun D) : Prop :=
  ∃ s stored, h.system = some s ∧ Recorded s.history s.historyPos stored ∧
    stored.destutter (· ≠ ·) = commandsOf h.calls

/-- What is asked, of the lines stored. -/
theorem Recorded.lists_iff {s : System D} (h : Recorded s.history s.historyPos stored) (calls : List (List UInt8)) :
    ListsCommands ⟨calls, some s⟩ ↔ stored.rtake 10 = (commandsOf calls).rtake 10 := by
  constructor
  · rintro ⟨s', hs', hlisted⟩
    cases hs'
    rw [h.listed] at hlisted
    exact Option.some.inj hlisted
  · intro heq
    exact ⟨s, rfl, by rw [h.listed, heq]⟩

/-- The command of the last row is seen. -/
theorem Recorded.seenAgain_iff {s : System D} (h : Recorded s.history s.historyPos stored)
    (calls : List (List UInt8)) (cmd : Line) :
    SeenAgain ⟨calls, some s⟩ cmd ↔
      (s.historyPos = 0 → stored.getLast? = some cmd.bytes → cmd.bytes = []) := by
  have hpos := h.position
  have hrow : s.historyPos = 0 → stringIn (s.history 9) = some (stored.getLast?.getD []) := by
    intro hzero
    have hnine : (9 : Fin 10) = Fin.ofNat 10 (stored.length + 9) := by
      apply Fin.ext
      show 9 = (stored.length + 9) % 10
      omega
    rw [hnine, h.last.stringIn]
  constructor
  · intro hseen hzero hlast
    refine hseen s rfl hzero ?_
    rw [hrow hzero, hlast]
    rfl
  · rintro hseen s' ⟨⟩ hzero hline
    rw [hrow hzero] at hline
    cases hlast : stored.getLast? with
    | none =>
      rw [hlast] at hline
      exact (Option.some.inj hline).symm
    | some line =>
      rw [hlast] at hline
      exact hseen hzero (hlast.trans hline)

/-- A call, on the lines stored. -/
theorem Recorded.call {s : System D} (h : Recorded s.history s.historyPos stored) (cmd : Line) :
    if cmd.bytes = [] ∨ s.historyPos ≠ 0 ∧ stored.getLast? = some cmd.bytes then s.addToHistory cmd.bytes = some s
    else ∃ s', s.addToHistory cmd.bytes = some s' ∧ Recorded s'.history s'.historyPos (stored ++ [cmd.bytes]) := by
  have hadd := Recorded.addToHistory (e := s.editor) h cmd.noNul cmd.short
  have heditor : s.editor.historyPos = s.historyPos := rfl
  rw [heditor] at hadd
  unfold System.addToHistory
  split_ifs at hadd ⊢
  · rw [hadd]
    rfl
  · obtain ⟨history, historyPos, hstore, hrecorded⟩ := hadd
    exact ⟨{ s with history, historyPos }, by rw [hstore]; rfl, hrecorded⟩

/-- A line stored twice in succession is listed twice, which the commands are not. -/
theorem twice_not_listed {line : List UInt8} (hlast : stored.getLast? = some line) (calls : List (List UInt8)) :
    (stored ++ [line]).rtake 10 ≠ (commandsOf calls).rtake 10 := by
  intro heq
  have hchain : ((commandsOf calls).rtake 10).IsChain (· ≠ ·) := by
    apply (List.isChain_destutter (· ≠ ·) _).suffix
    exact List.drop_suffix _ _
  obtain ⟨earlier, rfl⟩ := List.getLast?_eq_some_iff.mp hlast
  rw [← heq, List.rtake_concat_succ, List.rtake_concat_succ] at hchain
  have hne := (List.isChain_append.mp hchain).2.2 line (by rw [List.getLast?_concat]; rfl) line rfl
  exact hne rfl

/-- **A call** keeps what the rows hold, and decides whether the commands go on being listed. -/
theorem historyStep_spec {h : HistoryRun D} (hfollows : FollowsCalls h) (cmd : Line) :
    FollowsCalls (historyStep h cmd).2 ∧
      (ListsCommands h → (ListsCommands (historyStep h cmd).2 ↔ SeenAgain h cmd)) := by
  obtain ⟨calls, system⟩ := h
  obtain ⟨s, stored, hs, hrecorded, hcommands⟩ := hfollows
  obtain rfl : system = some s := hs
  have hlast : (commandsOf calls).getLast? = stored.getLast? := by
    rw [← hcommands]
    exact getLast?_destutter stored
  have hconcat := commandsOf_concat calls cmd.bytes
  have hdestutter := destutter_concat stored cmd.bytes
  have hcall := hrecorded.call cmd
  rw [hlast] at hconcat
  rw [hrecorded.lists_iff, hrecorded.seenAgain_iff]
  simp only [historyStep, Option.bind_some]
  by_cases hsame : cmd.bytes = [] ∨ s.historyPos ≠ 0 ∧ stored.getLast? = some cmd.bytes
  · -- Nothing is stored, and there is no new command.
    have hno : commandsOf (calls ++ [cmd.bytes]) = commandsOf calls := by
      rw [hconcat, if_pos (hsame.imp_right And.right)]
    rw [if_pos hsame] at hcall
    rw [hcall]
    refine ⟨⟨s, stored, rfl, hrecorded, hcommands.trans hno.symm⟩, fun hlists => ?_⟩
    rw [hrecorded.lists_iff, hno]
    refine iff_of_true hlists fun hzero _ => ?_
    exact hsame.resolve_right fun hand => hand.1 hzero
  · rw [if_neg hsame] at hcall
    obtain ⟨s', hs', hrecorded'⟩ := hcall
    obtain ⟨hne, hnew⟩ := not_or.mp hsame
    rw [hs']
    by_cases hagain : stored.getLast? = some cmd.bytes
    · -- The last command over again, while the position is `0`.
      have hzero : s.historyPos = 0 := by
        by_contra hpos
        exact hnew ⟨hpos, hagain⟩
      rw [if_pos hagain] at hdestutter
      rw [if_pos (.inr hagain)] at hconcat
      refine ⟨⟨s', _, rfl, hrecorded', hdestutter.trans (hcommands.trans hconcat.symm)⟩, fun _ => ?_⟩
      rw [hrecorded'.lists_iff]
      exact iff_of_false (twice_not_listed hagain _) fun hseen => hne (hseen hzero hagain)
    · rw [if_neg hagain] at hdestutter
      rw [if_neg (not_or.mpr ⟨hne, hagain⟩)] at hconcat
      refine ⟨⟨s', _, rfl, hrecorded', ?_⟩, fun hlists => ?_⟩
      · rw [hdestutter, hconcat]
        exact congrArg (· ++ [cmd.bytes]) hcommands
      · rw [hrecorded'.lists_iff, hconcat, List.rtake_concat_succ, List.rtake_concat_succ,
          ← rtake_rtake (n := 10) (by decide) stored, hlists, rtake_rtake (by decide)]
        exact iff_of_true rfl fun _ hl => absurd hl hagain

/-- **When the history is the last ten commands**: all along just when no command is given over again while
`history_pos` is `0`. -/
theorem showHistory_iff (vfs : Vfs D) (totalMemory freeMemory uptimeSeconds : UInt32) (stack : Mem)
    (cmds : List Line) :
    (∀ n, ListsCommands (run historyStep
        (.start (.initial vfs totalMemory freeMemory uptimeSeconds stack)) (cmds.take n)).2) ↔
      Along historyStep SeenAgain (.start (.initial vfs totalMemory freeMemory uptimeSeconds stack)) cmds := by
  have hstart : Recorded (System.initial vfs totalMemory freeMemory uptimeSeconds stack).history
      (System.initial vfs totalMemory freeMemory uptimeSeconds stack).historyPos [] := initial_recorded
  apply always_iff_along (J := FollowsCalls)
  · intro h cmd hfollows
    exact (historyStep_spec hfollows cmd).1
  · intro h cmd hfollows hlists
    exact (historyStep_spec hfollows cmd).2 hlists
  · exact ⟨_, [], rfl, hstart, rfl⟩
  · exact (hstart.lists_iff []).mpr rfl

/-- A command of one letter, `a` to `j`. -/
def oneLetter (i : Fin 10) : Line where
  bytes := [UInt8.ofNat (97 + i)]
  noNul := by
    rw [List.mem_singleton, ← UInt8.toNat_inj, UInt8.toNat_ofNat_of_lt' (by show _ < 256; omega)]
    show ¬ 0 = 97 + i.val
    omega
  short := by simp

/-- The ten of them, which fill the rows. -/
def tenLetters : List Line := (List.finRange 10).map oneLetter

/-- `j` once more is listed twice. -/
theorem not_forall_listsCommands :
    ¬ ∀ cmds : List Line, ListsCommands (run historyStep (.start smallSystem) cmds).2 := by
  intro h
  have hstart : FollowsCalls (.start smallSystem) := ⟨smallSystem, [], rfl, initial_recorded, rfl⟩
  have hten : FollowsCalls (run historyStep (.start smallSystem) tenLetters).2 :=
    run_inv' (I := FollowsCalls) (fun h cmd hfollows => (historyStep_spec hfollows cmd).1) hstart tenLetters
  have hseen := ((historyStep_spec hten (oneLetter 9)).2 (h tenLetters)).mp (h (tenLetters ++ [oneLetter 9]))
  have hrow : (run historyStep (.start smallSystem) tenLetters).2.system.map
      (fun s => (s.historyPos, stringIn (s.history 9))) = some (0, some [106]) := by decide +kernel
  obtain ⟨s, hs, hline⟩ := Option.map_eq_some_iff.mp hrow
  obtain ⟨hzero, hlast⟩ := Prod.mk.inj hline
  have hempty : (oneLetter 9).bytes = [] := hseen s hs hzero hlast
  cases hempty

end Basedos.Kernel
