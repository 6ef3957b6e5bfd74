import Basedos.Kernel.Commands
import Basedos.Lib.Outcome
import Basedos.Lib.Run
import Mathlib.Tactic.Choose

/-!
# The arrays of the shell

Each array of `kernel/shell.c` has its size and a NUL in it (`ShellArrays`). Before its branches
`execute_command` changes only the history and the parser's array (`Noted`); of the branches only `cd`
and `alias` change an array.

## What is proved

* `dispatch_cases` — **before the branches**: from a line that is not blank come a command and its
  arguments, the words of the line or of an alias.
* `runCommand_leaves` — **the branches**, apart from those two, overrun no array and change none.
-/

namespace Basedos.Kernel

open Basedos.Lib Basedos.CLib Basedos.Fs

/-- An array of so many bytes, with a NUL in it. -/
structure Terminated (b : List UInt8) (n : ℕ) : Prop where
  size : b.length = n
  nul : 0 ∈ b

theorem Terminated.holds {b : List UInt8} {n : ℕ} (h : Terminated b n) : ∃ s, stringIn b = some s ∧ Holds b s := by
  obtain ⟨s, rest, hb, h0⟩ := List.eq_append_cons_of_mem h.nul
  have hholds : Holds b s := ⟨h0, rest, hb⟩
  exact ⟨s, hholds.stringIn, hholds⟩

theorem terminated_of_holds {b s : List UInt8} (h : Holds b s) : Terminated b b.length := by
  obtain ⟨-, rest, hb⟩ := h
  refine ⟨rfl, ?_⟩
  rw [hb]
  simp

variable {D : Type} {K : DirDrivers D} {s s' : System D} {l : List (List UInt8 × List UInt8)} {line : List UInt8}

/-- What is asked of the arrays between lines. -/
structure BuffersTerminated (s : System D) : Prop where
  history : ∀ k, Terminated (s.history k) 128
  aliases : ∀ slot ∈ s.aliases, Terminated slot.alias_ 32 ∧ Terminated slot.command 128
  parse : Terminated s.parse.buffer 128
  currentDirectory : Terminated s.currentDirectory 64

/-- The arrays, with the aliases of a list in their table. -/
structure ShellArrays (s : System D) (l : List (List UInt8 × List UInt8)) : Prop where
  history : ∀ k, Terminated (s.history k) 128
  nonneg : 0 ≤ s.historyPos
  le : s.historyPos ≤ 9
  aliases : Stores s.aliases l
  parse : Terminated s.parse.buffer 128
  currentDirectory : Terminated s.currentDirectory 64

theorem ShellArrays.buffers (h : ShellArrays s l) : BuffersTerminated s where
  history := h.history
  aliases := by
    intro slot hslot
    obtain ⟨p, -, hp⟩ := exists_mem_of_forall₂ h.aliases hslot
    have halias := terminated_of_holds hp.alias_
    have hcommand := terminated_of_holds hp.command
    rw [hp.aliasSize] at halias
    rw [hp.commandSize] at hcommand
    exact ⟨halias, hcommand⟩
  parse := h.parse
  currentDirectory := h.currentDirectory

/-- Nothing in the arrays has changed. -/
structure SameArrays (s s' : System D) : Prop where
  history : s'.history = s.history
  historyPos : s'.historyPos = s.historyPos
  aliases : s'.aliases = s.aliases
  parse : s'.parse = s.parse
  currentDirectory : s'.currentDirectory = s.currentDirectory

theorem SameArrays.refl (s : System D) : SameArrays s s := ⟨rfl, rfl, rfl, rfl, rfl⟩

theorem SameArrays.trans {s'' : System D} (h₁ : SameArrays s s') (h₂ : SameArrays s' s'') : SameArrays s s'' :=
  ⟨h₂.history.trans h₁.history, h₂.historyPos.trans h₁.historyPos, h₂.aliases.trans h₁.aliases,
    h₂.parse.trans h₁.parse, h₂.currentDirectory.trans h₁.currentDirectory⟩

/-- What is printed and what the file system does is not in the arrays. -/
theorem SameArrays.act (h : SameArrays s s') (acts : List Act) : SameArrays s (s'.act acts) :=
  h.trans ⟨rfl, rfl, rfl, rfl, rfl⟩

theorem SameArrays.setVfs (h : SameArrays s s') (vfs : Vfs D) : SameArrays s (s'.setVfs vfs) :=
  h.trans ⟨rfl, rfl, rfl, rfl, rfl⟩

theorem SameArrays.exitCode (h : SameArrays s s') (code : Int32) : SameArrays s (s'.exitCode code) :=
  h.trans ⟨rfl, rfl, rfl, rfl, rfl⟩

theorem ShellArrays.same (h : ShellArrays s l) (hs : SameArrays s s') : ShellArrays s' l where
  history := by rw [hs.history]; exact h.history
  nonneg := by rw [hs.historyPos]; exact h.nonneg
  le := by rw [hs.historyPos]; exact h.le
  aliases := by rw [hs.aliases]; exact h.aliases
  parse := by rw [hs.parse]; exact h.parse
  currentDirectory := by rw [hs.currentDirectory]; exact h.currentDirectory

/-! ### The line noted -/

/-- A line stored in the history. -/
theorem storeHistory_arrays {ρ : Type} {e : Shell ρ} {cmd : List UInt8} (hrow : ∀ k, Terminated (e.history k) 128)
    (h₀ : 0 ≤ e.historyPos) (h₉ : e.historyPos ≤ 9) (h0 : 0 ∉ cmd) (hlen : cmd.length < 128) :
    ∃ e', storeHistory e cmd = some e' ∧ (∀ k, Terminated (e'.history k) 128) ∧ 0 ≤ e'.historyPos ∧
      e'.historyPos ≤ 9 := by
  have hk : historyIndex e.historyPos = some ⟨e.historyPos.toNat, by omega⟩ := dif_pos ⟨h₀, by omega⟩
  obtain ⟨row, hcopy, hholds, hsize⟩ :=
    strcpyAt_zero (b := e.history ⟨e.historyPos.toNat, by omega⟩) h0 (by rw [(hrow _).size]; exact hlen)
  have h10 : (HISTORY_SIZE : ℤ) = 10 := rfl
  refine ⟨_, by simp only [storeHistory, hk, hcopy, Option.bind_eq_bind, Option.bind_some]; rfl, fun k => ?_, ?_, ?_⟩
  · simp only
    by_cases hkp : k = ⟨e.historyPos.toNat, by omega⟩
    · rw [hkp, Function.update_self]
      have := terminated_of_holds hholds
      rwa [hsize, (hrow _).size] at this
    · rw [Function.update_of_ne hkp]
      exact hrow k
  · simp only [h10]
    omega
  · simp only [h10]
    omega

/-- **The history**: at most its entries and its position change. -/
theorem addToHistory_arrays (h : ShellArrays s l) (h0 : 0 ∉ line) (hlen : line.length < 128) :
    ∃ history historyPos, s.addToHistory line = some { s with history, historyPos } ∧
      ShellArrays { s with history, historyPos } l := by
  have hstore : ∃ e', storeHistory s.editor line = some e' ∧ (∀ k, Terminated (e'.history k) 128) ∧
      0 ≤ e'.historyPos ∧ e'.historyPos ≤ 9 := storeHistory_arrays h.history h.nonneg h.le h0 hlen
  have hadd : ∃ e', Kernel.addToHistory s.editor line = some e' ∧ (∀ k, Terminated (e'.history k) 128) ∧
      0 ≤ e'.historyPos ∧ e'.historyPos ≤ 9 := by
    have hkeep : ∃ e', some s.editor = some e' ∧ (∀ k, Terminated (e'.history k) 128) ∧ 0 ≤ e'.historyPos ∧
        e'.historyPos ≤ 9 := ⟨s.editor, rfl, h.history, h.nonneg, h.le⟩
    unfold Kernel.addToHistory
    split
    · exact hkeep
    · split
      · next hpos =>
        have hle := h.le
        have hpos' : s.historyPos > 0 := hpos
        have hk : historyIndex (s.historyPos - 1) = some ⟨(s.historyPos - 1).toNat, by omega⟩ :=
          dif_pos ⟨by omega, by omega⟩
        obtain ⟨last, hlast, -⟩ := (h.history ⟨(s.historyPos - 1).toNat, by omega⟩).holds
        have hk' : historyIndex (s.editor.historyPos - 1) = some ⟨(s.historyPos - 1).toNat, by omega⟩ := hk
        have hlast' : stringIn (s.editor.history ⟨(s.historyPos - 1).toNat, by omega⟩) = some last := hlast
        simp only [hk', hlast', Option.bind_eq_bind, Option.bind_some]
        split
        · exact hkeep
        · exact hstore
      · exact hstore
  obtain ⟨e', he, hrows, h₀, h₉⟩ := hadd
  refine ⟨e'.history, e'.historyPos, ?_, hrows, h₀, h₉, h.aliases, h.parse, h.currentDirectory⟩
  rw [System.addToHistory, he]
  rfl

/-- `s'` is `s` when a line has been noted: stored in the history and cut into words. -/
structure Noted (s s' : System D) (l : List (List UInt8 × List UInt8)) : Prop where
  same : s' = { s with
    history := s'.history
    historyPos := s'.historyPos
    parse := s'.parse
    lastExitCode := s'.lastExitCode }
  arrays : ShellArrays s' l

theorem Noted.vfs (h : Noted s s' l) : s'.vfs = s.vfs := by rw [h.same]

theorem Noted.acts (h : Noted s s' l) : s'.acts = s.acts := by rw [h.same]

/-- **Before the branches**: a blank line is only noted, an alias for a blank text ends in `NULL`, and from
another line there are a command and its arguments. -/
theorem dispatch_cases (h : ShellArrays s l) (h0 : 0 ∉ line) (hlen : line.length < 128) :
    (wordsOf line = [] ∧ ∃ s', dispatch s line = .ok (none, s') ∧ Noted s s' l) ∨
    (wordsOf line ≠ [] ∧ resolvedWords l line = [] ∧ dispatch s line = .error .nullAccess) ∨
    ∃ cmd args s', wordsOf line ≠ [] ∧ resolvedWords l line = cmd.bytes :: args.map CStr.bytes ∧
      dispatch s line = .ok (some (cmd, args), s') ∧ Noted s s' l := by
  unfold dispatch
  by_cases hempty : line.length = 0
  · rw [List.length_eq_zero_iff.mp hempty]
    exact .inl ⟨rfl, s, rfl, rfl, h⟩
  · obtain ⟨history, historyPos, hadd, harrays⟩ := addToHistory_arrays h h0 hlen
    obtain ⟨ws, parse, hsplit, hsize, hnul, hws⟩ := splitLine_words h.aliases h.parse.size h0 hlen
    have hnoted : ∀ code, Noted s { s with history, historyPos, parse, lastExitCode := code } l := by
      intro code
      exact ⟨rfl, harrays.history, harrays.nonneg, harrays.le, h.aliases, ⟨hsize, hnul⟩, h.currentDirectory⟩
    rw [if_neg hempty, hadd]
    simp only [inside, bind, Except.bind, hsplit]
    rcases hws with ⟨hblank, rfl⟩ | ⟨hne, ws, rfl, hws⟩
    · exact .inl ⟨hblank, _, rfl, hnoted s.lastExitCode⟩
    · cases ws with
      | nil => exact .inr (.inl ⟨hne, hws.symm, rfl⟩)
      | cons cmd args => exact .inr (.inr ⟨cmd, args, _, hne, hws.symm, rfl, hnoted 0⟩)

/-! ### The commands -/

section Commands

variable {cmd : CStr} {args : List CStr}

/-- Nothing overrun, and the arrays as they were. -/
abbrev Leaves (s : System D) (r : Except Stop (Flow × System D)) : Prop :=
  Avoids Stop.overrun (fun r => SameArrays s r.2) r

theorem leaves_next (h : SameArrays s s') : Leaves s s'.next := h

theorem leaves_returned (h : SameArrays s s') : Leaves s s'.returned := h

/-- The loop of `ls`. -/
theorem lsLoop_same (dir : UInt32) (n : ℕ) (i : UInt32) (s : System D) :
    Avoids Stop.overrun (SameArrays s) (s.lsLoop K dir n i) := by
  induction n generalizing i s with
  | zero => exact Stop.noConfusion
  | succ n ih =>
    unfold System.lsLoop
    split
    · exact (SameArrays.refl s).setVfs _
    · refine (ih _ _).mono fun s' hs' => ?_
      exact (((SameArrays.refl s).setVfs _).act _).trans hs'

theorem ls_leaves : Leaves s (s.ls K) := by
  unfold System.ls
  generalize 2 ^ 32 = n
  split
  · exact leaves_returned (((SameArrays.refl s).setVfs _).act _)
  · dsimp only
    split
    · exact leaves_returned ((((SameArrays.refl s).setVfs _).act _).setVfs _)
    · refine (lsLoop_same _ n 0 _).bind fun s' hs' => ?_
      exact leaves_next (((((SameArrays.refl s).setVfs _).act _).trans hs').setVfs _)

/-- The loop of `cat`. -/
theorem catLoop_same (fd : Int32) (n : ℕ) (buffer : Mem) (s : System D) :
    Avoids Stop.overrun (SameArrays s) (s.catLoop K fd n buffer) := by
  induction n generalizing buffer s with
  | zero => exact Stop.noConfusion
  | succ n ih =>
    unfold System.catLoop
    dsimp only
    split
    · split
      · refine (ih _ _).mono fun s' hs' => ?_
        exact (((SameArrays.refl s).setVfs _).act _).trans hs'
      · exact Stop.noConfusion
    · exact (SameArrays.refl s).setVfs _

theorem cat_leaves : Leaves s (s.cat K args) := by
  unfold System.cat
  generalize 2 ^ 32 = n
  split
  · exact leaves_returned ((SameArrays.refl s).act _)
  · dsimp only
    split
    · exact leaves_returned (((SameArrays.refl s).setVfs _).act _)
    · refine (catLoop_same _ n _ _).bind fun s' hs' => ?_
      exact leaves_next (((((SameArrays.refl s).setVfs _).trans hs').setVfs _).act _)

theorem touch_leaves : Leaves s (s.touch K args) := by
  unfold System.touch
  split
  · exact leaves_returned ((SameArrays.refl s).act _)
  · dsimp only
    split
    · exact leaves_returned (((SameArrays.refl s).setVfs _).act _)
    · exact leaves_next ((((SameArrays.refl s).setVfs _).setVfs _).act _)

/-- Some strings with a blank between each and the next. -/
def joined (args : List CStr) : List UInt8 := [32].intercalate (args.map CStr.bytes)

theorem joined_cons_cons (arg arg' : CStr) (args : List CStr) :
    joined (arg :: arg' :: args) = arg.bytes ++ ([32] ++ joined (arg' :: args)) := by
  simp only [joined, List.map_cons, List.intercalate_cons_cons, List.append_assoc]

theorem length_joined (args : List CStr) : (joined args).length ≤ (args.map fun arg => arg.bytes.length + 1).sum := by
  induction args with
  | nil => exact le_rfl
  | cons arg args ih =>
    cases args with
    | nil => simp [joined]
    | cons arg' args =>
      rw [joined_cons_cons, List.map_cons, List.sum_cons]
      simp only [List.length_append, List.length_singleton]
      omega

/-- The loop of `write`, in an array with room for all. -/
theorem joinArgs_holds {b t : List UInt8} (args : List CStr) (h : Holds b t)
    (hlen : t.length + (joined args).length < b.length) :
    ∃ b', System.joinArgs args b = some b' ∧ Holds b' (t ++ joined args) ∧ b'.length = b.length := by
  induction args generalizing b t with
  | nil => exact ⟨b, rfl, by simpa [joined] using h, rfl⟩
  | cons arg args ih =>
    cases args with
    | nil =>
      have harg : joined [arg] = arg.bytes := by simp [joined]
      rw [harg] at hlen ⊢
      exact strcat_holds h arg.noNul hlen
    | cons arg' args =>
      rw [joined_cons_cons] at hlen ⊢
      simp only [List.length_append, List.length_singleton] at hlen
      obtain ⟨b₁, hcat₁, hholds₁, hsize₁⟩ := strcat_holds h arg.noNul (by omega)
      obtain ⟨b₂, hcat₂, hholds₂, hsize₂⟩ := strcat_holds (t := [32]) hholds₁ (by decide)
        (by simp only [List.length_append, List.length_singleton]; omega)
      obtain ⟨b₃, hjoin, hholds₃, hsize₃⟩ := ih hholds₂
        (by simp only [List.length_append, List.length_singleton]; omega)
      refine ⟨b₃, ?_, by simpa only [List.append_assoc] using hholds₃, hsize₃.trans (hsize₂.trans hsize₁)⟩
      simp only [System.joinArgs, hcat₁, hcat₂, Option.bind_eq_bind, Option.bind_some, hjoin]

/-- The text that `write` puts together. -/
theorem joinArgs_write (args : List CStr) (hlen : (joined args).length < 1024) :
    ∃ b, System.joinArgs args (List.replicate 1024 0) = some b ∧ Holds b (joined args) ∧ b.length = 1024 := by
  have hzero : Holds (List.replicate 1024 0) [] := ⟨List.not_mem_nil, List.replicate 1023 0, rfl⟩
  have hsize : (List.replicate 1024 (0 : UInt8)).length = 1024 := List.length_replicate
  have hjoin := joinArgs_holds args hzero
  rw [hsize, List.length_nil, Nat.zero_add, List.nil_append] at hjoin
  exact hjoin hlen

theorem write_leaves (hlen : (joined args.tail).length < 1024) : Leaves s (s.write K args) := by
  unfold System.write
  split
  · next file arg args =>
    dsimp only
    split
    · exact leaves_returned (((SameArrays.refl s).setVfs _).act _)
    · obtain ⟨b, hjoin, hholds, -⟩ := joinArgs_write (arg :: args) hlen
      simp only [hjoin, hholds.stringIn, inside, bind, Except.bind]
      split
      · exact leaves_next (((((SameArrays.refl s).setVfs _).setVfs _).act _).setVfs _)
      · exact leaves_next (((((SameArrays.refl s).setVfs _).setVfs _).act _).setVfs _)
  · exact leaves_returned ((SameArrays.refl s).act _)

theorem set_same (s : System D) (args : List CStr) : SameArrays s (s.set args) := by
  unfold System.set
  split
  · exact (SameArrays.refl s).act _
  · dsimp only
    split_ifs <;> exact ⟨rfl, rfl, rfl, rfl, rfl⟩
  · exact (SameArrays.refl s).act _

theorem notFound_same (s : System D) (cmd : CStr) : SameArrays s (s.notFound K cmd) := by
  unfold System.notFound
  split
  · exact (((SameArrays.refl s).setVfs _).act _).exitCode 126
  · exact ((((SameArrays.refl s).setVfs _).act _).act _).exitCode 127

theorem notImplemented_leaves (usage text : String) : Leaves s (s.notImplemented args usage text) := by
  unfold System.notImplemented
  split
  · exact leaves_returned ((SameArrays.refl s).act _)
  · exact leaves_next ((SameArrays.refl s).act _)

theorem echoTest_same (s : System D) (args : List CStr) : SameArrays s (s.echoTest args) := by
  unfold System.echoTest
  split <;> exact (SameArrays.refl s).act _

theorem showMemoryInfo_same (s : System D) : Avoids Stop.overrun (SameArrays s) s.showMemoryInfo := by
  unfold System.showMemoryInfo
  dsimp only
  split
  · exact Stop.noConfusion
  · split
    · exact ((((SameArrays.refl s).act _).act _).act _).act _
    · exact (((SameArrays.refl s).act _).act _).act _

theorem calculator_same (s : System D) (args : List CStr) : Avoids Stop.overrun (SameArrays s) (s.calculator args) := by
  have same : ∀ acts, SameArrays s (s.act acts) := (SameArrays.refl s).act
  unfold System.calculator
  split
  · -- Division and remainder may each end in an error of the processor.
    have hdivide : ∀ (a b : Int32) (acts : List Act), Avoids Stop.overrun (SameArrays s)
        (if b = 0 then .ok (s.printError "Error: Division by zero\n")
          else if a = Int32.minValue ∧ b = -1 then .error (.divideError s.acts)
            else .ok (s.act acts)) := fun a b acts =>
      .ite (same _) (.ite Stop.noConfusion (same acts))
    exact .ite (same _) (.ite (same _) (.ite (same _) (.ite (hdivide _ _ _) (.ite (hdivide _ _ _) (same _)))))
  · exact (same _).act _

theorem gives_inside {α : Type} (r : Option α) : Gives (fun _ => True) (inside r) := fun _ _ => trivial

theorem gives_inside_of {α : Type} {P : α → Prop} {r : Option α} (h : ∀ a, r = some a → P a) :
    Gives P (inside r) :=
  fun a ha => h a (inside_eq_ok.mp ha)

/-- A command whose strings are all read inside the arrays. -/
theorem inside_next {r : Option (System D)} (h : ∃ s', r = some s' ∧ SameArrays s s') :
    Leaves s (inside r >>= System.next) := by
  obtain ⟨s', rfl, hs'⟩ := h
  exact leaves_next hs'

theorem showSystemInfo_same (h : ShellArrays s l) : ∃ s', s.showSystemInfo = some s' ∧ SameArrays s s' := by
  obtain ⟨directory, hd, -⟩ := h.currentDirectory.holds
  refine ⟨_, by rw [System.showSystemInfo, hd]; rfl, ?_⟩
  exact (((SameArrays.refl s).act _).act _).act _

theorem showHistory_same (h : ShellArrays s l) : ∃ s', s.showHistory = some s' ∧ SameArrays s s' := by
  have hentry : ∀ i ∈ List.range HISTORY_SIZE, ∃ acts, s.historyEntry i = some acts := by
    intro i _
    have h10 : (HISTORY_SIZE : ℤ) = 10 := rfl
    have hk : historyIndex ((s.historyPos + i) % HISTORY_SIZE) = some ⟨((s.historyPos + i) % 10).toNat, by omega⟩ :=
      dif_pos (by rw [h10]; omega)
    obtain ⟨row, hrow, -⟩ := (h.history ⟨((s.historyPos + i) % 10).toNat, by omega⟩).holds
    exact ⟨_, by simp only [System.historyEntry, hk, hrow, Option.bind_eq_bind, Option.bind_some]; rfl⟩
  choose! entry hentry using hentry
  refine ⟨_, by rw [System.showHistory, mapM_some hentry]; rfl, ?_⟩
  exact ((SameArrays.refl s).act _).act _

theorem listAliases_same (h : ShellArrays s l) : ∃ s', s.listAliases = some s' ∧ SameArrays s s' := by
  have hentry : ∀ slot ∈ s.aliases, ∃ act, System.aliasEntry slot = some act := by
    intro slot hslot
    obtain ⟨p, -, hp⟩ := exists_mem_of_forall₂ h.aliases hslot
    exact ⟨_, by rw [System.aliasEntry, hp.alias_.stringIn, hp.command.stringIn]; rfl⟩
  have : Nonempty Act := ⟨.clear⟩
  choose! entry hentry using hentry
  unfold System.listAliases
  split
  · exact ⟨_, rfl, (SameArrays.refl s).act _⟩
  · refine ⟨_, by rw [mapM_some hentry]; rfl, ?_⟩
    exact ((SameArrays.refl s).act _).act _

/-- **`cd`**: the new directory is cut to 63 characters. -/
theorem changeDirectory_arrays (h : ShellArrays s l) (path : List UInt8) :
    Avoids Stop.overrun (ShellArrays · l) (s.changeDirectory K path) := by
  have hsize := h.currentDirectory.size
  obtain ⟨b, hb, hlen⟩ := strncpy_inside path (show 63 ≤ s.currentDirectory.length by omega)
  have hstore : store b 63 0 = some (b.set 63 0) := by
    rw [store, hlen, hsize]
    rfl
  have hnot : ∀ w, ShellArrays ((s.setWorld w).noSuchDirectory path) l := fun w =>
    h.same (((((SameArrays.refl s).setVfs _).act _).act _).exitCode 1)
  unfold System.changeDirectory
  split
  · split
    · simp only [hb, hstore, inside, bind, Except.bind]
      refine ⟨h.history, h.nonneg, h.le, h.aliases, h.parse, ?_, List.mem_set (by omega) 0⟩
      rw [List.length_set, hlen, hsize]
    · exact hnot _
  · exact hnot _

theorem cd_arrays (h : ShellArrays s l) : Avoids Stop.overrun (ShellArrays · l) (s.cd K args) := by
  unfold System.cd
  split <;> exact changeDirectory_arrays h _

/-- **The other commands** leave the arrays alone. -/
theorem runCommand_leaves (h : ShellArrays s l) (hlen : (joined args.tail).length < 1024)
    (halias : commandOf cmd.bytes ≠ .alias_) (hcd : commandOf cmd.bytes ≠ .cd) :
    Leaves s (s.runCommand K cmd args) := by
  have act : ∀ acts, SameArrays s (s.act acts) := (SameArrays.refl s).act
  unfold System.runCommand
  cases hc : commandOf cmd.bytes with
  | help => exact leaves_next ((act _).act _)
  | clear => exact leaves_next (act _)
  | echo => exact leaves_next (echoTest_same s args)
  | exit => exact leaves_returned (act _)
  | shutdown => exact Stop.noConfusion
  | reboot => exact Stop.noConfusion
  | pwd =>
    obtain ⟨directory, hd, -⟩ := h.currentDirectory.holds
    rw [hd]
    exact leaves_next (act _)
  | cd => exact absurd hc hcd
  | beep => exact leaves_next (act _)
  | memory => exact (showMemoryInfo_same s).bind fun s' hs' => leaves_next hs'
  | uptime => exact leaves_next (act _)
  | ls => exact ls_leaves
  | cat => exact cat_leaves
  | mkdir => exact notImplemented_leaves _ _
  | touch => exact touch_leaves
  | rm => exact notImplemented_leaves _ _
  | write => exact write_leaves hlen
  | date => exact leaves_next (act _)
  | banner => exact leaves_next ((((((act _).act _).act _).act _).act _).act _)
  | alias_ => exact absurd hc halias
  | set => exact leaves_next (set_same s args)
  | history => exact inside_next (showHistory_same h)
  | sysinfo => exact inside_next (showSystemInfo_same h)
  | calc_ => exact (calculator_same s args).bind fun s' hs' => leaves_next hs'
  | sound => exact leaves_next (act _)
  | other => exact leaves_next (notFound_same s cmd)

end Commands

/-! ### The words -/

/-- The words of a line come from a text that fits an array of 128 bytes. -/
theorem resolvedWords_text {aliases : List AliasSlot} (h : Stores aliases l) (hlen : line.length < 128) :
    ∃ text, text.length < 128 ∧ resolvedWords l line = (wordsOf text).take 15 := by
  unfold resolvedWords
  split
  · next hnil => exact ⟨[], by decide, rfl⟩
  · next cmd args hcons =>
    split
    · exact ⟨line, hlen, hcons.symm⟩
    · next command hl => exact ⟨command, (lookup_short h hl).2, rfl⟩

/-- What is known of a command's words. -/
structure Words128 (cmd : CStr) (args : List CStr) : Prop where
  sum : ((cmd :: args).map fun arg => arg.bytes.length + 1).sum ≤ 128
  word : ∀ arg ∈ cmd :: args, wordsOf arg.bytes = [arg.bytes]

/-- The first fifteen words of a text. -/
theorem words128_of_text {text : List UInt8} (htext : text.length < 128) {cmd : CStr} {args : List CStr}
    (hmap : (cmd :: args).map CStr.bytes = (wordsOf text).take 15) : Words128 cmd args := by
  constructor
  · have hsum := length_words (· ∈ blanks) text
    have htake : (((wordsOf text).take 15).map fun w => w.length + 1).sum ≤
        ((wordsOf text).map fun w => w.length + 1).sum := by
      conv => rhs; rw [← List.take_append_drop 15 (wordsOf text), List.map_append, List.sum_append]
      exact Nat.le_add_right _ _
    have hargs : ((cmd :: args).map fun arg => arg.bytes.length + 1) =
        ((wordsOf text).take 15).map fun w => w.length + 1 := by
      rw [← hmap, List.map_map]
      rfl
    rw [hargs]
    unfold wordsOf at htake ⊢
    omega
  · intro arg harg
    have hmem : arg.bytes ∈ (wordsOf text).take 15 := hmap ▸ List.mem_map_of_mem harg
    obtain ⟨hne, hsep, -⟩ := mem_words (List.mem_of_mem_take hmem)
    exact words_of_word hne hsep

theorem words128 {aliases : List AliasSlot} (h : Stores aliases l) (hlen : line.length < 128) {cmd : CStr}
    {args : List CStr} (hws : resolvedWords l line = cmd.bytes :: args.map CStr.bytes) : Words128 cmd args := by
  obtain ⟨text, htext, hres⟩ := resolvedWords_text h hlen
  exact words128_of_text htext (by rw [← hres, hws, List.map_cons])

section Words

variable {cmd : CStr} {args : List CStr}

theorem Words128.short (h : Words128 cmd args) {arg : CStr} (harg : arg ∈ args) : arg.bytes.length < 128 := by
  have hsum := h.sum
  obtain ⟨as, bs, rfl⟩ := List.append_of_mem harg
  simp only [List.map_cons, List.map_append, List.sum_cons, List.sum_append] at hsum
  omega

theorem Words128.joined_lt (h : Words128 cmd args) : (joined args.tail).length < 1024 := by
  have hsum := h.sum
  have hlen := length_joined args.tail
  cases args with
  | nil => exact Nat.lt_of_le_of_lt hlen (by decide)
  | cons arg args =>
    simp only [List.map_cons, List.sum_cons, List.tail_cons] at hsum hlen ⊢
    omega

end Words

end Basedos.Kernel
