import Basedos.Kernel.Erasing
import Basedos.Kernel.Typist

/-!
# The line on the screen

What the line editor prints at each key goes to the terminal, where it is to show the line that Enter would execute.

## The model

The terminal is that of `Basedos.Kernel.Terminal`, and the prompt has left its cursor somewhere in a row. The keys are
any characters but Enter: letters, the backspace, Tab, and the two that are taken for the arrows, which recall lines of
the history. Characters are echoed.

## What is proved

* `Editing.keyPrints` — **what a key prints**: as many `"\b \b"` as characters are taken away, and then the new ones.
* `visible_iff` — in any session, **at every moment of a line** the screen shows what Enter would execute, and the
  cursor behind it, just when at every moment the line ends before column 80.
-/

namespace Basedos.Kernel

open Basedos.Lib Basedos.CLib

/-! ### What is asked -/

/-- The screen shows the line where the cursor of `t₀` is, with its own cursor behind it. Each cell in the rest of the
row is blank or as it was, so that a blank rest of the row is as it was; and nothing else has changed. -/
structure ShowsLine (t₀ t : Terminal) (line : List UInt8) : Prop where
  cursorX : t.cursorX = t₀.cursorX + line.length
  cursorY : t.cursorY = t₀.cursorY
  cells : ∀ i (h : i < line.length), t.charAt (t₀.cursorY * 80 + t₀.cursorX + i) = (line)[i]
  behind : ∀ i, t.cursorY * 80 + t.cursorX ≤ i → t.charAt i = 32 ∨ t.charAt i = t₀.charAt i
  others : ∀ i, i < t₀.cursorY * 80 + t₀.cursorX ∨ (t₀.cursorY + 1) * 80 ≤ i → t.charAt i = t₀.charAt i

/-- The shell, if it is in its arrays, and the screen. -/
structure Desktop (ρ : Type) where
  shell : Option (Shell ρ)
  terminal : Terminal

variable {ρ : Type} (K : Commands ρ)

/-- A key: what the shell prints goes to the screen. -/
def keyStep (s : Desktop ρ) (c : UInt8) : Unit × Desktop ρ :=
  ((), match s.shell with
    | none => s
    | some e =>
      match shellStep K e c with
      | none => ⟨none, s.terminal⟩
      | some e' => ⟨some e', terminalWritestring s.terminal (e'.out.drop e.out.length)⟩)

/-- The screen shows the line that Enter would execute. -/
def Visible (t₀ : Terminal) (s : Desktop ρ) : Prop :=
  ∃ e line, s.shell = some e ∧ passedLine e = some line ∧ ShowsLine t₀ s.terminal line

/-- The line ends before column 80. -/
def WithinRow (t₀ : Terminal) (s : Desktop ρ) : Prop := ∀ e, s.shell = some e → t₀.cursorX + e.position < 80

/-! ### On the screen -/

variable {t₀ t : Terminal} {line : List UInt8} {c : UInt8}

theorem ShowsLine.start (t₀ : Terminal) : ShowsLine t₀ t₀ [] :=
  ⟨by simp, rfl, fun _ h => absurd h (Nat.not_lt_zero _), fun _ _ => .inr rfl, fun _ _ => rfl⟩

/-- One more character. -/
theorem ShowsLine.push (h : ShowsLine t₀ t line) (hc : Ordinary c) (hrow : t₀.cursorX + line.length + 1 < 80)
    (hy : t₀.cursorY < 25) : ShowsLine t₀ (putchar t c) (line ++ [c]) := by
  have hcol := h.cursorX
  have hline := h.cursorY
  have hput := putchar_ordinary (t := t) hc (by omega) (by omega)
  refine ⟨?_, hput.cursorY.trans hline, fun i hi => ?_, fun i hi => ?_, fun i hi => ?_⟩
  · rw [hput.cursorX, hcol, List.length_append, List.length_singleton, Nat.cast_add, Nat.cast_one]
    omega
  · rw [hput.charAt, hline, hcol]
    rw [List.length_append, List.length_singleton] at hi
    by_cases hlast : i = line.length
    · subst hlast
      rw [if_pos (by omega), List.getElem_concat_length rfl]
    · rw [if_neg (by omega), h.cells i (by omega), List.getElem_append_left]
  · rw [hput.cursorY, hput.cursorX] at hi
    rw [hput.charAt, if_neg (by omega)]
    exact h.behind i (by omega)
  · rw [hput.charAt, if_neg (by omega)]
    exact h.others i hi

/-- More characters. -/
theorem ShowsLine.append (h : ShowsLine t₀ t line) {s : List UInt8} (hs : ∀ c ∈ s, Ordinary c)
    (hrow : t₀.cursorX + (line ++ s).length < 80) (hy : t₀.cursorY < 25) :
    ShowsLine t₀ (terminalWritestring t s) (line ++ s) := by
  induction s generalizing t line with
  | nil => rwa [List.append_nil]
  | cons c s ih =>
    simp only [List.length_append, List.length_cons, Nat.cast_add, Nat.cast_one] at hrow
    have hfirst := h.push (hs c List.mem_cons_self) (by omega) hy
    have hrest := ih hfirst (fun d hd => hs d (List.mem_cons_of_mem c hd))
      (by simp only [List.length_append, List.length_singleton, Nat.cast_add, Nat.cast_one]; omega)
    rwa [List.append_assoc, List.singleton_append] at hrest

/-- Characters rubbed out. -/
theorem ShowsLine.erase (h : ShowsLine t₀ t line) {n : ℕ} (hn : n ≤ line.length) (hx : 0 ≤ t₀.cursorX)
    (hrow : t₀.cursorX + line.length < 80) (hy : t₀.cursorY < 25) :
    ShowsLine t₀ (terminalWritestring t (Kernel.erase n)) (line.take (line.length - n)) := by
  have hcol := h.cursorX
  have hline := h.cursorY
  obtain ⟨hcol', hline', hchars⟩ := erase_spec (t := t) (n := n) (by omega) (by omega) (by omega)
  have hlen : (line.take (line.length - n)).length = line.length - n := by
    rw [List.length_take]
    omega
  refine ⟨?_, hline'.trans hline, fun i hi => ?_, fun i hi => ?_, fun i hi => ?_⟩
  · rw [hcol', hcol, hlen]
    omega
  · rw [hlen] at hi
    rw [hchars, if_neg (by omega), h.cells i (by omega), List.getElem_take]
  · rw [hcol', hline'] at hi
    rw [hchars]
    split
    · exact .inl rfl
    · exact h.behind i (by omega)
  · rw [hchars, if_neg (by omega)]
    exact h.others i hi

/-! ### What a key prints -/

/-- The line and the lines stored are printable. -/
structure Clean (e : Shell ρ) (line : List UInt8) : Prop where
  line : ∀ c ∈ line, Printable c
  stored : ∀ s ∈ e.stored, ∀ c ∈ s, Printable c

variable {K} {e e' : Shell ρ}

/-- A line recalled takes the place of the one there is. -/
theorem Editing.recallPrints (h : Editing e line) (hcur : 0 ≤ e.currentHistory) :
    ∃ e' s, Kernel.recallHistory e = some e' ∧ Editing e' s ∧ s ∈ e.stored ∧
      e'.out = e.out ++ (Kernel.erase line.length ++ s) := by
  obtain ⟨s, input, -, hrecall, h'⟩ := h.recall hcur
  have hp := h.position
  have hnat : e.position.toNat = line.length := by omega
  have hstored := (h'.recalls (e.currentHistory, s) (List.mem_append_right _ (List.mem_singleton_self _))).2.2
  exact ⟨_, s, hrecall, h', hstored, by rw [← List.append_assoc, ← hnat]⟩

theorem completions_printable : ∀ command ∈ completions, ∀ c ∈ command, Printable c := by
  unfold Printable
  decide +kernel

/-- **What a key prints**: as many characters are rubbed out as are taken from the end of the line, and then those that
are put there are printed. -/
theorem Editing.keyPrints (h : Editing e line) (hclean : Clean e line) (hrun : e.running = true) (hc : c ≠ 13) :
    ∃ e' n s, shellStep K e c = some e' ∧ n ≤ line.length ∧ Editing e' (line.take (line.length - n) ++ s) ∧
      (∀ d ∈ s, Printable d) ∧ (K.echoEnabled e.rest = true → e'.out = e.out ++ (Kernel.erase n ++ s)) := by
  have hp := h.position
  have hnotRun : ¬ e.running = false := by simp [hrun]
  have hall : line.take (line.length - line.length) = [] := by rw [Nat.sub_self, List.take_zero]
  unfold shellStep
  rw [if_neg hnotRun, if_neg hc]
  split_ifs with h8 hup hdown h9 hins
  · obtain ⟨input, hstore, h'⟩ := h.backspace h8.2
    refine ⟨_, 1, [], by simp only [hstore, Option.bind_eq_bind, Option.bind_some]; rfl, by omega, ?_,
      List.forall_mem_nil _, fun _ => ?_⟩
    · rwa [List.append_nil]
    · rw [List.append_nil]
  · obtain ⟨hindex, h'⟩ := h.up hup.2
    obtain ⟨e', s, hrecall, hs, hstored, hout⟩ := h'.recallPrints hindex
    refine ⟨e', line.length, s, by rw [upArrow_eq, hrecall], le_rfl, ?_, hclean.stored s hstored, fun _ => hout⟩
    rwa [hall]
  · have hcurrent := h.current
    by_cases hlt : e.currentHistory < e.historyPos - 1
    · have h' := h.setCurrent (k := e.currentHistory + 1) (.inr ⟨by omega, by omega⟩)
      obtain ⟨e', s, hrecall, hs, hstored, hout⟩ := h'.recallPrints (by simp only; omega)
      refine ⟨e', line.length, s, by rw [Kernel.downArrow, if_pos hlt, hrecall], le_rfl, ?_, hclean.stored s hstored,
        fun _ => hout⟩
      rwa [hall]
    · obtain ⟨input, hleave, h'⟩ := h.leave hlt
      have hnat : e.position.toNat = line.length := by omega
      refine ⟨_, line.length, [], hleave, le_rfl, ?_, List.forall_mem_nil _, fun _ => by rw [List.append_nil, hnat]⟩
      rwa [hall]
  · obtain ⟨e', s, he', -, h', hout, hs⟩ := h.completes
    refine ⟨e', 0, s, he', Nat.zero_le _, ?_, fun d hd => ?_, fun _ => hout⟩
    · rwa [Nat.sub_zero, List.take_length]
    · rcases hs with rfl | hmem
      · cases hd
      · exact completions_printable _ hmem d (List.mem_append_right line hd)
  · have hne : c ≠ 0 := by
      rintro rfl
      exact absurd hins.2.1 (by decide)
    obtain ⟨input, out, hinsert, h'⟩ := h.push (K := K) hins.1 hne
    refine ⟨_, 0, [c], hinsert, Nat.zero_le _, ?_, ?_, fun hecho => ?_⟩
    · rwa [Nat.sub_zero, List.take_length]
    · intro d hd
      rw [List.mem_singleton.mp hd]
      exact hins.2
    · simp only [Kernel.insert, Option.bind_eq_bind, Option.bind_eq_some_iff] at hinsert
      obtain ⟨b, -, b', -, heq⟩ := hinsert
      have hout := congrArg Shell.out (Option.some.inj heq)
      rw [if_pos hecho] at hout
      exact hout.symm
  · refine ⟨e, 0, [], rfl, Nat.zero_le _, ?_, List.forall_mem_nil _, fun _ => (List.append_nil _).symm⟩
    rwa [Nat.sub_zero, List.take_length, List.append_nil]

/-! ### Any session -/

/-- A shell in its loop holds printable lines only. -/
def HoldsClean (e : Shell ρ) : Prop := e.running = true → ∃ line, Editing e line ∧ Clean e line

theorem HoldsClean.step (h : HoldsClean e) (he : shellStep K e c = some e') : HoldsClean e' := by
  intro hrun'
  by_cases hrun : e.running = true
  · obtain ⟨line, hediting, hclean⟩ := h hrun
    by_cases hc : c = 13
    · subst hc
      have hstep : shellStep K e 13 = enter K e := by simp [shellStep, hrun]
      obtain ⟨e₁, he₁, -, hrunning, hediting', hstored⟩ := hediting.enters (K := K)
      rw [hstep, he₁] at he
      cases he
      have hgo : line ≠ ascii ['e', 'x', 'i', 't'] := by
        intro hexit
        rw [hrunning, if_pos hexit] at hrun'
        cases hrun'
      refine ⟨[], hediting' hgo, List.forall_mem_nil _, fun s hs => ?_⟩
      rcases hstored with heq | heq <;> rw [heq] at hs
      · exact hclean.stored s hs
      · rcases List.mem_append.mp hs with hs | hs
        · exact hclean.stored s hs
        · rw [List.mem_singleton.mp hs]
          exact hclean.line
    · obtain ⟨e₁, n, s, he₁, -, hediting', hs, -⟩ := hediting.keyPrints (K := K) hclean hrun hc
      have hedited := shellStep_edited hc he₁
      rw [he₁] at he
      cases he
      refine ⟨_, hediting', fun d hd => ?_, by rw [hedited.stored]; exact hclean.stored⟩
      exact (List.mem_append.mp hd).elim (fun hd => hclean.line d (List.mem_of_mem_take hd)) (hs d)
  · rw [Bool.not_eq_true] at hrun
    rw [shellStep, if_pos hrun] at he
    cases he
    rw [hrun] at hrun'
    cases hrun'

theorem session_holdsClean {rest : ρ} {stack : Fin 127 → UInt8} {chars : List UInt8}
    (hsession : chars.foldlM (shellStep K) (Shell.start rest stack) = some e) : HoldsClean e := by
  have hstart : HoldsClean (Shell.start rest stack) := fun _ =>
    ⟨[], start_editing rest stack, List.forall_mem_nil _, List.forall_mem_nil _⟩
  generalize Shell.start rest stack = e₀ at hsession hstart
  induction chars generalizing e₀ with
  | nil =>
    cases hsession
    exact hstart
  | cons c chars ih =>
    obtain ⟨e₁, he₁, hsession⟩ := Option.bind_eq_some_iff.mp hsession
    exact ih e₁ hsession (hstart.step he₁)

/-! ### The line, key by key -/

/-- The shell is in its loop and echoes, and the screen shows its line. -/
structure OnDesk (K : Commands ρ) (t₀ : Terminal) (s : Desktop ρ) (e : Shell ρ) (line : List UInt8) : Prop where
  shell : s.shell = some e
  editing : Editing e line
  clean : Clean e line
  running : e.running = true
  echo : K.echoEnabled e.rest = true
  shows : ShowsLine t₀ s.terminal line

variable {s : Desktop ρ}

theorem OnDesk.visible (h : OnDesk K t₀ s e line) : Visible t₀ s :=
  ⟨e, line, h.shell, h.editing.passedLine, h.shows⟩

/-- **A key**, when the line ends before column 80 before it and after it. -/
theorem OnDesk.step (h : OnDesk K t₀ s e line) (hy : t₀.cursorY < 25) (hx : 0 ≤ t₀.cursorX) (hwithin : WithinRow t₀ s)
    (hc : c ≠ 13) (hwithin' : WithinRow t₀ (keyStep K s c).2) : ∃ e' line', OnDesk K t₀ (keyStep K s c).2 e' line' := by
  obtain ⟨e', n, added, he', hn, hediting', hadded, hout⟩ := h.editing.keyPrints (K := K) h.clean h.running hc
  have hedited := shellStep_edited hc he'
  have hstep : (keyStep K s c).2 = ⟨some e', terminalWritestring s.terminal (Kernel.erase n ++ added)⟩ := by
    simp only [keyStep, h.shell, he', hout h.echo, List.drop_left]
  have hfits : t₀.cursorX + line.length < 80 := by
    rw [← h.editing.position]
    exact hwithin e h.shell
  have hfits' : t₀.cursorX + (line.take (line.length - n) ++ added).length < 80 := by
    rw [← hediting'.position]
    exact hwithin' e' (by rw [hstep])
  have hshows : ShowsLine t₀ (terminalWritestring s.terminal (Kernel.erase n ++ added))
      (line.take (line.length - n) ++ added) := by
    rw [terminalWritestring, List.foldl_append]
    exact (h.shows.erase hn hx hfits hy).append (fun d hd => (hadded d hd).ordinary) hfits' hy
  rw [hstep]
  refine ⟨e', _, rfl, hediting', ⟨fun d hd => ?_, ?_⟩, hedited.running.trans h.running, ?_, hshows⟩
  · exact (List.mem_append.mp hd).elim (fun hd => h.clean.line d (List.mem_of_mem_take hd)) (hadded d)
  · rw [hedited.stored]
    exact h.clean.stored
  · rw [hedited.rest]
    exact h.echo

/-- **Any keys**, as long as the line ends before column 80. -/
theorem OnDesk.run (h : OnDesk K t₀ s e line) (hy : t₀.cursorY < 25) (hx : 0 ≤ t₀.cursorX) {keys : List UInt8}
    (hkeys : 13 ∉ keys) (hwithin : ∀ n, WithinRow t₀ (run (keyStep K) s (keys.take n)).2) (n : ℕ) :
    Visible t₀ (run (keyStep K) s (keys.take n)).2 := by
  induction keys generalizing s e line n with
  | nil =>
    rw [List.take_nil]
    exact h.visible
  | cons c keys ih =>
    cases n with
    | zero => exact h.visible
    | succ n =>
      rw [List.mem_cons, not_or] at hkeys
      obtain ⟨e', line', h'⟩ := h.step hy hx (hwithin 0) (Ne.symm hkeys.1) (hwithin 1)
      exact ih h' hkeys.2 (fun n => hwithin (n + 1)) n

/-- The shell is in its arrays, and the cursor on the screen. -/
def InBounds (s : Desktop ρ) : Prop := s.terminal.OnScreen ∧ ∃ e line, s.shell = some e ∧ Editing e line

theorem InBounds.step (h : InBounds s) (c : UInt8) : InBounds (keyStep K s c).2 := by
  obtain ⟨hscreen, e, line, hshell, hediting⟩ := h
  obtain ⟨e', line', he', hediting'⟩ := hediting.step (K := K) c
  simp only [InBounds, keyStep, hshell, he']
  exact ⟨(hscreen.writestring _).1, e', line', rfl, hediting'⟩

/-- What is shown ends where the cursor is. -/
theorem Visible.withinRow (h : Visible t₀ s) (hbounds : InBounds s) : WithinRow t₀ s := by
  obtain ⟨e, line, hshell, hpassed, hshows⟩ := h
  obtain ⟨hscreen, e₁, line₁, hshell₁, hediting⟩ := hbounds
  rw [hshell] at hshell₁
  cases hshell₁
  rw [hediting.passedLine] at hpassed
  cases hpassed
  intro e₂ hshell₂
  rw [hshell] at hshell₂
  cases hshell₂
  rw [hediting.position, ← hshows.cursorX]
  exact hscreen.col_lt

/-- **When the line is on the screen**: at every moment of any line of any session, just when at every moment it ends
before column 80. -/
theorem visible_iff (K : Commands ρ) {rest : ρ} {stack : Fin 127 → UInt8} {chars : List UInt8} {e : Shell ρ}
    (hsession : chars.foldlM (shellStep K) (Shell.start rest stack) = some e) (hstart : AtLineStart chars)
    (hrun : e.running = true) (hecho : K.echoEnabled e.rest = true) {t : Terminal} (ht : t.OnScreen)
    {keys : List UInt8} (hkeys : 13 ∉ keys) :
    (∀ n, Visible t (run (keyStep K) ⟨some e, t⟩ (keys.take n)).2) ↔
      ∀ n, WithinRow t (run (keyStep K) ⟨some e, t⟩ (keys.take n)).2 := by
  obtain ⟨hediting, -⟩ := lineStart_editing hsession hstart hrun
  constructor
  · intro hvisible n
    refine (hvisible n).withinRow (run_inv' (I := InBounds) (fun _ c hs => hs.step c) ?_ _)
    exact ⟨ht, e, [], rfl, hediting⟩
  · obtain ⟨line, hediting', hclean⟩ := session_holdsClean hsession hrun
    have hdesk : OnDesk K t ⟨some e, t⟩ e [] :=
      ⟨rfl, hediting, ⟨List.forall_mem_nil _, hclean.stored⟩, hrun, hecho, .start t⟩
    exact fun hwithin n => hdesk.run ht.row_lt ht.col_nonneg hkeys hwithin n

/-- `l`, `s` and the backspace, after the prompt. -/
theorem visible_small :
    Visible (.empty 14 3) (run (keyStep noCommands) ⟨some (Shell.start () fun _ => 0), .empty 14 3⟩
      [108, 115, 8]).2 := by
  have hpositions : ∀ m ≤ 3, ((run (keyStep noCommands) ⟨some (Shell.start () fun _ => 0), .empty 14 3⟩
      (List.take m [108, 115, 8])).2.shell.map Shell.position).getD 0 < 66 := by decide +kernel
  have hwithin : ∀ n, WithinRow (.empty 14 3) (run (keyStep noCommands)
      ⟨some (Shell.start () fun _ => 0), .empty 14 3⟩ (List.take n [108, 115, 8])).2 := by
    intro m e he
    have hfirst : List.take m [108, 115, 8] = List.take (min m 3) ([108, 115, 8] : List UInt8) := by
      rw [List.take_eq_take_iff]
      simp
    have hposition := hpositions (min m 3) (min_le_right m 3)
    rw [hfirst] at he
    rw [he, Option.map_some, Option.getD_some] at hposition
    show (14 : ℤ) + e.position < 80
    omega
  have hsession : ([] : List UInt8).foldlM (shellStep noCommands) (Shell.start () fun _ => 0) = some _ := rfl
  have hlast := (visible_iff noCommands hsession (.inl rfl) rfl rfl (empty_onScreen (by decide) (by decide))
    (by decide)).mpr hwithin 3
  rwa [List.take_of_length_le (by simp)] at hlast

end Basedos.Kernel
