import Basedos.Kernel.LineEditor
import Basedos.Lib.Run

/-!
# The line editor's invariant

In every state of the input loop `input` holds a line of at most 126 characters and
`position` is its length; the entries of the history below `history_pos` hold commands
that were stored, and `current_history` is one of them or `-1` (`Editing`). Every key
keeps this and stays inside the arrays (`Editing.step`), so any session does
(`line_editor`).

Tab completes to the first command the line is the beginning of. Whatever else has that
command as its beginning has the line as its beginning too and comes later, so a second
Tab finds the same command (`complete_spec`).
-/

namespace Basedos.Kernel

open Basedos.Lib Basedos.CLib

variable {ρ : Type} {K : Commands ρ} {e : Shell ρ} {line : List UInt8}

/-! ### The invariant -/

/-- The line, and the history below its position. -/
structure Keeps (e : Shell ρ) (line : List UInt8) : Prop where
  holds : Holds e.input line
  size : e.input.length = 128
  position : e.position = line.length
  short : line.length ≤ 126
  nonneg : 0 ≤ e.historyPos
  le : e.historyPos ≤ 9
  rowSize : ∀ k, (e.history k).length = 128
  row : ∀ k : Fin 10, (k.val : ℤ) < e.historyPos →
    ∃ s, Holds (e.history k) s ∧ s.length ≤ 126 ∧ s ≠ [] ∧ s ∈ e.stored
  recalls : ∀ r ∈ e.recalls, (0 ≤ r.1 ∧ r.1 ≤ 9) ∧ r.2 ≠ [] ∧ r.2 ∈ e.stored

/-- The same, with the entry recalled last. -/
structure Editing (e : Shell ρ) (line : List UInt8) : Prop extends Keeps e line where
  current : e.currentHistory = -1 ∨ 0 ≤ e.currentHistory ∧ e.currentHistory < e.historyPos

theorem historyIndex_of_lt {k : ℤ} (h₀ : 0 ≤ k) (h₁ : k < 10) : historyIndex k = some ⟨k.toNat, by omega⟩ :=
  dif_pos ⟨h₀, h₁⟩

theorem start_editing (rest : ρ) (stack : Fin 127 → UInt8) : Editing (Shell.start rest stack) [] where
  holds := ⟨by simp, List.ofFn stack, rfl⟩
  size := by rw [Shell.start, List.length_cons, List.length_ofFn]
  position := rfl
  short := by simp
  nonneg := le_rfl
  le := Int.zero_le_ofNat 9
  rowSize _ := List.length_replicate
  row k hk := absurd hk (Int.not_lt.mpr (Int.natCast_nonneg k.val))
  recalls _ hr := absurd hr List.not_mem_nil
  current := .inl rfl

/-- The entry `k`, below the position, is read from the history. -/
theorem Keeps.read (h : Keeps e line) {k : ℤ} (h₀ : 0 ≤ k) (h₁ : k < e.historyPos) :
    ∃ j s, historyIndex k = some j ∧ stringIn (e.history j) = some s ∧ 0 ∉ s ∧ s.length ≤ 126 ∧ s ≠ [] ∧
      s ∈ e.stored := by
  have hle := h.le
  have hj := historyIndex_of_lt h₀ (by omega)
  obtain ⟨s, hs, hlen, hne, hmem⟩ := h.row ⟨k.toNat, by omega⟩ (by simp only; omega)
  exact ⟨_, s, hj, hs.stringIn, hs.noNul, hlen, hne, hmem⟩

/-! ### The history -/

/-- A line stored; if the position wraps round, no entry is below it. -/
theorem Keeps.storeHistory (h : Keeps e line) {cmd : List UInt8} (h0 : 0 ∉ cmd) (hlen : cmd.length ≤ 126)
    (hne : cmd ≠ []) : ∃ e', storeHistory e cmd = some e' ∧ Keeps e' line := by
  have hnonneg := h.nonneg
  have hle := h.le
  have hk := historyIndex_of_lt h.nonneg (show e.historyPos < 10 by omega)
  obtain ⟨row, hrow, hholds, hsize⟩ :=
    strcpyAt_zero (b := e.history ⟨e.historyPos.toNat, by omega⟩) h0 (by rw [h.rowSize]; omega)
  refine ⟨_, by simp only [Kernel.storeHistory, hk, hrow, Option.bind_eq_bind, Option.bind_some]; rfl, ?_⟩
  have hmod : (e.historyPos + 1) % (HISTORY_SIZE : ℤ) = if e.historyPos = 9 then 0 else e.historyPos + 1 := by
    have h10 : (HISTORY_SIZE : ℤ) = 10 := rfl
    rw [h10]
    split <;> omega
  refine ⟨h.holds, h.size, h.position, h.short, ?_, ?_, fun k => ?_, fun k hk => ?_, fun r hr => ?_⟩
  · simp only [hmod]; split <;> omega
  · simp only [hmod]; split <;> omega
  · simp only
    by_cases hkp : k = ⟨e.historyPos.toNat, by omega⟩
    · rw [hkp, Function.update_self, hsize, h.rowSize]
    · rw [Function.update_of_ne hkp, h.rowSize]
  · simp only [hmod] at hk ⊢
    by_cases hkp : k = ⟨e.historyPos.toNat, by omega⟩
    · rw [hkp, Function.update_self]
      exact ⟨cmd, hholds, hlen, hne, by simp⟩
    · rw [Function.update_of_ne hkp]
      have hkp' : k.val ≠ e.historyPos.toNat := fun hv => hkp (Fin.ext hv)
      obtain ⟨s, hs, hs', hs'', hmem⟩ := h.row k (by split at hk <;> omega)
      exact ⟨s, hs, hs', hs'', List.mem_append_left _ hmem⟩
  · obtain ⟨hk, hne', hmem⟩ := h.recalls r hr
    exact ⟨hk, hne', List.mem_append_left _ hmem⟩

theorem Keeps.addToHistory (h : Keeps e line) {cmd : List UInt8} (h0 : 0 ∉ cmd) (hlen : cmd.length ≤ 126) :
    ∃ e', addToHistory e cmd = some e' ∧ Keeps e' line := by
  unfold Kernel.addToHistory
  split_ifs with hempty hpos
  · exact ⟨e, rfl, h⟩
  · obtain ⟨j, s, hj, hs, -⟩ := h.read (k := e.historyPos - 1) (by omega) (by omega)
    simp only [hj, hs, Option.bind_eq_bind, Option.bind_some]
    split_ifs
    · exact ⟨e, rfl, h⟩
    · exact h.storeHistory h0 hlen (by simpa using hempty)
  · exact h.storeHistory h0 hlen (by simpa using hempty)

/-- The entry `k` of the history, as it is read back. -/
def recalled (e : Shell ρ) (k : ℤ) : Option (List UInt8) := (historyIndex k).bind fun j => stringIn (e.history j)

/-- The line replaced by an entry of the history. -/
theorem Editing.recall (h : Editing e line) (hcur : 0 ≤ e.currentHistory) :
    ∃ s input, recalled e e.currentHistory = some s ∧ Kernel.recallHistory e = some { e with
        input
        position := s.length
        out := e.out ++ erase e.position.toNat ++ s
        recalls := e.recalls ++ [(e.currentHistory, s)] } ∧
      Editing { e with
        input
        position := s.length
        out := e.out ++ erase e.position.toNat ++ s
        recalls := e.recalls ++ [(e.currentHistory, s)] } s := by
  have hlt : e.currentHistory < e.historyPos := h.current.elim (fun h => by omega) fun h => h.2
  obtain ⟨j, s, hj, hs, h0, hlen, hne, hmem⟩ := h.read hcur hlt
  obtain ⟨input, hcopy, hholds, hsize⟩ := strcpyAt_zero (b := e.input) h0 (by rw [h.size]; omega)
  refine ⟨s, input, by rw [recalled, hj]; exact hs, ?_, ⟨⟨hholds, by rw [hsize, h.size], rfl, hlen, h.nonneg,
    h.le, h.rowSize, h.row, fun r hr => ?_⟩, h.current⟩⟩
  · simp only [Kernel.recallHistory, hj, hs, hcopy, hholds.stringIn, Option.bind_eq_bind, Option.bind_some]
  · rw [List.mem_append, List.mem_singleton] at hr
    rcases hr with hr | rfl
    · exact h.recalls r hr
    · have := h.le
      exact ⟨⟨hcur, by simp only; omega⟩, hne, hmem⟩

theorem Editing.recallHistory (h : Editing e line) (hcur : 0 ≤ e.currentHistory) :
    ∃ e' line', recallHistory e = some e' ∧ Editing e' line' := by
  obtain ⟨s, input, -, hrecall, h'⟩ := h.recall hcur
  exact ⟨_, s, hrecall, h'⟩

/-! ### The keys -/

/-- A key that changes only the line, its length and what is printed. -/
theorem Editing.setLine (h : Editing e line) {input s : List UInt8} (hs : Holds input s)
    (hsize : input.length = e.input.length) (hlen : s.length ≤ 126) {position : ℤ}
    (hpos : position = s.length) (out : List UInt8) :
    Editing { e with input, position, out } s :=
  ⟨⟨hs, hsize.trans h.size, hpos, hlen, h.nonneg, h.le, h.rowSize, h.row, h.recalls⟩, h.current⟩

/-- A key that only changes which entry is recalled. -/
theorem Editing.setCurrent (h : Editing e line) {k : ℤ} (hk : k = -1 ∨ 0 ≤ k ∧ k < e.historyPos) :
    Editing { e with currentHistory := k } line :=
  ⟨⟨h.holds, h.size, h.position, h.short, h.nonneg, h.le, h.rowSize, h.row, h.recalls⟩, hk⟩

/-- The entry that Up goes to. -/
def upIndex (e : Shell ρ) : ℤ :=
  if e.currentHistory = -1 then e.historyPos - 1
  else if e.currentHistory > 0 then e.currentHistory - 1
  else e.currentHistory

theorem upArrow_eq (e : Shell ρ) : Kernel.upArrow e = Kernel.recallHistory { e with currentHistory := upIndex e } := by
  unfold Kernel.upArrow upIndex
  split_ifs <;> rfl

/-- Up goes to an entry. -/
theorem Editing.up (h : Editing e line) (hpos : e.historyPos > 0) :
    0 ≤ upIndex e ∧ Editing { e with currentHistory := upIndex e } line := by
  have := h.current
  have hindex : 0 ≤ upIndex e ∧ upIndex e < e.historyPos := by
    unfold upIndex
    split_ifs <;> omega
  exact ⟨hindex.1, h.setCurrent (.inr hindex)⟩

theorem Editing.upArrow (h : Editing e line) (hpos : e.historyPos > 0) :
    ∃ e' line', upArrow e = some e' ∧ Editing e' line' := by
  obtain ⟨hindex, h'⟩ := h.up hpos
  rw [upArrow_eq]
  exact h'.recallHistory hindex

/-- Down, past the last entry: an empty line. -/
theorem Editing.leave (h : Editing e line) (hlast : ¬ e.currentHistory < e.historyPos - 1) :
    ∃ input, Kernel.downArrow e = some { e with
        input, currentHistory := -1, position := 0, out := e.out ++ erase e.position.toNat } ∧
      Editing { e with input, currentHistory := -1, position := 0, out := e.out ++ erase e.position.toNat } [] := by
  obtain ⟨input, hstore, hs, hsize⟩ := h.holds.cut (Nat.zero_le _)
  rw [Nat.cast_zero] at hstore
  refine ⟨input, ?_, (h.setLine hs hsize (by simp) rfl _).setCurrent (.inl rfl)⟩
  rw [Kernel.downArrow, if_neg hlast]
  simp only [hstore, Option.bind_eq_bind, Option.bind_some]

theorem Editing.downArrow (h : Editing e line) : ∃ e' line', downArrow e = some e' ∧ Editing e' line' := by
  have := h.current
  by_cases hlt : e.currentHistory < e.historyPos - 1
  · rw [Kernel.downArrow, if_pos hlt]
    exact (h.setCurrent (.inr ⟨by omega, by omega⟩)).recallHistory (by simp only; omega)
  · obtain ⟨input, hleave, h'⟩ := h.leave hlt
    exact ⟨_, [], hleave, h'⟩

/-- A character put at the end of the line. -/
theorem Editing.push (h : Editing e line) {c : UInt8} (hpos : e.position < MAX_INPUT - 2) (hc : c ≠ 0) :
    ∃ input out, Kernel.insert K e c = some { e with input, position := e.position + 1, out } ∧
      Editing { e with input, position := e.position + 1, out } (line ++ [c]) := by
  have hmax : (MAX_INPUT : ℤ) = 128 := rfl
  have hp := h.position
  obtain ⟨b₁, b₂, h₁, h₂, hs, hsize⟩ := h.holds.push hc (by rw [h.size]; omega)
  rw [← hp] at h₁ h₂
  refine ⟨b₂, if K.echoEnabled e.rest then e.out ++ [c] else e.out, ?_, ?_⟩
  · simp only [Kernel.insert, h₁, h₂, Option.bind_eq_bind, Option.bind_some]
  · exact h.setLine hs hsize (by simp; omega) (by simp [hp]) _

theorem Editing.insert (h : Editing e line) {c : UInt8} (hpos : e.position < MAX_INPUT - 2) (hc : c ≠ 0) :
    ∃ e' line', insert K e c = some e' ∧ Editing e' line' := by
  obtain ⟨input, out, hinsert, h'⟩ := h.push (K := K) hpos hc
  exact ⟨_, line ++ [c], hinsert, h'⟩

theorem Editing.backspace (h : Editing e line) (hpos : e.position > 0) :
    ∃ input, store e.input (e.position - 1) 0 = some input ∧
      Editing { e with input, position := e.position - 1, out := e.out ++ erase 1 } (line.take (line.length - 1)) := by
  have hp := h.position
  obtain ⟨input, hstore, hs, hsize⟩ := h.holds.cut (Nat.sub_le line.length 1)
  have hcast : ((line.length - 1 : ℕ) : ℤ) = e.position - 1 := by omega
  rw [hcast] at hstore
  have := h.short
  exact ⟨input, hstore, h.setLine hs hsize (by simp; omega) (by simp; omega) _⟩

theorem Editing.newLine (h : Editing e line) : ∃ e', newLine e = some e' ∧ Editing e' [] := by
  obtain ⟨input, hstore, hs, hsize⟩ := h.holds.cut (Nat.zero_le _)
  rw [Nat.cast_zero] at hstore
  refine ⟨_, by simp only [Kernel.newLine, hstore, Option.bind_eq_bind, Option.bind_some]; rfl, ?_⟩
  exact h.setLine hs hsize (by simp) rfl _

/-- After a line: no entry is recalled, whatever the command has done. -/
theorem Keeps.reset (h : Keeps e line) (rest : ρ) (running : Bool) :
    Editing { e with rest, running, currentHistory := -1 } line :=
  ⟨⟨h.holds, h.size, h.position, h.short, h.nonneg, h.le, h.rowSize, h.row, h.recalls⟩, .inl rfl⟩

theorem Editing.enter (h : Editing e line) : ∃ e' line', enter K e = some e' ∧ Editing e' line' := by
  obtain ⟨input, hstore, hs, hsize⟩ := h.holds.cut le_rfl
  rw [List.take_length] at hs
  rw [← h.position] at hstore
  obtain ⟨e₁, hadd, h₁⟩ := (h.setLine hs hsize h.short h.position (e.out ++ [10])).addToHistory hs.noNul h.short
  simp only [Kernel.enter, hstore, hs.stringIn, hadd, Option.bind_eq_bind, Option.bind_some]
  split_ifs
  · exact ⟨_, line, rfl, h₁.reset _ false⟩
  · exact ⟨_, line, rfl, h₁.reset _ false⟩
  · obtain ⟨e', he', h'⟩ := (h₁.reset e₁.rest e₁.running).newLine
    exact ⟨e', [], he', h'⟩
  · obtain ⟨e', he', h'⟩ := (h₁.reset (K.execute e₁.rest line) e₁.running).newLine
    exact ⟨e', [], he', h'⟩

/-! ### Completion -/

theorem completions_noNul : ∀ command ∈ completions, 0 ∉ command := by decide

theorem completions_short : ∀ command ∈ completions, command.length ≤ 126 := by decide

/-- The command the line is completed to: the first it is the beginning of. -/
def completionOf (line : List UInt8) : Option (List UInt8) :=
  completions.find? fun command => strncmp line command line.length = 0

theorem strncmp_completion {command : List UInt8} (hline : 0 ∉ line) (hc : command ∈ completions) :
    strncmp line command line.length = 0 ↔ line <+: command := by
  rw [strncmp_eq_zero_iff hline (completions_noNul command hc) le_rfl, List.take_length]

theorem completionOf_some {command : List UInt8} (hline : 0 ∉ line) (h : completionOf line = some command) :
    command ∈ completions ∧ line <+: command := by
  have hmem := List.mem_of_find?_eq_some h
  have hp := List.find?_some h
  exact ⟨hmem, (strncmp_completion hline hmem).mp (by simpa using hp)⟩

/-- A completed line is completed to itself: the commands before it do not begin with the line,
so they do not begin with it. -/
theorem completionOf_completion {command : List UInt8} (hline : 0 ∉ line)
    (h : completionOf line = some command) : completionOf command = some command := by
  obtain ⟨hmem, hbegins⟩ := completionOf_some hline h
  have hcommand := completions_noNul command hmem
  obtain ⟨-, before, after, heq, hbefore⟩ := List.find?_eq_some_iff_append.mp h
  refine List.find?_eq_some_iff_append.mpr ⟨?_, before, after, heq, fun other hother => ?_⟩
  · simpa using (strncmp_completion hcommand hmem).mpr (List.prefix_refl command)
  · have hmem' : other ∈ completions := by rw [heq]; exact List.mem_append_left _ hother
    have hno := hbefore other hother
    simp only [Bool.not_eq_true', decide_eq_false_iff_not, strncmp_completion hline hmem',
      strncmp_completion hcommand hmem'] at hno ⊢
    exact fun hp => hno (hbegins.trans hp)

theorem Editing.find_completion (h : Editing e line) :
    (completions.find? fun command => strncmp line command e.position.toNat = 0) = completionOf line := by
  have hp := h.position
  have hnat : e.position.toNat = line.length := by omega
  rw [hnat, completionOf]

theorem Editing.complete_none (h : Editing e line) (hc : completionOf line = none) :
    Kernel.complete e = some e := by
  unfold Kernel.complete
  split
  · rw [h.holds.stringIn]
    simp only [Option.bind_eq_bind, Option.bind_some, h.find_completion, hc]
  · rfl

theorem Editing.complete_some (h : Editing e line) (hpos : e.position > 0) {command : List UInt8}
    (hc : completionOf line = some command) : Kernel.complete e = completeWith e command := by
  rw [Kernel.complete, if_pos hpos, h.holds.stringIn]
  simp only [Option.bind_eq_bind, Option.bind_some, h.find_completion, hc]

/-- **Tab**: the line stays or becomes a command it is the beginning of, and a second Tab changes
nothing. -/
theorem Editing.complete (h : Editing e line) :
    ∃ e' line', complete e = some e' ∧ Editing e' line' ∧
      (line' = line ∨ line' ∈ completions ∧ line <+: line') ∧ Kernel.complete e' = some e' := by
  by_cases hpos : e.position > 0
  · have hp := h.position
    cases hc : completionOf line with
    | none =>
      have heq := h.complete_none hc
      exact ⟨e, line, heq, h, .inl rfl, heq⟩
    | some command =>
      have heq := h.complete_some hpos hc
      obtain ⟨hmem, t, rfl⟩ := completionOf_some h.holds.noNul hc
      have hshort := completions_short _ hmem
      have h0 := completions_noNul _ hmem
      have hnat : e.position.toNat = line.length := by omega
      obtain ⟨input, hcopy, hs, hsize⟩ := h.holds.strcat (t := t) (fun ht => h0 (List.mem_append_right _ ht))
        (by rw [h.size]; simp at hshort; omega)
      have hwith : completeWith e (line ++ t) = some { e with
          input, position := ((line ++ t).length : ℤ), out := e.out ++ t } := by
        rw [completeWith, if_neg (by simp; omega), hnat, List.drop_left, hp, hcopy]
        simp only [Option.bind_eq_bind, Option.bind_some, hs.stringIn, List.drop_left]
        rw [max_eq_right (by simp)]
      have h' := h.setLine hs hsize hshort rfl (e.out ++ t)
      refine ⟨_, line ++ t, heq.trans hwith, h', .inr ⟨hmem, List.prefix_append line t⟩, ?_⟩
      rw [h'.complete_some (by simp; omega) (completionOf_completion h.holds.noNul hc)]
      simp only [completeWith, gt_iff_lt, lt_irrefl, if_false, Int.toNat_natCast, List.drop_length,
        hs.strcat_nil, Option.bind_eq_bind, Option.bind_some, hs.stringIn, max_self, List.append_nil]
  · have heq : Kernel.complete e = some e := by rw [Kernel.complete, if_neg hpos]
    exact ⟨e, line, heq, h, .inl rfl, heq⟩

/-! ### Any session -/

/-- **One character.** -/
theorem Editing.step (h : Editing e line) (c : UInt8) :
    ∃ e' line', shellStep K e c = some e' ∧ Editing e' line' := by
  unfold shellStep
  split_ifs with hrun h13 h8 hup hdown h9 hins
  · exact ⟨e, line, rfl, h⟩
  · exact h.enter
  · obtain ⟨input, hstore, h'⟩ := h.backspace h8.2
    exact ⟨_, _, by simp only [hstore, Option.bind_eq_bind, Option.bind_some], h'⟩
  · exact h.upArrow hup.2
  · exact h.downArrow
  · obtain ⟨e', line', he', h', -⟩ := h.complete
    exact ⟨e', line', he', h'⟩
  · refine h.insert hins.1 ?_
    rintro rfl
    exact absurd hins.2.1 (by decide)
  · exact ⟨e, line, rfl, h⟩

theorem Editing.run (h : Editing e line) (chars : List UInt8) :
    ∃ e', chars.foldlM (shellStep K) e = some e' ∧ ∃ line', Editing e' line' := by
  apply foldlM_inv (I := fun e => ∃ line, Editing e line)
  · rintro e c - ⟨line, h⟩
    obtain ⟨e', line', he', h'⟩ := h.step (K := K) c
    exact ⟨e', he', line', h'⟩
  · exact ⟨line, h⟩

/-- Tab in a running shell. -/
theorem shellStep_tab (h : Editing e line) : ∃ e' line', shellStep K e 9 = some e' ∧ Editing e' line' ∧
    (line' = line ∨ line' ∈ completions ∧ line <+: line') ∧ shellStep K e' 9 = some e' := by
  have htab : ∀ e : Shell ρ, shellStep K e 9 = if e.running = false then some e else Kernel.complete e := by
    intro e
    simp [shellStep]
  by_cases hrun : e.running = false
  · have hsame : shellStep K e 9 = some e := by rw [htab, if_pos hrun]
    exact ⟨e, line, hsame, h, .inl rfl, hsame⟩
  · obtain ⟨e', line', he', h', hline, hagain⟩ := h.complete
    refine ⟨e', line', by rw [htab, if_neg hrun, he'], h', hline, ?_⟩
    rw [htab, hagain, ite_self]

/-- **The line editor**: after any sequence of characters, over any number of lines, with anything
done by the commands executed. -/
theorem line_editor (K : Commands ρ) (rest : ρ) (stack : Fin 127 → UInt8) (chars : List UInt8) :
    ∃ e line, chars.foldlM (shellStep K) (Shell.start rest stack) = some e ∧
      (0 ≤ e.position ∧ e.position ≤ 126) ∧
      (e.input.length = 128 ∧ e.input[e.position.toNat]? = some 0 ∧
        ∀ i : ℕ, i < e.position → e.input[i]? ≠ some 0) ∧
      (e.currentHistory = -1 ∨ 0 ≤ e.currentHistory ∧ e.currentHistory ≤ e.historyPos - 1) ∧
      (∀ r ∈ e.recalls, (0 ≤ r.1 ∧ r.1 ≤ 9) ∧ r.2 ≠ [] ∧ r.2 ∈ e.stored) ∧
      stringIn e.input = some line ∧
      ∃ e' line', shellStep K e 9 = some e' ∧ stringIn e'.input = some line' ∧
        (line' = line ∨ line' ∈ completions ∧ line <+: line') ∧ shellStep K e' 9 = some e' := by
  obtain ⟨e, hrun, line, h⟩ := (start_editing rest stack).run (K := K) chars
  obtain ⟨e', line', htab, h', hline, htab'⟩ := shellStep_tab (K := K) h
  have hp := h.position
  have hshort := h.short
  have hnat : e.position.toNat = line.length := by omega
  obtain ⟨hnul, hbefore⟩ := h.holds.getElem?
  refine ⟨e, line, hrun, by omega, ⟨h.size, by rw [hnat]; exact hnul, fun i hi => hbefore i (by omega)⟩,
    h.current.imp_right fun hc => by omega, h.recalls, h.holds.stringIn, e', line', htab,
    h'.holds.stringIn, hline, htab'⟩

end Basedos.Kernel
