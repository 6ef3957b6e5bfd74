import Basedos.Kernel.Editing
import Basedos.Lib.Run

/-!
# What is typed

The keys on a line being typed. A printable character is to go to the end of the line and the backspace
to take the last one away, and Enter is to pass on what there is then. But `H` is taken for Up as soon as
there is a history, and `P` for Down while an entry of it is shown: the line is replaced.

## What is proved

* `Editing.pressUp`, `Editing.pressDown`, `Editing.pressLeave`, `Editing.pressLetter`, `Editing.pressBack` —
  **what each key does**, and that it changes nothing but the line and the entry shown.
* `lineStart_editing` — the state in which a line is begun, in any session.
* `typed_iff` — **exactly when** what is typed is what is passed on: when every `H` and `P` typed there
  recalls, if anything, the line with that letter at its end.
-/

namespace Basedos.Kernel

open Basedos.Lib Basedos.CLib

variable {ρ : Type} (K : Commands ρ) {e e' : Shell ρ} {line : List UInt8} {c : UInt8}

/-! ### What is asked -/

/-- A character typed: put at the end of the line, or the last one taken away. -/
def typeChar (line : List UInt8) (c : UInt8) : List UInt8 := if c = 8 then line.dropLast else line ++ [c]

/-- The printable characters and the backspace. -/
def Typeable (c : UInt8) : Prop := c = 8 ∨ 32 ≤ c ∧ c ≤ 126

/-- The line that Enter passes to `execute_command`. -/
def passedLine (e : Shell ρ) : Option (List UInt8) := (store e.input e.position 0).bind stringIn

/-- A line as it is to be, and the shell; `none` for a shell that has left its arrays. -/
structure Typing (ρ : Type) where
  /-- The characters applied in their order. -/
  line : List UInt8
  /-- The shell. -/
  shell : Option (Shell ρ)

/-- A character typed. -/
def typeStep (s : Typing ρ) (c : UInt8) : Unit × Typing ρ :=
  ((), ⟨typeChar s.line c, s.shell.bind fun e => shellStep K e c⟩)

/-- Enter now passes on what was typed. -/
def PassesTyped (s : Typing ρ) : Prop := ∃ e, s.shell = some e ∧ passedLine e = some s.line

/-- The character is not taken for an arrow, or the entry recalled is the line with the character. -/
structure AsTyped (e : Shell ρ) (c : UInt8) : Prop where
  up : c = 0x48 → 0 < e.historyPos → recalled e (upIndex e) = (stringIn e.input).map (· ++ [c])
  down : c = 0x50 → e.currentHistory ≠ -1 → e.currentHistory < e.historyPos - 1 ∧
    recalled e (e.currentHistory + 1) = (stringIn e.input).map (· ++ [c])

/-- The same of the shell, where there is one. -/
def TakenAsTyped (s : Typing ρ) (c : UInt8) : Prop := ∀ e, s.shell = some e → AsTyped e c

/-- In a session, a line is begun: no key has been pressed, or Enter was the last. -/
def AtLineStart (chars : List UInt8) : Prop := chars = [] ∨ chars.getLast? = some 13

/-! ### The keys -/

/-- What a key on the line leaves alone. -/
structure Edited (e e' : Shell ρ) : Prop where
  history : e'.history = e.history
  historyPos : e'.historyPos = e.historyPos
  rest : e'.rest = e.rest
  running : e'.running = e.running
  stored : e'.stored = e.stored

variable {K}

theorem shellStep_up (hrun : e.running = true) (hpos : 0 < e.historyPos) : shellStep K e 0x48 = upArrow e := by
  rw [shellStep, hrun, if_neg (by decide), if_neg (by decide), if_neg (fun hand => absurd hand.1 (by decide)),
    if_pos ⟨rfl, hpos⟩]

theorem shellStep_down (hrun : e.running = true) (hcur : e.currentHistory ≠ -1) :
    shellStep K e 0x50 = downArrow e := by
  rw [shellStep, hrun, if_neg (by decide), if_neg (by decide), if_neg (fun hand => absurd hand.1 (by decide)),
    if_neg (fun hand => absurd hand.1 (by decide)), if_pos ⟨rfl, hcur⟩]

/-- **Up**. -/
theorem Editing.pressUp (h : Editing e line) (hrun : e.running = true) (hpos : 0 < e.historyPos) :
    ∃ e' s, shellStep K e 0x48 = some e' ∧ Editing e' s ∧ Edited e e' ∧ recalled e (upIndex e) = some s ∧
      e'.currentHistory = upIndex e := by
  obtain ⟨hindex, h'⟩ := h.up hpos
  obtain ⟨s, input, hrecalled, hrecall, hs⟩ := h'.recall hindex
  refine ⟨_, s, ?_, hs, ⟨rfl, rfl, rfl, rfl, rfl⟩, hrecalled, rfl⟩
  rw [shellStep_up hrun hpos, upArrow_eq, hrecall]

/-- **Down**, with an entry to go to. -/
theorem Editing.pressDown (h : Editing e line) (hrun : e.running = true) (hcur : e.currentHistory ≠ -1)
    (hlt : e.currentHistory < e.historyPos - 1) :
    ∃ e' s, shellStep K e 0x50 = some e' ∧ Editing e' s ∧ Edited e e' ∧
      recalled e (e.currentHistory + 1) = some s ∧ e'.currentHistory = e.currentHistory + 1 := by
  have hcurrent := h.current
  have h' := h.setCurrent (k := e.currentHistory + 1) (.inr ⟨by omega, by omega⟩)
  obtain ⟨s, input, hrecalled, hrecall, hs⟩ := h'.recall (by simp only; omega)
  refine ⟨_, s, ?_, hs, ⟨rfl, rfl, rfl, rfl, rfl⟩, hrecalled, rfl⟩
  rw [shellStep_down hrun hcur, Kernel.downArrow, if_pos hlt, hrecall]

/-- **Down**, with none: the line is empty again. -/
theorem Editing.pressLeave (h : Editing e line) (hrun : e.running = true) (hcur : e.currentHistory ≠ -1)
    (hlast : ¬ e.currentHistory < e.historyPos - 1) :
    ∃ e', shellStep K e 0x50 = some e' ∧ Editing e' [] ∧ Edited e e' ∧ e'.currentHistory = -1 := by
  obtain ⟨input, hleave, h'⟩ := h.leave hlast
  refine ⟨_, ?_, h', ⟨rfl, rfl, rfl, rfl, rfl⟩, rfl⟩
  rw [shellStep_down hrun hcur, hleave]

/-- **A letter** that is not taken for an arrow. -/
theorem Editing.pressLetter (h : Editing e line) (hrun : e.running = true) (hprint : 32 ≤ c ∧ c ≤ 126)
    (hup : ¬ (c = 0x48 ∧ e.historyPos > 0)) (hdown : ¬ (c = 0x50 ∧ e.currentHistory ≠ -1))
    (hlen : line.length < 126) :
    ∃ e', shellStep K e c = some e' ∧ Editing e' (line ++ [c]) ∧ Edited e e' ∧
      e'.currentHistory = e.currentHistory := by
  have hmax : (MAX_INPUT : ℤ) = 128 := rfl
  have hposition := h.position
  have hlow : ∀ d : UInt8, d < 32 → c ≠ d := by
    rintro d hd rfl
    exact absurd hprint.1 (UInt8.not_le.mpr hd)
  have hroom : e.position < MAX_INPUT - 2 := by omega
  obtain ⟨input, out, hinsert, h'⟩ := h.push (K := K) hroom (hlow 0 (by decide))
  refine ⟨_, ?_, h', ⟨rfl, rfl, rfl, rfl, rfl⟩, rfl⟩
  rw [← hinsert, shellStep, hrun, if_neg (by decide), if_neg (hlow 13 (by decide)),
    if_neg (fun hand => hlow 8 (by decide) hand.1), if_neg hup, if_neg hdown, if_neg (hlow 9 (by decide)),
    if_pos ⟨hroom, hprint⟩]

/-- **The backspace**. -/
theorem Editing.pressBack (h : Editing e line) (hrun : e.running = true) :
    ∃ e', shellStep K e 8 = some e' ∧ Editing e' line.dropLast ∧ Edited e e' ∧
      e'.currentHistory = e.currentHistory := by
  have hposition := h.position
  have hstep : shellStep K e 8 = if e.position > 0 then (do
      let input ← store e.input (e.position - 1) 0
      some { e with input, position := e.position - 1, out := e.out ++ erase 1 }) else some e := by
    simp [shellStep, hrun]
  rw [hstep]
  split
  · next hpos =>
    obtain ⟨input, hstore, h'⟩ := h.backspace hpos
    rw [← List.dropLast_eq_take] at h'
    exact ⟨_, by simp only [hstore, Option.bind_eq_bind, Option.bind_some], h', ⟨rfl, rfl, rfl, rfl, rfl⟩, rfl⟩
  · next hpos =>
    have hnil : line = [] := List.length_eq_zero_iff.mp (by omega)
    exact ⟨e, rfl, by rwa [hnil] at h ⊢, ⟨rfl, rfl, rfl, rfl, rfl⟩, rfl⟩

/-! ### The start of a line -/

/-- After Enter the line is empty, and no entry is shown. -/
theorem enter_lineStart (he : enter K e = some e') (hrun : e'.running = true) :
    e'.position = 0 ∧ e'.currentHistory = -1 := by
  simp only [enter, Option.bind_eq_bind, Option.bind_eq_some_iff] at he
  obtain ⟨input, -, line, -, e₁, -, he⟩ := he
  split at he
  · cases he
    cases hrun
  · simp only [newLine, Option.bind_eq_bind, Option.bind_eq_some_iff] at he
    obtain ⟨input, -, he⟩ := he
    cases he
    exact ⟨rfl, rfl⟩

/-- **The start of a line**, in any session. -/
theorem lineStart_editing {rest : ρ} {stack : Fin 127 → UInt8} {chars : List UInt8}
    (hsession : chars.foldlM (shellStep K) (Shell.start rest stack) = some e) (hstart : AtLineStart chars)
    (hrun : e.running = true) : Editing e [] ∧ e.currentHistory = -1 := by
  have hbegun : e.position = 0 ∧ e.currentHistory = -1 := by
    rcases hstart with rfl | hlast
    · cases hsession
      exact ⟨rfl, rfl⟩
    · obtain ⟨keys, rfl⟩ := List.getLast?_eq_some_iff.mp hlast
      rw [List.foldlM_append, Option.bind_eq_bind, Option.bind_eq_some_iff] at hsession
      obtain ⟨e₀, -, hlast⟩ := hsession
      have hstep : shellStep K e₀ 13 = some e := by simpa using hlast
      by_cases hrun₀ : e₀.running = false
      · rw [shellStep, if_pos hrun₀] at hstep
        cases hstep
        rw [hrun₀] at hrun
        cases hrun
      · rw [shellStep, if_neg hrun₀, if_pos rfl] at hstep
        exact enter_lineStart hstep hrun
  obtain ⟨e₁, hrun₁, line, h⟩ := (start_editing rest stack).run (K := K) chars
  rw [hsession] at hrun₁
  cases hrun₁
  have hposition := h.position
  have hnil : line = [] := List.length_eq_zero_iff.mp (by omega)
  exact ⟨hnil ▸ h, hbegun.2⟩

/-! ### Typing -/

/-- Enter passes on the line there is. -/
theorem Editing.passedLine (h : Editing e line) : passedLine e = some line := by
  obtain ⟨input, hstore, hs, -⟩ := h.holds.cut le_rfl
  rw [List.take_length] at hs
  rw [Kernel.passedLine, h.position, hstore]
  exact hs.stringIn

theorem Editing.passesTyped_iff (h : Editing e line) (typed : List UInt8) :
    PassesTyped ⟨typed, some e⟩ ↔ line = typed := by
  constructor
  · rintro ⟨e₀, he₀, hpassed⟩
    cases he₀
    rw [h.passedLine] at hpassed
    exact Option.some.inj hpassed
  · rintro rfl
    exact ⟨e, rfl, h.passedLine⟩

/-- Of a line that a key replaces by an entry: when it is the line so far with one more character. -/
theorem Editing.passesTyped_entry (h : Editing e line) {entry : List UInt8} (h' : Editing e' entry)
    {shown : Option (List UInt8)} (hshown : shown = some entry) (c : UInt8) :
    PassesTyped ⟨line ++ [c], some e'⟩ ↔ shown = (stringIn e.input).map (· ++ [c]) := by
  rw [h'.passesTyped_iff, h.holds.stringIn, Option.map_some, hshown, Option.some_inj]

/-- **No key but Enter** does more than edit the line. -/
theorem shellStep_edited (hc : c ≠ 13) (he : shellStep K e c = some e') : Edited e e' := by
  have hrecall : ∀ e₀ : Shell ρ, Edited e e₀ → recallHistory e₀ = some e' → Edited e e' := by
    intro e₀ h he₀
    simp only [recallHistory, Option.bind_eq_bind, Option.bind_eq_some_iff] at he₀
    obtain ⟨j, -, s, -, input, -, new, -, he₀⟩ := he₀
    cases he₀
    exact ⟨h.history, h.historyPos, h.rest, h.running, h.stored⟩
  unfold shellStep at he
  split_ifs at he with hrun h8 hup hdown h9 hins
  · cases he
    exact ⟨rfl, rfl, rfl, rfl, rfl⟩
  · simp only [Option.bind_eq_bind, Option.bind_eq_some_iff] at he
    obtain ⟨input, -, he⟩ := he
    cases he
    exact ⟨rfl, rfl, rfl, rfl, rfl⟩
  · rw [upArrow_eq] at he
    refine hrecall _ ?_ he
    exact ⟨rfl, rfl, rfl, rfl, rfl⟩
  · unfold downArrow at he
    split at he
    · refine hrecall _ ?_ he
      exact ⟨rfl, rfl, rfl, rfl, rfl⟩
    · simp only [Option.bind_eq_bind, Option.bind_eq_some_iff] at he
      obtain ⟨input, -, he⟩ := he
      cases he
      exact ⟨rfl, rfl, rfl, rfl, rfl⟩
  · unfold complete at he
    split at he
    · simp only [Option.bind_eq_bind, Option.bind_eq_some_iff] at he
      obtain ⟨line, -, he⟩ := he
      split at he
      · cases he
        exact ⟨rfl, rfl, rfl, rfl, rfl⟩
      · unfold completeWith at he
        split at he
        · cases he
        · simp only [Option.bind_eq_bind, Option.bind_eq_some_iff] at he
          obtain ⟨input, -, new, -, he⟩ := he
          cases he
          exact ⟨rfl, rfl, rfl, rfl, rfl⟩
    · cases he
      exact ⟨rfl, rfl, rfl, rfl, rfl⟩
  · simp only [insert, Option.bind_eq_bind, Option.bind_eq_some_iff] at he
    obtain ⟨input, -, input', -, he⟩ := he
    cases he
    exact ⟨rfl, rfl, rfl, rfl, rfl⟩
  · cases he
    exact ⟨rfl, rfl, rfl, rfl, rfl⟩

/-- The shell is in its arrays and its loop. -/
def OnLine (s : Typing ρ) : Prop := ∃ e line, s.shell = some e ∧ Editing e line ∧ e.running = true

/-- What is typed, on a line that stays short. -/
def Allowed (s : Typing ρ) (c : UInt8) : Prop := Typeable c ∧ (typeChar s.line c).length < 126

theorem typeStep_onLine {s : Typing ρ} (h : OnLine s) (hc : Allowed s c) : OnLine (typeStep K s c).2 := by
  obtain ⟨e, line, hs, hediting, hrun⟩ := h
  obtain ⟨e', line', he', hediting'⟩ := hediting.step (K := K) c
  have hne : c ≠ 13 := by
    rintro rfl
    exact hc.1.elim (by decide) (by decide)
  refine ⟨e', line', ?_, hediting', (shellStep_edited hne he').running.trans hrun⟩
  simp only [typeStep, hs, Option.bind_some, he']

/-- **A character typed** decides whether Enter goes on passing what was typed. -/
theorem typeStep_passes {s : Typing ρ} (h : OnLine s) (hc : Allowed s c) (hpasses : PassesTyped s) :
    PassesTyped (typeStep K s c).2 ↔ TakenAsTyped s c := by
  obtain ⟨typed, shell⟩ := s
  obtain ⟨e, line, hs, hediting, hrun⟩ := h
  obtain rfl : shell = some e := hs
  obtain rfl : line = typed := (hediting.passesTyped_iff typed).mp hpasses
  obtain ⟨htypeable, hlen⟩ := hc
  have htaken : TakenAsTyped ⟨line, some e⟩ c ↔ AsTyped e c := by
    constructor
    · intro htaken
      exact htaken e rfl
    · rintro htaken e₀ ⟨⟩
      exact htaken
  rw [htaken]
  simp only [typeStep, Option.bind_some]
  by_cases hback : c = 8
  · obtain rfl := hback
    obtain ⟨e', he', hediting', -⟩ := hediting.pressBack (K := K) hrun
    rw [he', hediting'.passesTyped_iff]
    refine iff_of_true rfl ⟨fun hup => ?_, fun hdown => ?_⟩
    · exact absurd hup (by decide)
    · exact absurd hdown (by decide)
  · have htype : typeChar line c = line ++ [c] := if_neg hback
    have hprint : 32 ≤ c ∧ c ≤ 126 := htypeable.resolve_left hback
    rw [htype] at hlen ⊢
    by_cases hup : c = 0x48 ∧ e.historyPos > 0
    · obtain ⟨rfl, hpos⟩ := hup
      obtain ⟨e', s, he', hediting', -, hrecalled, -⟩ := hediting.pressUp (K := K) hrun hpos
      rw [he', hediting.passesTyped_entry hediting' hrecalled]
      constructor
      · intro hline
        exact ⟨fun _ _ => hline, fun hdown => absurd hdown (by decide)⟩
      · intro has
        exact has.up rfl hpos
    · have hnotUp : c = 0x48 → 0 < e.historyPos →
          recalled e (upIndex e) = (stringIn e.input).map (· ++ [c]) :=
        fun hH hpos => absurd ⟨hH, hpos⟩ hup
      by_cases hdown : c = 0x50 ∧ e.currentHistory ≠ -1
      · obtain ⟨rfl, hcur⟩ := hdown
        by_cases hlt : e.currentHistory < e.historyPos - 1
        · obtain ⟨e', s, he', hediting', -, hrecalled, -⟩ := hediting.pressDown (K := K) hrun hcur hlt
          rw [he', hediting.passesTyped_entry hediting' hrecalled]
          constructor
          · intro hline
            exact ⟨hnotUp, fun _ _ => ⟨hlt, hline⟩⟩
          · intro has
            exact (has.down rfl hcur).2
        · obtain ⟨e', he', hediting', -⟩ := hediting.pressLeave (K := K) hrun hcur hlt
          rw [he', hediting'.passesTyped_iff]
          refine iff_of_false ?_ fun has => hlt (has.down rfl hcur).1
          simp
      · rw [List.length_append, List.length_singleton] at hlen
        obtain ⟨e', he', hediting', -⟩ := hediting.pressLetter (K := K) hrun hprint hup hdown (by omega)
        rw [he', hediting'.passesTyped_iff]
        exact iff_of_true rfl ⟨hnotUp, fun hP hcur => absurd ⟨hP, hcur⟩ hdown⟩

/-- Every character typed is allowed. -/
theorem along_allowed {typed : List UInt8} {s : Typing ρ} (htyped : ∀ c ∈ typed, Typeable c)
    (hshort : ∀ n, ((typed.take n).foldl typeChar s.line).length < 126) : Along (typeStep K) Allowed s typed := by
  induction typed generalizing s with
  | nil => trivial
  | cons c typed ih =>
    refine ⟨⟨htyped c List.mem_cons_self, hshort 1⟩, ih ?_ fun n => hshort (n + 1)⟩
    exact fun d hd => htyped d (List.mem_cons_of_mem c hd)

/-- **When what is typed is what is run**: in any session, on a line that stays short, Enter passes on what
was typed, at every moment, just when every character is taken as typed. -/
theorem typed_iff (K : Commands ρ) (rest : ρ) (stack : Fin 127 → UInt8) (chars : List UInt8) (e : Shell ρ)
    (hsession : chars.foldlM (shellStep K) (Shell.start rest stack) = some e) (hstart : AtLineStart chars)
    (hrun : e.running = true) (typed : List UInt8) (htyped : ∀ c ∈ typed, Typeable c)
    (hshort : ∀ n, ((typed.take n).foldl typeChar []).length < 126) :
    (∀ n, PassesTyped (run (typeStep K) ⟨[], some e⟩ (typed.take n)).2) ↔
      Along (typeStep K) TakenAsTyped ⟨[], some e⟩ typed := by
  obtain ⟨hediting, -⟩ := lineStart_editing hsession hstart hrun
  apply always_iff_along_of (J := OnLine) (Q := Allowed)
  · intro s c h hc
    exact typeStep_onLine h hc
  · intro s c h hc hpasses
    exact typeStep_passes h hc hpasses
  · exact ⟨e, [], rfl, hediting, hrun⟩
  · exact (hediting.passesTyped_iff []).mpr rfl
  · exact along_allowed htyped hshort

/-- Commands that do nothing. -/
def noCommands : Commands Unit := ⟨fun _ _ => (), fun _ => true⟩

/-- `ls` and Enter. -/
def typeLs : List UInt8 := [108, 115, 13]

/-- The shell after them. -/
theorem typeLs_session : ∃ e : Shell Unit,
    typeLs.foldlM (shellStep noCommands) (Shell.start () fun _ => 0) = some e ∧ e.running = true := by
  have hrun : (typeLs.foldlM (shellStep noCommands) (Shell.start () fun _ => 0)).map Shell.running = some true := by
    decide +kernel
  exact Option.map_eq_some_iff.mp hrun

/-- Then `pwd`. -/
theorem typed_pwd : ∃ e : Shell Unit, typeLs.foldlM (shellStep noCommands) (Shell.start () fun _ => 0) = some e ∧
    ∀ n, PassesTyped (run (typeStep noCommands) ⟨[], some e⟩ (List.take n [112, 119, 100])).2 := by
  obtain ⟨e, hsession, hrun⟩ := typeLs_session
  have hsmall : ∀ {s : Typing Unit} {c : UInt8}, c ≠ 0x48 → c ≠ 0x50 → TakenAsTyped s c := by
    intro s c hH hP e _
    exact ⟨fun h => absurd h hH, fun h => absurd h hP⟩
  have hshort : ∀ n, ((List.take n [112, 119, 100]).foldl typeChar []).length < 126 := by
    intro n
    rcases n with _ | _ | _ | n
    · decide
    · decide
    · decide
    · rw [List.take_of_length_le (by simp)]
      decide
  have hletters : ∀ c ∈ ([112, 119, 100] : List UInt8), Typeable c := by
    intro c hc
    simp only [List.mem_cons, List.not_mem_nil, or_false] at hc
    rcases hc with rfl | rfl | rfl <;> exact .inr ⟨by decide, by decide⟩
  refine ⟨e, hsession, (typed_iff noCommands () _ typeLs e hsession (.inr rfl) hrun _ hletters hshort).mpr ?_⟩
  exact ⟨hsmall (by decide) (by decide), hsmall (by decide) (by decide), hsmall (by decide) (by decide), trivial⟩

/-- `H` instead: `ls` is what Enter passes on. -/
theorem not_forall_passesTyped :
    ¬ ∀ (e : Shell Unit) (chars typed : List UInt8),
      chars.foldlM (shellStep noCommands) (Shell.start () fun _ => 0) = some e → AtLineStart chars →
      e.running = true → (∀ c ∈ typed, Typeable c) →
      (∀ n, ((typed.take n).foldl typeChar []).length < 126) →
      PassesTyped (run (typeStep noCommands) ⟨[], some e⟩ typed).2 := by
  intro h
  obtain ⟨e, hsession, hrun⟩ := typeLs_session
  have hshort : ∀ n, ((List.take n [0x48]).foldl typeChar []).length < 126 := by
    intro n
    cases n with
    | zero => decide
    | succ n =>
      rw [List.take_of_length_le (by simp)]
      decide
  obtain ⟨e', he', hpassed⟩ := h e typeLs [0x48] hsession (.inr rfl) hrun (by simp [Typeable]) hshort
  have hls : ((typeLs.foldlM (shellStep noCommands) (Shell.start () fun _ => 0)).bind fun e =>
      (shellStep noCommands e 0x48).bind passedLine) = some [108, 115] := by decide +kernel
  have hstep : shellStep noCommands e 0x48 = some e' := he'
  have hline : passedLine e' = some [0x48] := hpassed
  rw [hsession, Option.bind_some, hstep, Option.bind_some, hline] at hls
  exact absurd hls (by decide)

end Basedos.Kernel
