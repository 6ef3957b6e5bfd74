import Basedos.Kernel.History
import Basedos.Kernel.Typing

/-!
# Going through the history

Up, some times, and then Down, at the start of a line. The entry shown is `current_history`, which begins
at `history_pos - 1` and goes down to `0`, and up to `history_pos - 1` again: the rows behind
`history_pos`, which hold the older commands once it has come round, are never shown. With `history_pos`
at `0` there is nothing to show at all, and the two keys are the letters `H` and `P`.

## What is proved

* `Session.run` — in any session the history holds the commands executed, as long as no command is given
  over again at once.
* `navigates_iff` — **exactly when** the keys show the commands asked for: when no more are asked for than
  `history_pos` says, or when the commands happen to be the letters typed.
-/

namespace Basedos.Kernel

open Basedos.Lib Basedos.CLib

variable {ρ : Type} {K : Commands ρ} {e e' : Shell ρ} {line : List UInt8}

/-! ### What is asked -/

/-- The commands, noting what they are executed on. -/
def Commands.noting (K : Commands ρ) : Commands (ρ × List (List UInt8)) where
  execute r line := (K.execute r.1 line, r.2 ++ [line])
  echoEnabled r := K.echoEnabled r.1

/-- Up `k` times, and Down `j` times. -/
def upDown (k j : ℕ) : List UInt8 := List.replicate k 0x48 ++ List.replicate j 0x50

/-- After Up `k` times the line is the `k`-th most recent command, and after Down as well the one that many
commands later. -/
def Navigates (K : Commands ρ) (e : Shell ρ) (cmds : List (List UInt8)) (k : ℕ) : Prop :=
  ∀ j < k, ∃ e', (upDown k j).foldlM (shellStep K) e = some e' ∧
    stringIn e'.input = cmds[cmds.length - (k - j)]?

/-! ### A session -/

/-- **Enter**: what is stored, and what is executed. -/
theorem enter_spec (h : Editing e line) (hrecorded : Recorded e.history e.historyPos e.stored)
    (he : enter K e = some e') :
    Recorded e'.history e'.historyPos e'.stored ∧
      e'.stored = (if line = [] ∨ e.historyPos ≠ 0 ∧ e.stored.getLast? = some line then e.stored
        else e.stored ++ [line]) ∧
      e'.rest = (if line = [] then e.rest else K.execute e.rest line) ∧
      (line ≠ ascii ['e', 'x', 'i', 't'] → e'.running = e.running) := by
  simp only [enter, Option.bind_eq_bind, Option.bind_eq_some_iff] at he
  obtain ⟨input, hinput, line', hline, e₁, hadd, he⟩ := he
  obtain rfl : line = line' := by
    have hpassed := h.passedLine
    rw [passedLine, hinput] at hpassed
    exact Option.some.inj (hpassed.symm.trans hline)
  have hframe : e'.history = e₁.history ∧ e'.historyPos = e₁.historyPos ∧ e'.stored = e₁.stored ∧
      e'.rest = (if line.length = 0 then e₁.rest else K.execute e₁.rest line) ∧
      (line ≠ ascii ['e', 'x', 'i', 't'] → e'.running = e₁.running) := by
    split at he
    · next hexit =>
      cases he
      refine ⟨rfl, rfl, rfl, rfl, fun hne => ?_⟩
      exact absurd ((strcmp_eq_zero_iff h.holds.noNul (by decide)).mp hexit) hne
    · simp only [newLine, Option.bind_eq_bind, Option.bind_eq_some_iff] at he
      obtain ⟨input, -, he⟩ := he
      cases he
      exact ⟨rfl, rfl, rfl, rfl, fun _ => rfl⟩
  have hstored := Recorded.addToHistory (e := { e with input, out := e.out ++ [10] }) hrecorded
    h.holds.noNul h.short
  obtain ⟨hhistory, hpos, hlines, hrest, hrunning⟩ := hframe
  rw [hhistory, hpos, hlines, hrest]
  simp only [List.length_eq_zero_iff]
  by_cases hsame : line = [] ∨ e.historyPos ≠ 0 ∧ e.stored.getLast? = some line
  · rw [if_pos hsame, hadd] at hstored
    cases hstored
    rw [if_pos hsame]
    exact ⟨hrecorded, rfl, rfl, hrunning⟩
  · rw [if_neg hsame, hadd] at hstored
    obtain ⟨history, historyPos, heq, hrecorded'⟩ := hstored
    cases heq
    rw [if_neg hsame]
    exact ⟨hrecorded', rfl, rfl, hrunning⟩

/-- What holds of a session: the history, and that what is stored are the commands executed. -/
structure Session (e : Shell (ρ × List (List UInt8))) (line : List UInt8) : Prop where
  editing : Editing e line
  recorded : Recorded e.history e.historyPos e.stored
  executed : e.rest.2.IsChain (· ≠ ·) → e.stored = e.rest.2
  running : ascii ['e', 'x', 'i', 't'] ∉ e.rest.2 → e.running = true

theorem start_session (rest : ρ) (stack : Fin 127 → UInt8) : Session (Shell.start (rest, []) stack) [] where
  editing := start_editing (rest, []) stack
  recorded := initial_recorded
  executed _ := rfl
  running _ := rfl

variable {s s' : Shell (ρ × List (List UInt8))} {c : UInt8}

/-- A key other than Enter. -/
theorem Session.edited (h : Session s line) (hs : Edited s s') {line' : List UInt8} (h' : Editing s' line') :
    Session s' line' where
  editing := h'
  recorded := by rw [hs.history, hs.historyPos, hs.stored]; exact h.recorded
  executed := by rw [hs.stored, hs.rest]; exact h.executed
  running := by rw [hs.running, hs.rest]; exact h.running

/-- Enter. -/
theorem Session.entered (h : Session s line) (he : enter K.noting s = some s') {line' : List UInt8}
    (h' : Editing s' line') : Session s' line' := by
  obtain ⟨hrecorded, hstored, hrest, hrunning⟩ := enter_spec h.editing h.recorded he
  by_cases hempty : line = []
  · rw [if_pos (.inl hempty)] at hstored
    rw [if_pos hempty] at hrest
    refine ⟨h', hrecorded, ?_, fun hexit => ?_⟩
    · rw [hstored, hrest]
      exact h.executed
    · rw [hrunning (by rw [hempty]; decide)]
      exact h.running (by rwa [hrest] at hexit)
  · rw [if_neg hempty] at hrest
    have hexecuted : s'.rest.2 = s.rest.2 ++ [line] := by rw [hrest]; rfl
    refine ⟨h', hrecorded, fun hchain => ?_, fun hexit => ?_⟩
    · rw [hexecuted, List.isChain_append] at hchain
      obtain ⟨hbefore, -, hlast⟩ := hchain
      have hsame := h.executed hbefore
      have hnew : s.stored.getLast? ≠ some line := by
        intro hagain
        rw [hsame] at hagain
        exact hlast line hagain line rfl rfl
      rw [hstored, hexecuted, if_neg (not_or.mpr ⟨hempty, fun hand => hnew hand.2⟩), hsame]
    · rw [hexecuted, List.mem_append, List.mem_singleton, not_or] at hexit
      rw [hrunning (Ne.symm hexit.2)]
      exact h.running hexit.1

/-- A key. -/
theorem Session.step (h : Session s line) (c : UInt8) :
    ∃ s' line', shellStep K.noting s c = some s' ∧ Session s' line' := by
  obtain ⟨s', line', hs', h'⟩ := h.editing.step (K := K.noting) c
  refine ⟨s', line', hs', ?_⟩
  by_cases hc : c = 13
  · by_cases hrun : s.running = false
    · rw [shellStep, if_pos hrun] at hs'
      cases hs'
      exact ⟨h', h.recorded, h.executed, h.running⟩
    · rw [shellStep, if_neg hrun, if_pos hc] at hs'
      exact h.entered hs' h'
  · exact h.edited (shellStep_edited hc hs') h'

/-- **Any session.** -/
theorem Session.run (h : Session s line) (chars : List UInt8) :
    ∃ s', chars.foldlM (shellStep K.noting) s = some s' ∧ ∃ line', Session s' line' := by
  apply foldlM_inv (I := fun s => ∃ line, Session s line)
  · rintro s c - ⟨line, h⟩
    obtain ⟨s', line', hs', h'⟩ := h.step (K := K) c
    exact ⟨s', hs', line', h'⟩
  · exact ⟨line, h⟩

/-! ### The entry shown -/

theorem Edited.refl (e : Shell ρ) : Edited e e := ⟨rfl, rfl, rfl, rfl, rfl⟩

theorem Edited.trans {e'' : Shell ρ} (h : Edited e e') (h' : Edited e' e'') : Edited e e'' :=
  ⟨h'.history.trans h.history, h'.historyPos.trans h.historyPos, h'.rest.trans h.rest,
    h'.running.trans h.running, h'.stored.trans h.stored⟩

theorem Edited.recalled (h : Edited e e') (i : ℤ) : recalled e' i = recalled e i := by
  rw [Kernel.recalled, Kernel.recalled, h.history]

/-- The entry `i` of the history is shown, as it was when the line was begun. -/
structure EntryShown (e e' : Shell ρ) (i : ℤ) : Prop where
  edited : Edited e e'
  current : e'.currentHistory = i
  line : ∃ s, Editing e' s ∧ recalled e i = some s

theorem EntryShown.input {i : ℤ} (h : EntryShown e e' i) : stringIn e'.input = recalled e i := by
  obtain ⟨s, hediting, hrecalled⟩ := h.line
  rw [hrecalled]
  exact hediting.holds.stringIn

/-- Up at the start of a line. -/
theorem up_first (h : Editing e []) (hcur : e.currentHistory = -1) (hrun : e.running = true)
    (hpos : 0 < e.historyPos) : ∃ e', shellStep K e 0x48 = some e' ∧ EntryShown e e' (e.historyPos - 1) := by
  obtain ⟨e', s, he', hediting, hedited, hrecalled, hcurrent⟩ := h.pressUp (K := K) hrun hpos
  have hindex : upIndex e = e.historyPos - 1 := if_pos hcur
  rw [hindex] at hrecalled hcurrent
  exact ⟨e', he', hedited, hcurrent, s, hediting, hrecalled⟩

/-- Up again: the entry before, if there is one. -/
theorem EntryShown.up {i : ℤ} (h : EntryShown e e' i) (h₀ : 0 ≤ i) (hrun : e.running = true) (hpos : 0 < e.historyPos) :
    ∃ e'', shellStep K e' 0x48 = some e'' ∧ EntryShown e e'' (max (i - 1) 0) := by
  obtain ⟨line, hediting, -⟩ := h.line
  obtain ⟨e'', s, he'', hediting', hedited, hrecalled, hcurrent⟩ :=
    hediting.pressUp (K := K) (h.edited.running.trans hrun) (by rw [h.edited.historyPos]; exact hpos)
  have hindex : upIndex e' = max (i - 1) 0 := by
    rw [upIndex, h.current]
    split_ifs <;> omega
  rw [hindex, h.edited.recalled] at hrecalled
  rw [hindex] at hcurrent
  exact ⟨e'', he'', h.edited.trans hedited, hcurrent, s, hediting', hrecalled⟩

/-- Down: the entry after, if there is one. -/
theorem EntryShown.down {i : ℤ} (h : EntryShown e e' i) (h₀ : 0 ≤ i) (hrun : e.running = true)
    (hlt : i < e.historyPos - 1) : ∃ e'', shellStep K e' 0x50 = some e'' ∧ EntryShown e e'' (i + 1) := by
  obtain ⟨line, hediting, -⟩ := h.line
  have hcur := h.current
  have hpos := h.edited.historyPos
  obtain ⟨e'', s, he'', hediting', hedited, hrecalled, hcurrent⟩ :=
    hediting.pressDown (K := K) (h.edited.running.trans hrun) (by omega) (by omega)
  rw [hcur, h.edited.recalled] at hrecalled
  exact ⟨e'', he'', h.edited.trans hedited, by rw [hcurrent, hcur], s, hediting', hrecalled⟩

/-- Down at the last entry: none. -/
theorem EntryShown.leave {i : ℤ} (h : EntryShown e e' i) (h₀ : 0 ≤ i) (hrun : e.running = true)
    (hlast : e.historyPos - 1 ≤ i) : ∃ e'', shellStep K e' 0x50 = some e'' ∧ stringIn e''.input = some [] := by
  obtain ⟨line, hediting, -⟩ := h.line
  have hcur := h.current
  have hpos := h.edited.historyPos
  obtain ⟨e'', he'', hediting', -⟩ :=
    hediting.pressLeave (K := K) (h.edited.running.trans hrun) (by omega) (by omega)
  exact ⟨e'', he'', hediting'.holds.stringIn⟩

/-- **Up**, some times. -/
theorem ups (h : Editing e []) (hcur : e.currentHistory = -1) (hrun : e.running = true) (hpos : 0 < e.historyPos)
    (k : ℕ) : ∃ e', (List.replicate (k + 1) 0x48).foldlM (shellStep K) e = some e' ∧
      EntryShown e e' (max (e.historyPos - (k + 1)) 0) := by
  obtain ⟨e₁, he₁, hshows₁⟩ := up_first (K := K) h hcur hrun hpos
  rw [List.replicate_succ, List.foldlM_cons, he₁]
  apply foldlM_replicate (I := fun m e' => EntryShown e e' (max (e.historyPos - (m + 1)) 0)) (n := k) _ _ le_rfl
  · intro m e' _ hshows
    obtain ⟨e'', he'', hshows'⟩ := hshows.up (K := K) (le_max_right _ _) hrun hpos
    have hindex : max (max (e.historyPos - (m + 1)) 0 - 1) 0 = max (e.historyPos - ((m + 1 : ℕ) + 1)) 0 := by
      omega
    rw [hindex] at hshows'
    exact ⟨e'', he'', hshows'⟩
  · rwa [Nat.cast_zero, zero_add, max_eq_left (by omega)]

/-- **Down**, some times, to an entry. -/
theorem EntryShown.downs {i : ℤ} (h : EntryShown e e' i) (h₀ : 0 ≤ i) (hrun : e.running = true) (j : ℕ)
    (hj : i + j ≤ e.historyPos - 1) :
    ∃ e'', (List.replicate j 0x50).foldlM (shellStep K) e' = some e'' ∧ EntryShown e e'' (i + j) := by
  apply foldlM_replicate (I := fun m e' => EntryShown e e' (i + m)) (n := j) _ _ le_rfl
  · intro m e₁ hm hshows
    obtain ⟨e'', he'', hshows'⟩ := hshows.down (K := K) (by omega) hrun (by omega)
    rw [add_assoc] at hshows'
    exact ⟨e'', he'', hshows'⟩
  · rwa [Nat.cast_zero, add_zero]

/-- The keys as letters. -/
theorem Editing.letters {c : UInt8} (h : Editing e line) (hrun : e.running = true) (hprint : 32 ≤ c ∧ c ≤ 126)
    (hpos : e.historyPos = 0) (hcur : e.currentHistory = -1) (m : ℕ) (hlen : line.length + m ≤ 126) :
    ∃ e', (List.replicate m c).foldlM (shellStep K) e = some e' ∧ Editing e' (line ++ List.replicate m c) ∧
      Edited e e' ∧ e'.currentHistory = -1 := by
  apply foldlM_replicate (n := m) (I := fun k e' =>
    Editing e' (line ++ List.replicate k c) ∧ Edited e e' ∧ e'.currentHistory = -1) _ _ le_rfl
  · rintro k e₁ hk ⟨hediting, hedited, hcur₁⟩
    obtain ⟨e', he', hediting', hedited', hcur'⟩ :=
      hediting.pressLetter (K := K) (c := c) (hedited.running.trans hrun) hprint
        (by rw [hedited.historyPos]; omega) (fun hand => hand.2 hcur₁) (by simp; omega)
    rw [List.append_assoc, ← List.replicate_succ'] at hediting'
    exact ⟨e', he', hediting', hedited.trans hedited', hcur'.trans hcur₁⟩
  · exact ⟨by simpa using h, .refl e, hcur⟩

/-! ### The commands shown -/

/-- An entry below the position, of the lines stored. -/
theorem Recorded.recalled {stored : List (List UInt8)} (h : Recorded e.history e.historyPos stored) {i : ℤ}
    (h₀ : 0 ≤ i) (h₁ : i < e.historyPos) :
    recalled e i = stored[stored.length - (e.historyPos - i).toNat]? := by
  have hpos := h.position
  generalize hm : stored.length - (e.historyPos - i).toNat = m
  have hlt : m < stored.length := by omega
  have hindex : historyIndex i = some (Fin.ofNat 10 m) := by
    rw [historyIndex_of_lt h₀ (by omega)]
    congr 1
    apply Fin.ext
    show i.toNat = m % 10
    omega
  have hrow := h.rows m (.inr hlt) (by omega)
  rw [Kernel.recalled, hindex, Option.bind_some, hrow.stringIn, List.getElem?_eq_getElem hlt]
  rfl

variable {cmds : List (List UInt8)} {k : ℕ}

/-- As far back as `history_pos` says, the keys show the commands. -/
theorem navigates_of_le (h : Editing e []) (hcur : e.currentHistory = -1) (hrun : e.running = true)
    (hrecorded : Recorded e.history e.historyPos cmds) (hk : 1 ≤ k) (hle : (k : ℤ) ≤ e.historyPos) :
    Navigates K e cmds k := by
  intro j hj
  obtain ⟨m, rfl⟩ := Nat.exists_eq_add_of_le' hk
  obtain ⟨e₁, he₁, hshows⟩ := ups (K := K) h hcur hrun (by omega) m
  rw [max_eq_left (by omega)] at hshows
  obtain ⟨e', he', hshows'⟩ := hshows.downs (K := K) (by omega) hrun j (by omega)
  refine ⟨e', ?_, ?_⟩
  · rw [upDown, List.foldlM_append, he₁]
    exact he'
  · rw [hshows'.input, hrecorded.recalled (by omega) (by omega)]
    congr 2
    omega

/-- Further back they do not: as many times Down as there are entries leave none shown. -/
theorem not_navigates_of_gt (h : Editing e []) (hcur : e.currentHistory = -1) (hrun : e.running = true)
    (hrecorded : Recorded e.history e.historyPos cmds) (hk : k ≤ cmds.length) (hpos : 0 < e.historyPos)
    (hlt : e.historyPos < k) : ¬ Navigates K e cmds k := by
  intro hnavigates
  obtain ⟨p, hp⟩ := Int.eq_ofNat_of_zero_le hpos.le
  obtain ⟨m, rfl⟩ := Nat.exists_eq_add_of_le' (show 1 ≤ k by omega)
  obtain ⟨q, rfl⟩ := Nat.exists_eq_add_of_le' (show 1 ≤ p by omega)
  obtain ⟨e', he', hline⟩ := hnavigates (q + 1) (by omega)
  obtain ⟨e₁, he₁, hshows⟩ := ups (K := K) h hcur hrun hpos m
  rw [max_eq_right (by omega)] at hshows
  obtain ⟨e₂, he₂, hshows₂⟩ := hshows.downs (K := K) le_rfl hrun q (by omega)
  obtain ⟨e₃, he₃, hempty⟩ := hshows₂.leave (K := K) (by omega) hrun (by omega)
  have hsame : (upDown (m + 1) (q + 1)).foldlM (shellStep K) e = some e₃ := by
    rw [upDown, List.replicate_succ' (n := q), List.foldlM_append, he₁, Option.bind_eq_bind, Option.bind_some,
      List.foldlM_append, he₂]
    simpa using he₃
  rw [hsame] at he'
  cases he'
  rw [hempty, eq_comm, List.getElem?_eq_some_iff] at hline
  obtain ⟨hindex, hnil⟩ := hline
  exact hrecorded.nonempty (hnil ▸ List.getElem_mem hindex)

/-- With `history_pos` at `0` they are letters. -/
theorem navigates_letters (h : Editing e []) (hcur : e.currentHistory = -1) (hrun : e.running = true)
    (hpos : e.historyPos = 0) (hk : k ≤ 10) :
    Navigates K e cmds k ↔ ∀ j < k, cmds[cmds.length - (k - j)]? = some (upDown k j) := by
  have hletters : ∀ j < k, ∃ e', (upDown k j).foldlM (shellStep K) e = some e' ∧
      stringIn e'.input = some (upDown k j) := by
    intro j hj
    obtain ⟨e₁, he₁, hediting, hedited, hcur₁⟩ :=
      h.letters (K := K) (c := 0x48) hrun (by decide) hpos hcur k (by rw [List.length_nil]; omega)
    obtain ⟨e', he', hediting', -⟩ :=
      hediting.letters (K := K) (c := 0x50) (hedited.running.trans hrun) (by decide)
        (hedited.historyPos.trans hpos) hcur₁ j (by simp; omega)
    refine ⟨e', ?_, by simpa [upDown] using hediting'.holds.stringIn⟩
    rw [upDown, List.foldlM_append, he₁]
    exact he'
  constructor
  · intro hnavigates j hj
    obtain ⟨e', he', hline⟩ := hnavigates j hj
    obtain ⟨e₁, he₁, hline₁⟩ := hletters j hj
    rw [he₁] at he'
    cases he'
    exact hline.symm.trans hline₁
  · intro hcmds j hj
    obtain ⟨e', he', hline⟩ := hletters j hj
    exact ⟨e', he', hline.trans (hcmds j hj).symm⟩

/-- **When the arrow keys show the commands**: in any session in which no command was given over again at
once, `k` back from the start of a line, just when `k` is no more than what is left when the number of
commands is divided by ten, or nothing is left and the commands are the very letters typed. -/
theorem navigates_iff (K : Commands ρ) (rest : ρ) (stack : Fin 127 → UInt8) (chars : List UInt8)
    (s : Shell (ρ × List (List UInt8)))
    (hsession : chars.foldlM (shellStep K.noting) (Shell.start (rest, []) stack) = some s)
    (hstart : AtLineStart chars) (hdistinct : s.rest.2.IsChain (· ≠ ·))
    (hexit : ascii ['e', 'x', 'i', 't'] ∉ s.rest.2) (k : ℕ) (hk : 1 ≤ k) (hle : k ≤ min s.rest.2.length 10) :
    Navigates K.noting s s.rest.2 k ↔ k ≤ s.rest.2.length % 10 ∨
      s.rest.2.length % 10 = 0 ∧ ∀ j < k, s.rest.2[s.rest.2.length - (k - j)]? = some (upDown k j) := by
  obtain ⟨s', hs', line, hinv⟩ := (start_session rest stack).run (K := K) chars
  rw [hsession] at hs'
  cases hs'
  have hrun := hinv.running hexit
  obtain ⟨hediting, hcur⟩ := lineStart_editing hsession hstart hrun
  have hrecorded := hinv.recorded
  rw [hinv.executed hdistinct] at hrecorded
  have hpos := hrecorded.position
  by_cases hzero : s.historyPos = 0
  · rw [navigates_letters hediting hcur hrun hzero (by omega)]
    have hmod : s.rest.2.length % 10 = 0 := by omega
    simp only [hmod, true_and]
    exact (or_iff_right (by omega)).symm
  · by_cases hback : k ≤ s.rest.2.length % 10
    · refine iff_of_true ?_ (.inl hback)
      exact navigates_of_le hediting hcur hrun hrecorded hk (by omega)
    · refine iff_of_false ?_ ?_
      · exact not_navigates_of_gt hediting hcur hrun hrecorded (by omega) (by omega) (by omega)
      · rintro (hback' | ⟨hmod, -⟩)
        · exact hback hback'
        · omega

/-- The shell after some keys, with what was executed. -/
def notingSession (chars : List UInt8) : Option (Shell (Unit × List (List UInt8))) :=
  chars.foldlM (shellStep noCommands.noting) (Shell.start ((), []) fun _ => 0)

/-- `ls`, `ps` and `ls`, each with Enter; then Up three times shows the first. -/
theorem navigates_ls : ∃ s, notingSession (typeLs ++ [112, 115, 13] ++ typeLs) = some s ∧
    Navigates noCommands.noting s s.rest.2 3 := by
  have hexecuted : (notingSession (typeLs ++ [112, 115, 13] ++ typeLs)).map (fun s => s.rest.2) =
      some [[108, 115], [112, 115], [108, 115]] := by decide +kernel
  obtain ⟨s, hsession, hcmds⟩ := Option.map_eq_some_iff.mp hexecuted
  refine ⟨s, hsession, (navigates_iff noCommands () (fun _ => 0) _ s hsession (.inr rfl) ?_ ?_ 3 ?_ ?_).mpr ?_⟩
  · rw [hcmds]
    decide
  · rw [hcmds]
    decide
  · decide
  · rw [hcmds]
    decide
  · rw [hcmds]
    exact .inl (by decide)

/-- `a` to `j`, each with Enter: the keys of ten commands. -/
def tenKeys : List UInt8 := tenLetters.flatMap fun cmd => cmd.bytes ++ [13]

/-- Up after ten commands types `H`. -/
theorem not_forall_navigates :
    ¬ ∀ (chars : List UInt8) (s : Shell (Unit × List (List UInt8))), notingSession chars = some s →
      AtLineStart chars → s.rest.2.IsChain (· ≠ ·) → ascii ['e', 'x', 'i', 't'] ∉ s.rest.2 →
      ∀ k, 1 ≤ k → k ≤ min s.rest.2.length 10 → Navigates noCommands.noting s s.rest.2 k := by
  intro h
  have hexecuted : (notingSession tenKeys).map (fun s => s.rest.2) = some (tenLetters.map Line.bytes) := by
    decide +kernel
  obtain ⟨s, hsession, hcmds⟩ := Option.map_eq_some_iff.mp hexecuted
  have hnavigates := h tenKeys s hsession (.inr (by decide +kernel)) (by rw [hcmds]; decide +kernel)
    (by rw [hcmds]; decide +kernel) 1 le_rfl (by rw [hcmds]; decide +kernel)
  obtain ⟨e', he', hline⟩ := hnavigates 0 (by decide)
  have hup : ((notingSession tenKeys).bind fun s => (shellStep noCommands.noting s 0x48).bind fun e' =>
      stringIn e'.input) = some [0x48] := by decide +kernel
  have hstep : shellStep noCommands.noting s 0x48 = some e' := by simpa [upDown] using he'
  rw [hsession, Option.bind_some, hstep, Option.bind_some, hline, hcmds] at hup
  exact absurd hup (by decide +kernel)

end Basedos.Kernel
