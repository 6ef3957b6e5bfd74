import Basedos.Kernel.LineEditor
import Basedos.Kernel.Page
import Basedos.Lib.Run

/-!
# Erasing what was typed

The shell rubs out a character by printing `"\b \b"`, and a whole line by printing it once for each
character of the line, before it shows another from the history.

## The model

`typed` is the terminal after a line has been printed, `erased` the terminal after as many `"\b \b"`. The
line is printable and its printing does not scroll the screen (`InPlace`). `Undone` is what erasing is for:
the cursor back where it was, spaces in the cells of the line, and no other cell changed.

The backspace of `putchar` does nothing in column 0, so it does not go back over the wrap at column 80: a
line that reaches the end of its row is not erased.

## What is proved

* `typed_spec`, `erase_spec` — a line that stays in its row, printed and erased.
* `typed_row` — a line that reaches the end of the row leaves the cursor in a lower one, and no character
  moves it up again (`Terminal.OnScreen.writestring`).
* `erasing_iff` — erasing undoes typing **exactly when** the line ends before column 80.
-/

namespace Basedos.Kernel

open Basedos.Lib

/-- Printable ASCII. -/
def Printable (c : UInt8) : Prop := 32 ≤ c ∧ c ≤ 126

/-- The screen is scrolled at the character. -/
def Terminal.Scrolls (t : Terminal) (c : UInt8) : Prop := 25 ≤ (t.place c).wrap.cursorY

instance (t : Terminal) (c : UInt8) : Decidable (t.Scrolls c) := inferInstanceAs (Decidable (_ ≤ _))

/-- Printing the line scrolls the screen at none of its characters. -/
def InPlace (t : Terminal) (s : List UInt8) : Prop :=
  Along (fun t c => ((), putchar t c)) (fun t c => ¬ t.Scrolls c) t s

instance (t : Terminal) (s : List UInt8) : Decidable (InPlace t s) := inferInstanceAs (Decidable (Along _ _ t s))

/-- The line printed. -/
def typed (t : Terminal) (s : List UInt8) : Terminal := terminalWritestring t s

/-- The line erased. -/
def erased (t : Terminal) (s : List UInt8) : Terminal := terminalWritestring (typed t s) (erase s.length)

/-- Printing the line writes into the cell. -/
def Occupied (t : Terminal) (s : List UInt8) (i : ℤ) : Prop := i ∈ (typed { t with written := [] } s).written

/-- **Erasing undoes typing.** -/
structure Undone (t : Terminal) (s : List UInt8) : Prop where
  cursorX : (erased t s).cursorX = t.cursorX
  cursorY : (erased t s).cursorY = t.cursorY
  spaces : ∀ i, Occupied t s i → (erased t s).charAt i = 32
  others : ∀ i, ¬ Occupied t s i → (erased t s).charAt i = t.charAt i

theorem Printable.ordinary {c : UInt8} (h : Printable c) : Ordinary c := by
  unfold Printable at h
  refine ⟨?_, ?_, ?_, ?_⟩ <;> rintro rfl <;> exact absurd h.1 (by decide)

theorem erase_succ (n : ℕ) : erase (n + 1) = 8 :: 32 :: 8 :: erase n := by
  simp [erase, List.replicate_succ]

/-! ### Within a row -/

/-- From `t` to `t'` the character `ch` has been put into cell `j`, and the cursor into column `x` of its
row. -/
structure Put (t t' : Terminal) (j x : ℤ) (ch : UInt8) : Prop where
  cursorX : t'.cursorX = x
  cursorY : t'.cursorY = t.cursorY
  written : t'.written = t.written ++ [j]
  charAt : ∀ i, t'.charAt i = if i = j then ch else t.charAt i

variable {t : Terminal}

/-- A character that does not end the row. -/
theorem putchar_ordinary {c : UInt8} (hc : Ordinary c) (hx : t.cursorX + 1 < 80) (hy : t.cursorY < 25) :
    Put t (putchar t c) (t.cursorY * 80 + t.cursorX) (t.cursorX + 1) c := by
  rw [putchar, place_of_ordinary t hc, wrap_of_lt hx, scroll_of_lt (by exact hy)]
  refine ⟨rfl, rfl, rfl, fun i => ?_⟩
  have h := charAt_poke t (t.cursorY * 80 + t.cursorX) i (t.cell c)
  rwa [toUInt8_cell] at h

/-- A backspace, not in column 0. -/
theorem putchar_backspace (hx : 0 < t.cursorX) (hx' : t.cursorX < 80) (hy : t.cursorY < 25) :
    Put t (putchar t 8) (t.cursorY * 80 + (t.cursorX - 1)) (t.cursorX - 1) 32 := by
  have hlt : t.cursorX - 1 < 80 := by omega
  rw [putchar, place_backspace hx, wrap_of_lt hlt, scroll_of_lt (by exact hy)]
  refine ⟨rfl, rfl, rfl, fun i => ?_⟩
  have h := charAt_poke t (t.cursorY * 80 + (t.cursorX - 1)) i t.blank
  rwa [toUInt8_blank] at h

/-- **A line that stays in its row**, printed. -/
theorem typed_spec {s : List UInt8} (hs : ∀ c ∈ s, Ordinary c) (hx : t.cursorX + s.length < 80)
    (hy : t.cursorY < 25) :
    (typed t s).cursorX = t.cursorX + s.length ∧ (typed t s).cursorY = t.cursorY ∧
      (∀ i, i ∈ (typed t s).written ↔
        i ∈ t.written ∨ t.cursorY * 80 + t.cursorX ≤ i ∧ i < t.cursorY * 80 + t.cursorX + s.length) ∧
      ∀ i, (i < t.cursorY * 80 + t.cursorX ∨ t.cursorY * 80 + t.cursorX + s.length ≤ i) →
        (typed t s).charAt i = t.charAt i := by
  induction s generalizing t with
  | nil =>
    refine ⟨(add_zero _).symm, rfl, fun i => ?_, fun _ _ => rfl⟩
    simp only [List.length_nil, Nat.cast_zero, add_zero]
    exact ⟨.inl, fun h => h.resolve_right (by omega)⟩
  | cons c s ih =>
    rw [List.length_cons, Nat.cast_succ] at *
    have h := putchar_ordinary (hs c List.mem_cons_self) (by omega) hy
    have hx' := h.cursorX
    have hy' := h.cursorY
    obtain ⟨hcol, hrow, hcells, hrest⟩ := ih (t := putchar t c) (fun d hd => hs d (List.mem_cons_of_mem c hd))
      (by omega) (by omega)
    rw [hx', hy', h.written] at hcells
    rw [hx', hy'] at hrest
    refine ⟨hcol.trans (by omega), hrow.trans hy', fun i => (hcells i).trans ?_, fun i hi => ?_⟩
    · rw [List.mem_append, List.mem_singleton, or_assoc]
      refine or_congr_right ?_
      omega
    · have hfirst := h.charAt i
      rw [if_neg (by omega)] at hfirst
      exact (hrest i (by omega)).trans hfirst

/-- One character rubbed out. -/
theorem rubOut_spec (hx : 0 < t.cursorX) (hx' : t.cursorX < 80) (hy : t.cursorY < 25) :
    let t' := terminalWritestring t [8, 32, 8]
    t'.cursorX = t.cursorX - 1 ∧ t'.cursorY = t.cursorY ∧
      ∀ i, t'.charAt i = if i = t.cursorY * 80 + (t.cursorX - 1) then 32 else t.charAt i := by
  have h₁ := putchar_backspace hx hx' hy
  have hx₁ := h₁.cursorX
  have hy₁ := h₁.cursorY
  have h₂ := putchar_ordinary (t := putchar t 8) (c := 32) (by decide) (by omega) (by omega)
  have hx₂ := h₂.cursorX
  have hy₂ := h₂.cursorY
  have h₃ := putchar_backspace (t := putchar (putchar t 8) 32) (by omega) (by omega) (by omega)
  have hx₃ := h₃.cursorX
  have hy₃ := h₃.cursorY
  refine ⟨hx₃.trans (by omega), by rw [← hy₁, ← hy₂, ← hy₃]; rfl, fun i => (h₃.charAt i).trans ?_⟩
  rw [h₂.charAt, h₁.charAt, hy₂, hy₁, hx₂, hx₁, add_sub_cancel_right]
  split_ifs <;> rfl

/-- **Characters rubbed out**, as many as there are before the cursor in its row. -/
theorem erase_spec {n : ℕ} (hn : (n : ℤ) ≤ t.cursorX) (hx : t.cursorX < 80) (hy : t.cursorY < 25) :
    let t' := terminalWritestring t (erase n)
    t'.cursorX = t.cursorX - n ∧ t'.cursorY = t.cursorY ∧
      ∀ i, t'.charAt i =
        if t.cursorY * 80 + t.cursorX - n ≤ i ∧ i < t.cursorY * 80 + t.cursorX then 32 else t.charAt i := by
  induction n generalizing t with
  | zero =>
    refine ⟨(sub_zero _).symm, rfl, fun i => ?_⟩
    rw [if_neg (by omega)]
    rfl
  | succ n ih =>
    rw [Nat.cast_succ] at *
    obtain ⟨hx', hy', hc⟩ := rubOut_spec (t := t) (by omega) hx hy
    obtain ⟨hcol, hrow, hcells⟩ := ih (t := terminalWritestring t [8, 32, 8]) (by omega) (by omega) (by omega)
    have happend : terminalWritestring t (erase (n + 1)) =
        terminalWritestring (terminalWritestring t [8, 32, 8]) (erase n) := by
      rw [erase_succ]; rfl
    rw [happend]
    refine ⟨hcol.trans (by omega), hrow.trans hy', fun i => (hcells i).trans ?_⟩
    rw [hc i, hx', hy']
    split_ifs <;> first | rfl | omega

/-! ### Past the end of the row -/

/-- A line is printed in place when its first character does not scroll the screen and the rest is. -/
theorem inPlace_cons {c : UInt8} {s : List UInt8} :
    InPlace t (c :: s) ↔ ¬ t.Scrolls c ∧ InPlace (putchar t c) s := Iff.rfl

/-- A line on a screen: the cursor stays on it, and does not go up. -/
theorem Terminal.OnScreen.writestring (h : t.OnScreen) (str : List UInt8) :
    (terminalWritestring t str).OnScreen ∧ t.cursorY ≤ (terminalWritestring t str).cursorY := by
  induction str generalizing t with
  | nil => exact ⟨h, le_rfl⟩
  | cons c str ih =>
    obtain ⟨h', hle⟩ := h.putchar c
    exact ⟨(ih h').1, hle.trans (ih h').2⟩

/-- **A line that reaches the end of its row** leaves the cursor in a lower one. -/
theorem typed_row (h : t.OnScreen) {s : List UInt8} (hs : ∀ c ∈ s, Ordinary c) (hplace : InPlace t s)
    (hx : 80 ≤ t.cursorX + s.length) : t.cursorY < (typed t s).cursorY := by
  induction s generalizing t with
  | nil =>
    have := h.col_lt
    simp only [List.length_nil, Nat.cast_zero] at hx
    omega
  | cons c s ih =>
    have hrest (d : UInt8) (hd : d ∈ s) : Ordinary d := hs d (List.mem_cons_of_mem c hd)
    obtain ⟨hscroll, hplace'⟩ := inPlace_cons.mp hplace
    have h' := (h.putchar c).1
    by_cases hend : t.cursorX + 1 < 80
    · have hput := putchar_ordinary (hs c List.mem_cons_self) hend h.row_lt
      rw [List.length_cons, Nat.cast_succ] at hx
      have := ih h' hrest hplace' (by rw [hput.cursorX]; omega)
      rwa [hput.cursorY] at this
    · have hwrap : (putchar t c).cursorY = t.cursorY + 1 := by
        have hw : (t.place c).wrap.cursorY = t.cursorY + 1 := by
          rw [place_of_ordinary t (hs c List.mem_cons_self), Terminal.wrap, if_pos (by simp only; omega)]
          rfl
        rw [putchar, scroll_of_lt (by unfold Terminal.Scrolls at hscroll; omega)]
        exact hw
      have := (h'.writestring s).2
      exact lt_of_lt_of_le (by omega) this

/-! ### Erasing -/

/-- The cells of a line that stays in its row. -/
theorem occupied_iff {s : List UInt8} (hs : ∀ c ∈ s, Ordinary c) (hx : t.cursorX + s.length < 80)
    (hy : t.cursorY < 25) (i : ℤ) :
    Occupied t s i ↔ t.cursorY * 80 + t.cursorX ≤ i ∧ i < t.cursorY * 80 + t.cursorX + s.length := by
  obtain ⟨-, -, hcells, -⟩ := typed_spec (t := { t with written := [] }) hs hx hy
  exact (hcells i).trans (or_iff_right List.not_mem_nil)

/-- A line that stays in its row is erased. -/
theorem undone_of_lt (h : t.OnScreen) {s : List UInt8} (hs : ∀ c ∈ s, Ordinary c)
    (hx : t.cursorX + s.length < 80) : Undone t s := by
  have hx₀ := h.col_nonneg
  have hocc := occupied_iff hs hx h.row_lt
  obtain ⟨hcol, hrow, -, hrest⟩ := typed_spec hs hx h.row_lt
  obtain ⟨hcol', hrow', hchars⟩ := erase_spec (t := typed t s) (n := s.length) (by omega) (by omega)
    (by rw [hrow]; exact h.row_lt)
  rw [hcol, hrow] at hchars
  refine ⟨hcol'.trans (by omega), hrow'.trans hrow, fun i hi => (hchars i).trans ?_,
    fun i hi => (hchars i).trans ?_⟩
  · have := (hocc i).mp hi
    exact if_pos (by omega)
  · have := mt (hocc i).mpr hi
    rw [if_neg (by omega), hrest i (by omega)]

/-- A line that is erased has stayed in its row: from a lower one no backspace gets back. -/
theorem lt_of_undone (h : t.OnScreen) {s : List UInt8} (hs : ∀ c ∈ s, Ordinary c) (hplace : InPlace t s)
    (hundone : Undone t s) : t.cursorX + s.length < 80 := by
  by_contra hx
  have hlower : t.cursorY < (typed t s).cursorY := typed_row h hs hplace (by omega)
  have hkept : (typed t s).cursorY ≤ (erased t s).cursorY := ((h.writestring s).1.writestring (erase s.length)).2
  have hback := hundone.cursorY
  omega

/-- **Erasing undoes typing** exactly when the line ends before column 80: for every terminal with a valid
cursor, and every printable line that does not scroll the screen. -/
theorem erasing_iff {t : Terminal} {s : List UInt8} (h : t.OnScreen) (hs : ∀ c ∈ s, Printable c)
    (hplace : InPlace t s) : Undone t s ↔ t.cursorX + s.length < 80 := by
  have hord (c : UInt8) (hc : c ∈ s) : Ordinary c := (hs c hc).ordinary
  exact ⟨lt_of_undone h hord hplace, undone_of_lt h hord⟩

/-- The line `ls`, after the prompt. -/
theorem erasing_ls :
    Undone (.empty 14 3) [108, 115] ↔ (Terminal.empty 14 3).cursorX + ([108, 115] : List UInt8).length < 80 :=
  erasing_iff (empty_onScreen (by decide) (by decide)) (by simp [Printable]) (by decide)

/-- In column 79 a single character takes the cursor to the next row, where it stays. -/
theorem not_forall_undone :
    ¬ ∀ (t : Terminal) (s : List UInt8), t.OnScreen → (∀ c ∈ s, Printable c) → InPlace t s → Undone t s := by
  intro hall
  have hs : ∀ c ∈ [(97 : UInt8)], Printable c := by simp [Printable]
  have hscreen : (Terminal.empty 79 3).OnScreen := empty_onScreen (by decide) (by decide)
  have hplace : InPlace (.empty 79 3) [97] := by decide
  have hundone := hall _ _ hscreen hs hplace
  exact absurd (lt_of_undone hscreen (fun c hc => (hs c hc).ordinary) hplace hundone) (by decide)

end Basedos.Kernel
