import Basedos.Kernel.Terminal

/-!
# The terminal shows the end of an unbounded page

What the terminal is for, with no scrolling: the characters are written on a page of
80-column rows without end, wrapping at column 80. The screen shows its last 25 rows,
up to the row of the cursor, or its first 25 while it is no longer.

## What is proved

`terminal_shows_page` — **over any sequence of calls** of `putchar` with any bytes,
`terminal_setcolor` and `terminal_clear` after `terminal_initialize`, with the bounds
of the cursor and of the cells written.

The relation is `ShowsFrom`: the screen shows the page from row `top` on. A character
keeps it with the same `top`; the scroll keeps it with the next.
-/

namespace Basedos.Kernel

open Basedos.Lib

/-! ### The page -/

/-- A page, with the place of the next character. -/
structure Page where
  /-- The character in a row and a column. -/
  cells : ℕ → ℕ → UInt8
  /-- The row of the cursor. -/
  row : ℕ
  /-- The column of the cursor. -/
  col : ℕ

/-- The blank page. -/
def Page.blank : Page := ⟨fun _ _ => 32, 0, 0⟩

/-- A character at row `r` and column `c`. -/
def Page.put (p : Page) (r c : ℕ) (ch : UInt8) : Page :=
  { p with cells := fun r' c' => if r' = r ∧ c' = c then ch else p.cells r' c' }

/-- A character written: newline, carriage return, backspace, tab, or any other. -/
def Page.write (p : Page) (c : UInt8) : Page :=
  if c = 10 then { p with row := p.row + 1, col := 0 }
  else if c = 13 then { p with col := 0 }
  else if c = 8 then if 0 < p.col then { p.put p.row (p.col - 1) 32 with col := p.col - 1 } else p
  else if c = 9 then { p with col := (p.col + 8) / 8 * 8 }
  else { p.put p.row p.col c with col := p.col + 1 }

/-- The wrap at column 80. -/
def Page.wrap (p : Page) : Page := if 80 ≤ p.col then { p with row := p.row + 1, col := 0 } else p

/-- The first row shown. -/
def Page.top (p : Page) : ℕ := p.row - 24

/-- A call. -/
inductive Op where
  | putchar (c : UInt8)
  | setcolor (fg bg : UInt8)
  | clear

/-- A call on the terminal. -/
def terminalStep (t : Terminal) : Op → Terminal
  | .putchar c => putchar t c
  | .setcolor fg bg => terminalSetcolor t fg bg
  | .clear => terminalClear t

/-- A call on the page. -/
def pageStep (p : Page) : Op → Page
  | .putchar c => (p.write c).wrap
  | .setcolor _ _ => p
  | .clear => .blank

/-! ### Character bytes -/

/-- The character byte of a cell of video memory. -/
def Terminal.charAt (t : Terminal) (i : ℤ) : UInt8 := (t.videoMemory i).toUInt8

/-- The character byte of the cell in row `y` and column `x` of the screen. -/
def Terminal.char (t : Terminal) (y x : ℕ) : UInt8 := (t.videoMemory (y * 80 + x)).toUInt8

theorem toUInt8_attribute_or (a : UInt8) (b : UInt16) : (a.toUInt16 <<< 8 ||| b).toUInt8 = b.toUInt8 := by
  rw [← UInt8.toBitVec_inj]
  ext i hi
  simp

@[simp] theorem toUInt8_blank (t : Terminal) : t.blank.toUInt8 = 32 := toUInt8_attribute_or _ _

/-- A cell keeps the character put into it, whatever became of the attribute. -/
@[simp] theorem toUInt8_cell (t : Terminal) (c : UInt8) : (t.cell c).toUInt8 = c := by
  rw [Terminal.cell, toUInt8_attribute_or, ← UInt8.toBitVec_inj]
  ext i hi
  simp [BitVec.getElem_setWidth, BitVec.getLsbD_signExtend, hi]
  omega

/-- The characters after a store into a cell. -/
theorem charAt_poke (t : Terminal) (j i : ℤ) (cell : UInt16) :
    (t.poke j cell).charAt i = if i = j then cell.toUInt8 else t.charAt i := by
  simp only [Terminal.charAt, Terminal.poke, Function.update_apply]
  split_ifs <;> rfl

/-- The character in a row and a column after a store into a cell of the screen. -/
theorem char_poke (t : Terminal) {r c y x : ℕ} (hc : c < 80) (hx : x < 80) (cell : UInt16) :
    (t.poke ((r : ℤ) * 80 + c) cell).char y x = if y = r ∧ x = c then cell.toUInt8 else t.char y x := by
  have hsame : ((y : ℤ) * 80 + x = (r : ℤ) * 80 + c) ↔ y = r ∧ x = c := by omega
  have h := charAt_poke t ((r : ℤ) * 80 + c) (y * 80 + x) cell
  simp only [hsame] at h
  exact h

/-! ### The screen shows the page from a row on -/

/-- The screen shows the page from row `top` on, and only the screen has been written. -/
structure ShowsFrom (t : Terminal) (p : Page) (top : ℕ) : Prop where
  cursorX : t.cursorX = p.col
  cursorY : t.cursorY = p.row - top
  top_le : top ≤ p.row
  cells : ∀ y x, y < 25 → x < 80 → t.char y x = p.cells (top + y) x
  below : ∀ r x, top + 25 ≤ r → p.cells r x = 32
  written : ∀ i ∈ t.written, 0 ≤ i ∧ i < 2000

variable {t : Terminal} {p : Page} {top : ℕ}

/-- A character put into a cell of the screen and of the page. -/
theorem ShowsFrom.put (h : ShowsFrom t p top) (hrow : p.row < top + 25) {c : ℕ} (hc : c < 80) {cell : UInt16}
    {ch : UInt8} (hch : cell.toUInt8 = ch) :
    ShowsFrom (t.poke (t.cursorY * 80 + c) cell) (p.put p.row c ch) top := by
  have htop := h.top_le
  have hy : t.cursorY = ((p.row - top : ℕ) : ℤ) := by rw [h.cursorY]; omega
  refine ⟨h.cursorX, h.cursorY, h.top_le, fun y x hy' hx => ?_, fun r x hr => ?_, fun i hi => ?_⟩
  · rw [hy, char_poke t hc hx, h.cells y x hy' hx, hch]
    have hiff : (y = p.row - top ∧ x = c) ↔ (top + y = p.row ∧ x = c) := by omega
    simp only [hiff]
    rfl
  · have hne : ¬(r = p.row ∧ x = c) := by omega
    simp only [Page.put, if_neg hne]
    exact h.below r x hr
  · rw [Terminal.poke, List.mem_append, List.mem_singleton] at hi
    rcases hi with hi | rfl
    · exact h.written i hi
    · rw [hy]; omega

/-- The character itself: the cursor may reach column 80 or row 25 of the screen. -/
theorem ShowsFrom.place (h : ShowsFrom t p top) (hcol : p.col < 80) (hrow : p.row < top + 25) (c : UInt8) :
    ShowsFrom (t.place c) (p.write c) top ∧ (p.write c).col ≤ 80 ∧ p.row ≤ (p.write c).row ∧
      ((p.write c).row = p.row ∨ (p.write c).row = p.row + 1 ∧ (p.write c).col = 0) := by
  have hx := h.cursorX
  unfold Terminal.place Page.write
  split_ifs with h10 h13 h8 hpos hpos' hpos' h9
  · refine ⟨⟨rfl, ?_, ?_, h.cells, h.below, h.written⟩, by simp, by simp, .inr ⟨rfl, rfl⟩⟩
    · simp only [h.cursorY]; omega
    · simp only; have := h.top_le; omega
  · exact ⟨⟨rfl, h.cursorY, h.top_le, h.cells, h.below, h.written⟩, by simp, le_rfl, .inl rfl⟩
  · have hput := h.put hrow (c := p.col - 1) (by omega) (toUInt8_blank t)
    have hcol' : t.cursorX - 1 = ((p.col - 1 : ℕ) : ℤ) := by omega
    rw [hcol']
    exact ⟨⟨rfl, h.cursorY, h.top_le, hput.cells, hput.below, hput.written⟩, by simp only; omega,
      le_rfl, .inl rfl⟩
  · omega
  · omega
  · exact ⟨h, hcol.le, le_rfl, .inl rfl⟩
  · exact ⟨⟨by simp only [hx]; omega, h.cursorY, h.top_le, h.cells, h.below, h.written⟩, by simp only; omega,
      le_rfl, .inl rfl⟩
  · have hput := h.put hrow hcol (toUInt8_cell t c)
    rw [← hx] at hput
    exact ⟨⟨by simp only [hx]; omega, h.cursorY, h.top_le, hput.cells, hput.below, hput.written⟩,
      by simp only; omega, le_rfl, .inl rfl⟩

/-- The wrap. -/
theorem ShowsFrom.wrap (h : ShowsFrom t p top) (hcol : p.col ≤ 80) :
    ShowsFrom t.wrap p.wrap top ∧ p.wrap.col < 80 ∧
      (p.wrap.row = p.row ∨ p.wrap.row = p.row + 1 ∧ p.col = 80) := by
  have hx := h.cursorX
  unfold Terminal.wrap Page.wrap
  split_ifs with h₁ h₂ h₂
  · refine ⟨⟨rfl, ?_, ?_, h.cells, h.below, h.written⟩, by simp, .inr ⟨rfl, by omega⟩⟩
    · simp only [h.cursorY]; omega
    · simp only; have := h.top_le; omega
  · omega
  · omega
  · exact ⟨h, by omega, .inl rfl⟩

/-- The scroll: past row 24 of the screen the page is shown from the next row on. -/
theorem ShowsFrom.scroll (h : ShowsFrom t p top) (hrow : p.row ≤ top + 25) :
    ShowsFrom t.scroll p (if p.row = top + 25 then top + 1 else top) := by
  have hy := h.cursorY
  by_cases hscroll : 25 ≤ t.cursorY
  · have hs := scroll_scrolled hscroll
    rw [if_pos (by omega)]
    refine ⟨hs.cursorX.trans h.cursorX, hs.cursorY.trans (by omega), by omega, fun y x hy' hx => ?_,
      fun r x hr => h.below r x (by omega), fun i hi => ?_⟩
    · unfold Terminal.char
      by_cases hy24 : y < 24
      · have hcell := h.cells (y + 1) x (by omega) hx
        rw [Terminal.char, Nat.cast_succ, add_one_mul, add_right_comm] at hcell
        rw [hs.rows _ (by omega) (by omega), hcell]
        congr 1
        omega
      · rw [hs.lastRow _ (by omega) (by omega), toUInt8_blank, h.below _ _ (by omega)]
    · exact (hs.written i hi).elim (h.written i) id
  · rw [scroll_of_lt (by omega), if_neg (by omega)]
    exact h

/-! ### Any sequence of calls -/

/-- The screen shows the end of the page, and the cursor is on it. -/
structure Shows (t : Terminal) (p : Page) : Prop where
  showsFrom : ShowsFrom t p p.top
  col_lt : p.col < 80

theorem terminalInitialize_shows (hw : ∀ i ∈ t.written, 0 ≤ i ∧ i < 2000) : Shows (terminalInitialize t) .blank where
  showsFrom := by
    have h := clearScreen_rewrites t
    refine ⟨rfl, rfl, le_rfl, fun y x hy hx => ?_, fun _ _ _ => rfl, fun i hi => ?_⟩
    · unfold Terminal.char terminalInitialize Terminal.updateCursor
      simp only
      rw [h.inside _ (by omega) (by omega), toUInt8_blank]
      rfl
    · exact (h.written i hi).elim (hw i) id
  col_lt := by decide

/-- **One character**: placed, wrapped, and the screen scrolled if need be. -/
theorem Shows.putchar (h : Shows t p) (c : UInt8) : Shows (putchar t c) (p.write c).wrap := by
  have htop : p.top = p.row - 24 := rfl
  obtain ⟨hplace, hcol, hle, hrow⟩ := h.showsFrom.place h.col_lt (by omega) c
  obtain ⟨hwrap, hcol', hrow'⟩ := hplace.wrap hcol
  have hscroll := hwrap.scroll (by omega)
  have htop' : (if (p.write c).wrap.row = p.top + 25 then p.top + 1 else p.top) = (p.write c).wrap.top := by
    unfold Page.top at *
    split_ifs <;> omega
  rw [htop'] at hscroll
  exact ⟨⟨hscroll.cursorX, hscroll.cursorY, hscroll.top_le, hscroll.cells, hscroll.below, hscroll.written⟩,
    hcol'⟩

theorem Shows.step (h : Shows t p) (op : Op) : Shows (terminalStep t op) (pageStep p op) := by
  cases op with
  | putchar c => exact h.putchar c
  | setcolor fg bg =>
    have hs := h.showsFrom
    exact ⟨⟨hs.cursorX, hs.cursorY, hs.top_le, hs.cells, hs.below, hs.written⟩, h.col_lt⟩
  | clear => exact terminalInitialize_shows h.showsFrom.written

theorem Shows.run (h : Shows t p) (ops : List Op) : Shows (ops.foldl terminalStep t) (ops.foldl pageStep p) := by
  induction ops generalizing t p with
  | nil => exact h
  | cons op ops ih => exact ih (h.step op)

/-- **The terminal shows the end of the page**, after any sequence of calls. -/
theorem terminal_shows_page (t : Terminal) (ops : List Op) :
    let t' := ops.foldl terminalStep (terminalInitialize { t with written := [] })
    let p := ops.foldl pageStep .blank
    (0 ≤ t'.cursorX ∧ t'.cursorX < 80) ∧ (0 ≤ t'.cursorY ∧ t'.cursorY < 25) ∧
      (∀ i ∈ t'.written, 0 ≤ i ∧ i ≤ 1999) ∧ t'.cursorX = p.col ∧ t'.cursorY = p.row - (p.row - 24 : ℕ) ∧
      ∀ y x, y < 25 → x < 80 → t'.char y x = p.cells (p.row - 24 + y) x := by
  intro t' p
  have h : Shows t' p := (terminalInitialize_shows (t := { t with written := [] }) (by simp)).run ops
  have hs := h.showsFrom
  have hx := hs.cursorX
  have hy := hs.cursorY
  have hcol := h.col_lt
  have htop : p.top = p.row - 24 := rfl
  refine ⟨by omega, by omega, fun i hi => ?_, hx, hy, hs.cells⟩
  have := hs.written i hi
  omega

end Basedos.Kernel
