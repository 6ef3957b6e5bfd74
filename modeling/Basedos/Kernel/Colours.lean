import Basedos.CLib.String
import Basedos.Kernel.Page
import Basedos.Lib.Run

/-!
# The colours of the characters

A cell of video memory is a character and the attribute it is shown in. `terminal_setcolor` sets the
attribute for what is written after it.

## The model

`Sheet` is the page of `Basedos.Kernel.Page` with the colours its characters are to have: a character is
written in the attribute set last, has it as long as nothing else is written in its place, and what was
there before, or has been rubbed out, is of no colour. The screen keeps the sheet (`Coloured`) if each cell
shown has the character and the colour of the sheet, in its low and in its high byte; the sheet has no end,
so that a cell has to keep them in every scroll.

A call of `terminal_writestring` is its characters, one after the other (`Call.ops`), and the screen is
looked at after each of them.

A `char` is signed, and is extended to the width of the attribute: one from 128 on sets all the bits of the
high byte.

## What is proved

* `colour_cell` — the high byte of a character's cell.
* `videoMemory_putchar` — what the scroll does to a cell.
* `coloured_putchar_iff` — **a step**: the sheet is kept exactly when the character's own cell is right.
* `coloured_iff` — **all along** any run of calls.
-/

namespace Basedos.Kernel

open Basedos.Lib Basedos.CLib

/-! ### The sheet -/

/-- A page, and its colours. -/
structure Sheet extends Page where
  /-- The attribute of the character in a row and a column, if one was written there. -/
  colours : ℕ → ℕ → Option UInt8
  /-- The attribute set last. -/
  ink : UInt8

/-- The colours after a character: it is in the attribute set last, and a backspace rubs one out. -/
def Sheet.tint (p : Sheet) (c : UInt8) (r x : ℕ) : Option UInt8 :=
  if Ordinary c ∧ r = p.row ∧ x = p.col then some p.ink
  else if c = 8 ∧ 0 < p.col ∧ r = p.row ∧ x = p.col - 1 then none
  else p.colours r x

/-- A call on the sheet. -/
def sheetStep (p : Sheet) : Op → Sheet
  | .putchar c => { (p.write c).wrap with colours := p.tint c, ink := p.ink }
  | .setcolor fg bg => { p with ink := bg <<< 4 ||| fg &&& 0x0F }
  | .clear => { Page.blank with colours := fun _ _ => none, ink := p.ink }

/-- The sheet of a screen: the characters it shows, of no colour. -/
def Sheet.of (t : Terminal) : Sheet where
  cells r x := if r < 25 ∧ x < 80 then t.char r x else 32
  row := t.cursorY.toNat
  col := t.cursorX.toNat
  colours _ _ := none
  ink := t.textAttribute

/-- The high byte of the cell in row `y` and column `x` of the screen. -/
def Terminal.colour (t : Terminal) (y x : ℕ) : UInt8 := (t.videoMemory (y * 80 + x) >>> 8).toUInt8

/-- **Cells keep their colour and character**: each cell shown that a character of the sheet is in. -/
def Coloured (t : Terminal) (p : Sheet) : Prop :=
  ∀ y x a, y < 25 → x < 80 → p.colours (p.top + y) x = some a →
    t.char y x = p.cells (p.top + y) x ∧ t.colour y x = a

/-! ### Calls -/

/-- A call, of the two. -/
inductive Call where
  | setcolor (fg bg : UInt8)
  | writestring (str : CStr)

/-- The call character by character. -/
def Call.ops : Call → List Op
  | .setcolor fg bg => [.setcolor fg bg]
  | .writestring str => str.bytes.map .putchar

/-- A character, or a colour, on the screen and the sheet. -/
def colourStep (s : Terminal × Sheet) (op : Op) : Unit × Terminal × Sheet :=
  ((), terminalStep s.1 op, sheetStep s.2 op)

/-- The screen and the sheet after the first `n` steps of the calls. -/
def after (t : Terminal) (calls : List Call) (n : ℕ) : Terminal × Sheet :=
  (run colourStep ({ t with written := [] }, .of t) ((calls.flatMap Call.ops).take n)).2

/-- The step keeps to ASCII, or to the one attribute that has all its bits set. -/
def Plain (s : Terminal × Sheet) : Op → Prop
  | .putchar c => Ordinary c → c < 128 ∨ s.2.ink = 0xFF
  | _ => True

instance (s : Terminal × Sheet) : ∀ op, Decidable (Plain s op)
  | .putchar c => inferInstanceAs (Decidable (Ordinary c → c < 128 ∨ s.2.ink = 0xFF))
  | .setcolor _ _ => inferInstanceAs (Decidable True)
  | .clear => inferInstanceAs (Decidable True)

/-! ### The high byte -/

/-- A `char` extended to 16 bits: from 128 on it has all bits of the high byte set. -/
theorem toNat_char (c : UInt8) :
    (c.toInt8.toInt16.toUInt16).toNat = c.toNat + if c < 128 then 0 else 0xFF00 := by
  have hmsb : c.toBitVec.msb = decide (128 ≤ c) := BitVec.msb_eq_decide c.toBitVec
  have h := BitVec.toNat_signExtend c.toBitVec (v := 16)
  rw [hmsb, BitVec.toNat_setWidth] at h
  refine h.trans ?_
  have hlt : c.toBitVec.toNat < 256 := c.toNat_lt
  rw [Nat.mod_eq_of_lt (by omega)]
  congr 1
  by_cases hc : c < 128
  · simp [hc]
  · simp [hc, UInt8.not_lt.mp hc]

/-- Its high byte. -/
theorem highByte_char (c : UInt8) :
    (c.toInt8.toInt16.toUInt16 >>> 8).toUInt8 = if c < 128 then 0 else 0xFF := by
  have h := toNat_char c
  have hc := c.toNat_lt
  rw [← UInt8.toNat_inj, UInt16.toNat_toUInt8, UInt16.toNat_shiftRight, h, Nat.shiftRight_eq_div_pow]
  split_ifs
  · rw [UInt8.toNat_zero]
    simp
    omega
  · simp
    omega

/-- **The high byte of a cell.** -/
theorem colour_cell (t : Terminal) (c : UInt8) :
    (t.cell c >>> 8).toUInt8 = if c < 128 then t.textAttribute else 0xFF := by
  have h : (t.cell c >>> 8).toUInt8 = t.textAttribute ||| (c.toInt8.toInt16.toUInt16 >>> 8).toUInt8 := by
    rw [Terminal.cell, ← UInt8.toBitVec_inj]
    ext i hi
    have h16 : 8 + i < 16 := by omega
    have h16' : i < 16 := by omega
    have h8 : ¬ 8 + i < 8 := by omega
    simp [h8, h16, h16', BitVec.getLsbD_eq_getElem hi]
  rw [h, highByte_char]
  split_ifs
  · exact UInt8.or_zero
  · rw [← UInt8.toBitVec_inj]
    exact BitVec.or_allOnes

/-! ### A step -/

/-- The screen shows the sheet's page, and the attribute is the one set last. -/
structure OnSheet (t : Terminal) (p : Sheet) : Prop where
  shows : Shows t p.toPage
  ink : t.textAttribute = p.ink
  colours : ∀ r x a, p.colours r x = some a → r ≤ p.row ∧ x < 80

variable {t : Terminal} {p : Sheet}

/-- The character itself changes the cell of the cursor, or the one before it. -/
theorem videoMemory_place (t : Terminal) (c : UInt8) (i : ℤ) :
    (t.place c).videoMemory i =
      if Ordinary c ∧ i = t.cursorY * 80 + t.cursorX then t.cell c
      else if c = 8 ∧ 0 < t.cursorX ∧ i = t.cursorY * 80 + (t.cursorX - 1) then t.blank
      else t.videoMemory i := by
  by_cases hc : Ordinary c
  · rw [place_of_ordinary t hc]
    simp only [Terminal.poke, Function.update_apply, hc, hc.2.2.1, true_and, false_and, if_false]
  · by_cases h8 : c = 8
    · subst h8
      by_cases hpos : 0 < t.cursorX
      · rw [place_backspace hpos]
        simp only [Terminal.poke, Function.update_apply, hc, hpos, true_and, false_and, if_false]
      · have hplace : t.place 8 = t := by
          rw [Terminal.place, if_neg (by decide), if_neg (by decide), if_pos rfl, if_neg hpos]
        simp only [hplace, hc, hpos, false_and, and_false, if_false]
    · have hplace : (t.place c).videoMemory = t.videoMemory := by
        unfold Terminal.place
        split_ifs with h10 h13 h9
        · rfl
        · rfl
        · rfl
        · exact absurd ⟨h10, h13, h8, h9⟩ hc
      simp only [hplace, hc, h8, false_and, if_false]

/-- The wrap writes nothing. -/
theorem videoMemory_wrap (t : Terminal) : t.wrap.videoMemory = t.videoMemory := by
  unfold Terminal.wrap
  split_ifs <;> rfl

/-- A character leaves the attribute. -/
theorem textAttribute_putchar (t : Terminal) (c : UInt8) : (putchar t c).textAttribute = t.textAttribute := by
  have hplace : (t.place c).textAttribute = t.textAttribute := by
    unfold Terminal.place
    split_ifs <;> rfl
  have hwrap : (t.place c).wrap.textAttribute = (t.place c).textAttribute := by
    unfold Terminal.wrap
    split_ifs <;> rfl
  have hscroll (t : Terminal) : t.scroll.textAttribute = t.textAttribute := by
    by_cases hy : 25 ≤ t.cursorY
    · exact (scroll_scrolled hy).textAttribute
    · rw [scroll_of_lt (by omega)]
  exact (hscroll _).trans (hwrap.trans hplace)

/-- The cursor does not go up on the page, and the row it has been in is still shown. -/
theorem row_write (h : Shows t p.toPage) (c : UInt8) :
    p.row ≤ (p.write c).wrap.row ∧ p.top ≤ (p.write c).wrap.top ∧ (p.write c).wrap.top ≤ p.row ∧
      p.row < (p.write c).wrap.top + 25 := by
  have hrow : p.top = p.row - 24 := rfl
  have hrow' : (p.write c).wrap.top = (p.write c).wrap.row - 24 := rfl
  obtain ⟨hplace, hcol, hle, hnext⟩ := h.showsFrom.place h.col_lt (by omega) c
  have hnext' := (hplace.wrap hcol).2.2
  omega

/-- Nor does clearing the screen change it. -/
theorem textAttribute_terminalInitialize (t : Terminal) :
    (terminalInitialize t).textAttribute = t.textAttribute := by
  unfold terminalInitialize Terminal.updateCursor
  simp only [(clearScreen_rewrites t).textAttribute]

/-- **A cell moves with its row**, whether or not the screen scrolls: a row down to the cursor's, as the
character itself has left it. -/
theorem videoMemory_putchar (h : Shows t p.toPage) (c : UInt8) {y x : ℕ} (hr : (p.write c).wrap.top + y ≤ p.row)
    (hx : x < 80) :
    (putchar t c).videoMemory (y * 80 + x) =
      (t.place c).videoMemory (((p.write c).wrap.top + y - p.top : ℕ) * 80 + x) := by
  have hrow : p.top = p.row - 24 := rfl
  have hrow' : (p.write c).wrap.top = (p.write c).wrap.row - 24 := rfl
  obtain ⟨hplace, hcol, hle, hnext⟩ := h.showsFrom.place h.col_lt (by omega) c
  obtain ⟨hwrap, -, hnext'⟩ := hplace.wrap hcol
  have hy := hwrap.cursorY
  show (t.place c).wrap.scroll.videoMemory _ = _
  by_cases hscroll : (p.write c).wrap.row = p.top + 25
  · rw [(scroll_scrolled (by omega)).rows _ (by omega) (by omega), videoMemory_wrap]
    congr 1
    omega
  · rw [scroll_of_lt (by omega), videoMemory_wrap]
    congr 1
    omega

/-- The cells of the rows down to the cursor's, after a character. -/
theorem cell_putchar (h : OnSheet t p) (c : UInt8) {y x : ℕ} (hr : (p.write c).wrap.top + y ≤ p.row) (hx : x < 80) :
    (putchar t c).videoMemory (y * 80 + x) =
      if Ordinary c ∧ (p.write c).wrap.top + y = p.row ∧ x = p.col then t.cell c
      else if c = 8 ∧ 0 < p.col ∧ (p.write c).wrap.top + y = p.row ∧ x = p.col - 1 then t.blank
      else t.videoMemory (((p.write c).wrap.top + y - p.top : ℕ) * 80 + x) := by
  have hcol := h.shows.col_lt
  have hcx := h.shows.showsFrom.cursorX
  have hcy := h.shows.showsFrom.cursorY
  have htop := h.shows.showsFrom.top_le
  have hle := (row_write h.shows c).2.1
  have hcell := videoMemory_putchar h.shows c hr hx
  generalize (p.write c).wrap.top = top at *
  have hown : (((top + y - p.top : ℕ) : ℤ) * 80 + x = t.cursorY * 80 + t.cursorX) ↔ top + y = p.row ∧ x = p.col := by
    omega
  have hback : (0 < t.cursorX ∧ ((top + y - p.top : ℕ) : ℤ) * 80 + x = t.cursorY * 80 + (t.cursorX - 1)) ↔
      0 < p.col ∧ top + y = p.row ∧ x = p.col - 1 := by
    omega
  rw [hcell, videoMemory_place]
  simp only [hown, hback]

/-- **A step**: a sheet that the screen keeps is kept exactly when the step is plain. -/
theorem coloured_putchar_iff (h : OnSheet t p) (hcoloured : Coloured t p) (c : UInt8) :
    Coloured (putchar t c) (sheetStep p (.putchar c)) ↔ (Ordinary c → c < 128 ∨ p.ink = 0xFF) := by
  have hcol := h.shows.col_lt
  have hpage : p.top = p.row - 24 := rfl
  obtain ⟨-, htop, hrow, hrow'⟩ := row_write h.shows c
  constructor
  · intro hk hc
    obtain ⟨y, hy⟩ : ∃ y, (p.write c).wrap.top + y = p.row := ⟨p.row - (p.write c).wrap.top, by omega⟩
    have hown := cell_putchar h c hy.le hcol
    rw [if_pos ⟨hc, hy, rfl⟩] at hown
    have htint : p.tint c ((p.write c).wrap.top + y) p.col = some p.ink := if_pos ⟨hc, hy, rfl⟩
    have hcolour := (hk y p.col p.ink (by omega) hcol htint).2
    rw [Terminal.colour, hown, colour_cell, h.ink] at hcolour
    split_ifs at hcolour with h128
    · exact .inl h128
    · exact .inr hcolour.symm
  · intro hplain y x a hy hx htint
    refine ⟨(h.shows.putchar c).showsFrom.cells y x hy hx, ?_⟩
    have hold : p.top + ((p.write c).wrap.top + y - p.top) = (p.write c).wrap.top + y := by omega
    change p.tint c ((p.write c).wrap.top + y) x = some a at htint
    unfold Sheet.tint at htint
    split_ifs at htint with hown hback
    · obtain rfl : p.ink = a := Option.some.inj htint
      rw [Terminal.colour, cell_putchar h c hown.2.1.le hx, if_pos hown, colour_cell, h.ink]
      split_ifs with h128
      · rfl
      · exact ((hplain hown.1).resolve_left h128).symm
    · have hr := (h.colours _ _ _ htint).1
      rw [Terminal.colour, cell_putchar h c hr hx, if_neg hown, if_neg hback]
      exact (hcoloured _ x a (by omega) hx (by rw [hold]; exact htint)).2

/-- What the sheet and the screen have in common is so after every step. -/
theorem OnSheet.step (h : OnSheet t p) (op : Op) : OnSheet (terminalStep t op) (sheetStep p op) := by
  cases op with
  | putchar c =>
    refine ⟨h.shows.putchar c, (textAttribute_putchar t c).trans h.ink, fun r x a htint => ?_⟩
    have hcol := h.shows.col_lt
    have hrow := (row_write h.shows c).1
    change p.tint c r x = some a at htint
    show r ≤ (p.write c).wrap.row ∧ x < 80
    unfold Sheet.tint at htint
    split_ifs at htint with hown
    · omega
    · have := h.colours r x a htint
      omega
  | setcolor fg bg =>
    have hshows := h.shows.step (.setcolor fg bg)
    exact ⟨hshows, rfl, h.colours⟩
  | clear =>
    have hshows := h.shows.step .clear
    exact ⟨hshows, (textAttribute_terminalInitialize t).trans h.ink, fun r x a htint => absurd htint nofun⟩

/-- The sheet of a screen. -/
theorem onSheet_of (h : t.OnScreen) : OnSheet { t with written := [] } (.of t) := by
  obtain ⟨h₁, h₂, h₃, h₄⟩ := h
  have htop : (Sheet.of t).top = 0 := Nat.sub_eq_zero_of_le (show t.cursorY.toNat ≤ 24 by omega)
  have hfrom : ShowsFrom { t with written := [] } (Sheet.of t).toPage 0 := by
    refine ⟨(Int.toNat_of_nonneg h₁).symm, ?_, Nat.zero_le _, fun y x hy hx => ?_, fun r x hr => ?_,
      fun i hi => absurd hi List.not_mem_nil⟩
    · rw [Nat.cast_zero, sub_zero]
      exact (Int.toNat_of_nonneg h₃).symm
    · rw [zero_add]
      exact (if_pos ⟨hy, hx⟩).symm
    · exact if_neg (by omega)
  refine ⟨⟨by rw [htop]; exact hfrom, ?_⟩, rfl, fun r x a htint => absurd htint nofun⟩
  show t.cursorX.toNat < 80
  omega

/-- **A step**, of any kind. -/
theorem coloured_step_iff (h : OnSheet t p) (hcoloured : Coloured t p) (op : Op) :
    Coloured (terminalStep t op) (sheetStep p op) ↔ Plain (t, p) op := by
  cases op with
  | putchar c => exact coloured_putchar_iff h hcoloured c
  | setcolor fg bg => exact iff_of_true hcoloured trivial
  | clear => exact iff_of_true (fun y x a _ _ htint => absurd htint nofun) trivial

/-! ### Any run of calls -/

theorem coloured_of (t : Terminal) : Coloured { t with written := [] } (.of t) :=
  fun _ _ _ _ _ htint => absurd htint nofun

/-- **Cells keep their colour and character** all along a run of calls, from any screen, exactly when every
character in it is below 128 or the attribute then is `0xFF`. -/
theorem coloured_iff {t : Terminal} (h : t.OnScreen) (calls : List Call) :
    (∀ n, Coloured (after t calls n).1 (after t calls n).2) ↔
      Along colourStep Plain ({ t with written := [] }, .of t) (calls.flatMap Call.ops) := by
  apply always_iff_along (J := fun s : Terminal × Sheet => OnSheet s.1 s.2) (I := fun s => Coloured s.1 s.2)
  · intro s op hs
    exact hs.step op
  · intro s op hs hcoloured
    exact coloured_step_iff hs hcoloured op
  · exact onSheet_of h
  · exact coloured_of t

/-- A word in red on the last row, and a line in grey that scrolls it. -/
def warning : List Call :=
  [.setcolor 4 0, .writestring ⟨ascii ['n', 'o', ' '], by decide⟩, .setcolor 7 0,
    .writestring ⟨ascii ['d', 'i', 's', 'k', '\n'], by decide⟩]

theorem coloured_warning :
    (Terminal.empty 0 24).OnScreen ∧
      ∀ n, Coloured (after (.empty 0 24) warning n).1 (after (.empty 0 24) warning n).2 := by
  have h : (Terminal.empty 0 24).OnScreen := empty_onScreen (by decide) (by decide)
  exact ⟨h, (coloured_iff h warning).mpr (by decide)⟩

/-- The byte `0x80` in grey is stored in the colour `0xFF`. -/
theorem not_forall_coloured :
    ¬ ∀ (t : Terminal) (calls : List Call), t.OnScreen →
      ∀ n, Coloured (after t calls n).1 (after t calls n).2 := by
  intro hall
  have h : (Terminal.empty 0 0).OnScreen := empty_onScreen (by decide) (by decide)
  have hfirst := hall _ [.writestring ⟨[0x80], by decide⟩] h 1
  have hplain := (coloured_step_iff (onSheet_of h) (coloured_of _) (.putchar 0x80)).mp hfirst
  exact absurd (hplain (by decide)) (by decide)

end Basedos.Kernel
