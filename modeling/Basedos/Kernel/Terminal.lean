import Basedos.Lib.Loop
import Mathlib.Data.UInt
import Mathlib.Logic.Function.Basic

/-!
# The terminal

`kernel/terminal.c`: text mode, 25 rows of 80 cells in video memory, a cell being a
character and an attribute byte.

## The model

Video memory is a 16-bit cell at each integer index, of which `0..1999` are the screen;
which indices are written is recorded, and that they all are of the screen is proved in
`Basedos.Kernel.Page`. `putchar` is written as its stages: the character, the wrap, the
scroll, the hardware cursor. A `char` is signed: put into a cell, one from 128 on sets
all the bits of the attribute.

## What is proved

* `scroll_scrolled` — the scroll moves every row up and clears the last.
* `Terminal.OnScreen.putchar` — no character takes the cursor off the screen, or to a higher row.
-/

namespace Basedos.Kernel

open Basedos.Lib

/-- The screen, and the variables of `terminal.c`. -/
structure Terminal where
  /-- `video_memory`. -/
  videoMemory : ℤ → UInt16
  /-- `cursor_x`. -/
  cursorX : ℤ
  /-- `cursor_y`. -/
  cursorY : ℤ
  /-- `text_attribute`. -/
  textAttribute : UInt8
  /-- The location of the hardware's cursor. -/
  location : UInt16
  /-- The indices of `video_memory` written. -/
  written : List ℤ

/-- `video_memory[i] = cell`. -/
def Terminal.poke (t : Terminal) (i : ℤ) (cell : UInt16) : Terminal :=
  { t with videoMemory := Function.update t.videoMemory i cell, written := t.written ++ [i] }

/-- `(text_attribute << 8) | ' '`. -/
def Terminal.blank (t : Terminal) : UInt16 := t.textAttribute.toUInt16 <<< 8 ||| 32

/-- `(text_attribute << 8) | c`. -/
def Terminal.cell (t : Terminal) (c : UInt8) : UInt16 :=
  t.textAttribute.toUInt16 <<< 8 ||| c.toInt8.toInt16.toUInt16

/-- `update_cursor`: the low byte, and the high byte. -/
def Terminal.updateCursor (t : Terminal) : Terminal :=
  { t with location := UInt16.ofInt (t.cursorY * 80 + t.cursorX) }

/-- The loop that clears row `y`. -/
def Terminal.clearRow (y : ℕ) (t : Terminal) : Terminal :=
  forLoop 80 (fun x t => t.poke (y * 80 + x) t.blank) t

/-- The loop that copies the next row to row `y`. -/
def Terminal.copyRow (y : ℕ) (t : Terminal) : Terminal :=
  forLoop 80 (fun x t => t.poke (y * 80 + x) (t.videoMemory ((y + 1) * 80 + x))) t

/-- `terminal_initialize`. -/
def terminalInitialize (t : Terminal) : Terminal :=
  { forLoop 25 Terminal.clearRow t with cursorX := 0, cursorY := 0 }.updateCursor

/-- `terminal_clear`. -/
def terminalClear (t : Terminal) : Terminal := terminalInitialize t

/-- `terminal_setcolor`. -/
def terminalSetcolor (t : Terminal) (fg bg : UInt8) : Terminal :=
  { t with textAttribute := bg <<< 4 ||| fg &&& 0x0F }

/-- `putchar`, the character itself. `(cursor_x + 8) & ~7` is the next multiple of 8. -/
def Terminal.place (t : Terminal) (c : UInt8) : Terminal :=
  if c = 10 then { t with cursorX := 0, cursorY := t.cursorY + 1 }
  else if c = 13 then { t with cursorX := 0 }
  else if c = 8 then
    if t.cursorX > 0 then
      { t with cursorX := t.cursorX - 1 }.poke (t.cursorY * 80 + (t.cursorX - 1)) t.blank
    else t
  else if c = 9 then { t with cursorX := (t.cursorX + 8) / 8 * 8 }
  else { t.poke (t.cursorY * 80 + t.cursorX) (t.cell c) with cursorX := t.cursorX + 1 }

/-- `putchar`, the line wrap. -/
def Terminal.wrap (t : Terminal) : Terminal :=
  if t.cursorX ≥ 80 then { t with cursorX := 0, cursorY := t.cursorY + 1 } else t

/-- `putchar`, the scroll. -/
def Terminal.scroll (t : Terminal) : Terminal :=
  if t.cursorY ≥ 25 then { (forLoop 24 Terminal.copyRow t).clearRow 24 with cursorY := 24 } else t

/-- `putchar`. -/
def putchar (t : Terminal) (c : UInt8) : Terminal := (t.place c).wrap.scroll.updateCursor

/-- `terminal_writestring`. -/
def terminalWritestring (t : Terminal) (str : List UInt8) : Terminal := str.foldl putchar t

/-! ### What the loops write -/

/-- From `t` to `t'` the cells from `a` up to `b` have been written, with what `f` gives, and
nothing else has changed. -/
structure Rewrites (t t' : Terminal) (a b : ℤ) (f : ℤ → UInt16) : Prop where
  inside : ∀ i, a ≤ i → i < b → t'.videoMemory i = f i
  outside : ∀ i, i < a ∨ b ≤ i → t'.videoMemory i = t.videoMemory i
  cursorX : t'.cursorX = t.cursorX
  cursorY : t'.cursorY = t.cursorY
  textAttribute : t'.textAttribute = t.textAttribute
  written : ∀ i ∈ t'.written, i ∈ t.written ∨ a ≤ i ∧ i < b

variable {t t' t'' : Terminal} {a b c : ℤ} {f : ℤ → UInt16}

theorem Rewrites.refl (t : Terminal) (a : ℤ) (f : ℤ → UInt16) : Rewrites t t a a f :=
  ⟨fun _ h₁ h₂ => absurd h₁ (by omega), fun _ _ => rfl, rfl, rfl, rfl, fun _ h => .inl h⟩

/-- One more cell. -/
theorem Rewrites.poke (h : Rewrites t t' a b f) (hab : a ≤ b) : Rewrites t (t'.poke b (f b)) a (b + 1) f where
  inside i h₁ h₂ := by
    by_cases hi : i = b
    · subst hi; exact Function.update_self ..
    · exact (Function.update_of_ne hi _ _).trans (h.inside i h₁ (by omega))
  outside i hi := (Function.update_of_ne (by omega) _ _).trans (h.outside i (by omega))
  cursorX := h.cursorX
  cursorY := h.cursorY
  textAttribute := h.textAttribute
  written i hi := by
    rw [Terminal.poke, List.mem_append, List.mem_singleton] at hi
    rcases hi with hi | rfl
    · exact (h.written i hi).imp_right fun h => ⟨h.1, by omega⟩
    · exact .inr ⟨hab, by omega⟩

/-- The cells after those. -/
theorem Rewrites.append (h : Rewrites t t' a b f) {g : ℤ → UInt16} (h' : Rewrites t' t'' b c g)
    (hg : ∀ i, b ≤ i → i < c → g i = f i) (hab : a ≤ b) (hbc : b ≤ c) : Rewrites t t'' a c f where
  inside i h₁ h₂ := by
    by_cases hi : i < b
    · rw [h'.outside i (.inl hi), h.inside i h₁ hi]
    · rw [h'.inside i (by omega) h₂, hg i (by omega) h₂]
  outside i hi := by rw [h'.outside i (by omega), h.outside i (by omega)]
  cursorX := h'.cursorX.trans h.cursorX
  cursorY := h'.cursorY.trans h.cursorY
  textAttribute := h'.textAttribute.trans h.textAttribute
  written i hi := by
    rcases h'.written i hi with hi | ⟨h₁, h₂⟩
    · exact (h.written i hi).imp_right fun h => ⟨h.1, by omega⟩
    · exact .inr ⟨by omega, h₂⟩

theorem blank_eq (h : t'.textAttribute = t.textAttribute) : t'.blank = t.blank := by
  rw [Terminal.blank, h, Terminal.blank]

theorem clearRow_rewrites (y : ℕ) (t : Terminal) :
    Rewrites t (t.clearRow y) (y * 80) (y * 80 + 80) fun _ => t.blank := by
  refine forLoop_inv (I := fun x t' => Rewrites t t' (y * 80) (y * 80 + x) fun _ => t.blank)
    (by rw [Nat.cast_zero, add_zero]; exact .refl t _ _) fun x _ t' h => ?_
  have hblank := blank_eq h.textAttribute
  rw [hblank, Nat.cast_succ, ← add_assoc]
  exact h.poke (by omega)

theorem copyRow_rewrites (y : ℕ) (t : Terminal) :
    Rewrites t (t.copyRow y) (y * 80) (y * 80 + 80) fun i => t.videoMemory (i + 80) := by
  refine forLoop_inv (I := fun x t' => Rewrites t t' (y * 80) (y * 80 + x) fun i => t.videoMemory (i + 80))
    (by rw [Nat.cast_zero, add_zero]; exact .refl t _ _) fun x hx t' h => ?_
  have hcell : t'.videoMemory ((y + 1) * 80 + x) = t.videoMemory (y * 80 + x + 80) := by
    rw [h.outside _ (by omega)]
    congr 1
    omega
  rw [hcell, Nat.cast_succ, ← add_assoc]
  exact h.poke (by omega)

/-- The whole screen cleared. -/
theorem clearScreen_rewrites (t : Terminal) :
    Rewrites t (forLoop 25 Terminal.clearRow t) 0 2000 fun _ => t.blank := by
  refine forLoop_inv (I := fun y t' => Rewrites t t' 0 (y * 80) fun _ => t.blank)
    (by rw [Nat.cast_zero, zero_mul]; exact .refl t _ _) fun y _ t' h => ?_
  have hrow := clearRow_rewrites y t'
  rw [blank_eq h.textAttribute] at hrow
  have := h.append hrow (fun _ _ _ => rfl) (by omega) (by omega)
  rwa [← add_one_mul, ← Nat.cast_succ] at this

/-- All rows moved up. -/
theorem copyRows_rewrites (t : Terminal) :
    Rewrites t (forLoop 24 Terminal.copyRow t) 0 1920 fun i => t.videoMemory (i + 80) := by
  refine forLoop_inv (I := fun y t' => Rewrites t t' 0 (y * 80) fun i => t.videoMemory (i + 80))
    (by rw [Nat.cast_zero, zero_mul]; exact .refl t _ _) fun y _ t' h => ?_
  have := h.append (copyRow_rewrites y t') (fun i hi _ => h.outside _ (by omega)) (by omega) (by omega)
  rwa [← add_one_mul, ← Nat.cast_succ] at this

/-! ### The scroll -/

/-- From `t` to `t'` every row has moved up by one, and the last is blank. -/
structure Scrolled (t t' : Terminal) : Prop where
  cursorX : t'.cursorX = t.cursorX
  cursorY : t'.cursorY = 24
  textAttribute : t'.textAttribute = t.textAttribute
  rows : ∀ i, 0 ≤ i → i < 1920 → t'.videoMemory i = t.videoMemory (i + 80)
  lastRow : ∀ i, 1920 ≤ i → i < 2000 → t'.videoMemory i = t.blank
  written : ∀ i ∈ t'.written, i ∈ t.written ∨ 0 ≤ i ∧ i < 2000

theorem scroll_of_lt {t : Terminal} (hy : t.cursorY < 25) : t.scroll = t := if_neg (by omega)

/-- **The scroll**, when the cursor has left the screen. -/
theorem scroll_scrolled {t : Terminal} (hy : 25 ≤ t.cursorY) : Scrolled t t.scroll := by
  have hup := copyRows_rewrites t
  have hlast := clearRow_rewrites 24 (forLoop 24 Terminal.copyRow t)
  rw [Terminal.scroll, if_pos hy]
  refine ⟨?_, rfl, ?_, fun i h₀ h₁ => ?_, fun i h₀ h₁ => ?_, fun i hi => ?_⟩
  · simp only [hlast.cursorX, hup.cursorX]
  · simp only [hlast.textAttribute, hup.textAttribute]
  · exact (hlast.outside i (.inl (by omega))).trans (hup.inside i h₀ h₁)
  · exact (hlast.inside i (by omega) (by omega)).trans (blank_eq hup.textAttribute)
  · rcases hlast.written i hi with hi | hi
    · exact (hup.written i hi).imp_right fun h => ⟨h.1, by omega⟩
    · exact .inr ⟨by omega, by omega⟩

/-! ### The cursor -/

/-- A character that is put into a cell: not a newline, carriage return, backspace or tab. -/
def Ordinary (c : UInt8) : Prop := c ≠ 10 ∧ c ≠ 13 ∧ c ≠ 8 ∧ c ≠ 9

instance (c : UInt8) : Decidable (Ordinary c) := inferInstanceAs (Decidable (_ ∧ _))

/-- The cursor is on the screen. -/
structure Terminal.OnScreen (t : Terminal) : Prop where
  col_nonneg : 0 ≤ t.cursorX
  col_lt : t.cursorX < 80
  row_nonneg : 0 ≤ t.cursorY
  row_lt : t.cursorY < 25

theorem place_of_ordinary (t : Terminal) {c : UInt8} (hc : Ordinary c) :
    t.place c = { t.poke (t.cursorY * 80 + t.cursorX) (t.cell c) with cursorX := t.cursorX + 1 } := by
  obtain ⟨h10, h13, h8, h9⟩ := hc
  rw [Terminal.place, if_neg h10, if_neg h13, if_neg h8, if_neg h9]

theorem place_backspace {t : Terminal} (hx : 0 < t.cursorX) :
    t.place 8 =
      { t with cursorX := t.cursorX - 1 }.poke (t.cursorY * 80 + (t.cursorX - 1)) t.blank := by
  rw [Terminal.place, if_neg (by decide), if_neg (by decide), if_pos rfl, if_pos hx]

theorem wrap_of_lt {t : Terminal} (hx : t.cursorX < 80) : t.wrap = t := if_neg (by omega)

/-- The character itself moves the cursor to the row it is in or to the start of the next. -/
theorem Terminal.OnScreen.place {t : Terminal} (h : t.OnScreen) (c : UInt8) :
    0 ≤ (t.place c).cursorX ∧ (t.place c).cursorX ≤ 80 ∧
      ((t.place c).cursorY = t.cursorY ∨ (t.place c).cursorY = t.cursorY + 1 ∧ (t.place c).cursorX = 0) := by
  obtain ⟨h₁, h₂, -, -⟩ := h
  unfold Terminal.place
  split_ifs
  · exact ⟨le_rfl, by simp, .inr ⟨rfl, rfl⟩⟩
  · exact ⟨le_rfl, by simp, .inl rfl⟩
  · exact ⟨by simp only [Terminal.poke]; omega, by simp only [Terminal.poke]; omega, .inl rfl⟩
  · exact ⟨h₁, h₂.le, .inl rfl⟩
  · exact ⟨by simp only; omega, by simp only; omega, .inl rfl⟩
  · exact ⟨by simp only; omega, by simp only; omega, .inl rfl⟩

/-- The wrap takes it from column 80 to the start of the next row. -/
theorem wrap_cursor {t : Terminal} (h₀ : 0 ≤ t.cursorX) (h₁ : t.cursorX ≤ 80) :
    0 ≤ t.wrap.cursorX ∧ t.wrap.cursorX < 80 ∧
      (t.wrap.cursorY = t.cursorY ∨ t.wrap.cursorY = t.cursorY + 1 ∧ t.cursorX = 80) := by
  unfold Terminal.wrap
  split_ifs with h
  · exact ⟨le_rfl, by simp, .inr ⟨rfl, by omega⟩⟩
  · exact ⟨h₀, by omega, .inl rfl⟩

/-- **A character on a screen**: the cursor stays on it, and does not go up. -/
theorem Terminal.OnScreen.putchar {t : Terminal} (h : t.OnScreen) (c : UInt8) :
    (putchar t c).OnScreen ∧ t.cursorY ≤ (putchar t c).cursorY := by
  obtain ⟨hx₀, hx₁, hplace⟩ := h.place c
  obtain ⟨hw₀, hw₁, hwrap⟩ := wrap_cursor hx₀ hx₁
  have hrow₀ := h.row_nonneg
  have hrow₁ := h.row_lt
  have hx : (Kernel.putchar t c).cursorX = (t.place c).wrap.scroll.cursorX := rfl
  have hy : (Kernel.putchar t c).cursorY = (t.place c).wrap.scroll.cursorY := rfl
  by_cases hscroll : 25 ≤ (t.place c).wrap.cursorY
  · have hs := scroll_scrolled hscroll
    rw [hs.cursorX] at hx
    rw [hs.cursorY] at hy
    exact ⟨⟨by omega, by omega, by omega, by omega⟩, by omega⟩
  · rw [scroll_of_lt (by omega)] at hx hy
    exact ⟨⟨by omega, by omega, by omega, by omega⟩, by omega⟩

/-- An empty screen with the cursor in column `x` of row `y`. -/
def Terminal.empty (x y : ℤ) : Terminal := ⟨fun _ => 0x0720, x, y, 7, 0, []⟩

theorem empty_onScreen {x y : ℤ} (hx : 0 ≤ x ∧ x < 80) (hy : 0 ≤ y ∧ y < 25) : (Terminal.empty x y).OnScreen :=
  ⟨hx.1, hx.2, hy.1, hy.2⟩

end Basedos.Kernel
