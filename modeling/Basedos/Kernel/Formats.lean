import Basedos.Kernel.Printk
import Basedos.Kernel.System

/-!
# The formats of the kernel's own messages

`printk` is told nothing of its arguments but by its format. The kernel calls it with literals, and with what
the user has typed only as an argument of `%s`.

## The model

An `Arg` of an `Act` becomes the argument that `printk` takes: a `char` is widened to a signed `int`, and a
string is what stands before its first NUL.

## What is proved

* `formatText_isSome_iff` — a format and its arguments have a text just when the arguments are of the kinds the
  format takes, in order (`kinds`).
* `FormatFits.respects` — **a format that fits is respected**, whatever lies behind it in memory.
* `formatText_endsLine` — a format that ends in a newline gives a text that does, whatever its arguments are.
-/

namespace Basedos.Kernel

open Basedos.CLib

/-! ### Kinds of arguments -/

/-- What `va_arg` is asked for. -/
inductive VaKind where
  | word | string
  deriving DecidableEq

/-- The kind an argument is of. -/
def VaArg.kind : VaArg → VaKind
  | .word _ => .word
  | .string _ => .string

/-- The kind a conversion takes. -/
def Conversion.kind : Conversion → VaKind
  | .decimal | .unsigned | .hexadecimal | .char => .word
  | .string => .string

/-- The kinds a format takes, in order. -/
def kinds : List UInt8 → List VaKind
  | c :: c' :: rest =>
    if c ≠ percent then kinds (c' :: rest)
    else match Conversion.ofChar c' with
      | some k => k.kind :: kinds rest
      | none => kinds rest
  | _ => []

/-- A conversion expands every argument of its kind. -/
theorem expand_isSome_iff (k : Conversion) (a : VaArg) : (k.expand a).isSome ↔ a.kind = k.kind := by
  rcases a with v | (_ | s) <;> cases k <;> simp [Conversion.expand, VaArg.kind, Conversion.kind]

theorem kinds_ordinary {c : UInt8} (hc : c ≠ percent) (s : List UInt8) : kinds (c :: s) = kinds s := by
  cases s with
  | nil => rfl
  | cons c' rest => rw [kinds, if_pos hc]

/-- A `%` and the character after it. -/
theorem kinds_percent (c : UInt8) (s : List UInt8) :
    kinds (percent :: c :: s) = ((Conversion.ofChar c).map Conversion.kind).toList ++ kinds s := by
  rw [kinds, if_neg (not_not_intro rfl)]
  cases Conversion.ofChar c <;> rfl

/-- **When a format has a text.** -/
theorem formatText_isSome_iff (s : List UInt8) (args : List VaArg) :
    (formatText s args).isSome ↔ args.map VaArg.kind = kinds s := by
  induction s using scan_induction generalizing args with
  | nil => cases args <;> simp [formatText, kinds]
  | ordinary c s hc ih => rw [formatText_ordinary hc, Option.isSome_map, kinds_ordinary hc, ih]
  | last => cases args <;> simp [formatText, kinds]
  | pair c s ih =>
    rw [formatText_percent, printkSwitch_eq, kinds_percent]
    unfold expandNext
    cases Conversion.ofChar c with
    | none =>
      rw [Option.bind_some, Option.isSome_map]
      exact ih args
    | some k =>
      cases args with
      | nil => simp
      | cons a args =>
        have hexpand := expand_isSome_iff k a
        dsimp only
        rw [List.map_cons, Option.map_some, Option.toList_some, List.singleton_append, List.cons.injEq, ← hexpand, ← ih]
        cases k.expand a <;> simp

/-! ### The arguments of an act -/

theorem zero_not_mem_takeWhile (s : List UInt8) : 0 ∉ s.takeWhile (· ≠ 0) :=
  fun h => by simpa using List.mem_takeWhile_imp h

/-- What stands before the first NUL. -/
def cutAtNul (s : List UInt8) : CStr := ⟨s.takeWhile (· ≠ 0), zero_not_mem_takeWhile s⟩

/-- A literal. -/
def literal (text : String) : CStr := cutAtNul (ascii text.toList)

/-- The argument as `printk` is given it. -/
def Arg.va : Arg → VaArg
  | .int n => .word n.toUInt32
  | .chr c => .word c.toInt8.toInt32.toUInt32
  | .str s => .string (some (cutAtNul s))
  | .text s => .string (some (literal s))

/-- The kind an argument is of. -/
def Arg.kind : Arg → VaKind
  | .int _ | .chr _ => .word
  | .str _ | .text _ => .string

theorem kind_va (args : List Arg) : (args.map Arg.va).map VaArg.kind = args.map Arg.kind := by
  rw [List.map_map]
  refine List.map_congr_left fun a _ => ?_
  cases a <;> rfl

/-- **The format fits its arguments**: they are of the kinds it takes, and it does not end in the middle of a
conversion. -/
structure FormatFits (format : String) (args : List Arg) : Prop where
  kinds : kinds (literal format).bytes = args.map Arg.kind
  whole : ¬ CutOff (literal format).bytes

/-- **A format that fits is respected.** -/
theorem FormatFits.respects {format : String} {args : List Arg} (h : FormatFits format args) (behind : List UInt8) :
    ∃ text, formatText (literal format).bytes (args.map Arg.va) = some text ∧
      Respects (inMemory (literal format) behind) (args.map Arg.va) (literal format).bytes.length text := by
  have hsome := (formatText_isSome_iff (literal format).bytes (args.map Arg.va)).mpr
    ((kind_va args).trans h.kinds.symm)
  obtain ⟨text, htext⟩ := Option.isSome_iff_exists.mp hsome
  exact ⟨text, htext, (printk_respects_iff _ (storedAt_inMemory _ _) htext).mpr h.whole⟩

/-! ### Lines -/

/-- The last character is a newline. -/
def EndsLine (s : List UInt8) : Prop := s.getLast? = some 10

instance (s : List UInt8) : Decidable (EndsLine s) := inferInstanceAs (Decidable (_ = _))

theorem endsLine_append {s : List UInt8} (h : EndsLine s) (s' : List UInt8) : EndsLine (s' ++ s) := by
  rw [EndsLine, List.getLast?_append, h, Option.some_or]

theorem endsLine_cons {s : List UInt8} (h : EndsLine s) (c : UInt8) : EndsLine (c :: s) := endsLine_append h [c]

theorem endsLine_of_cons {c : UInt8} {s : List UInt8} (h : EndsLine (c :: s)) : EndsLine s ∨ s = [] ∧ c = 10 := by
  cases s with
  | nil => exact .inr ⟨rfl, Option.some.inj h⟩
  | cons c' s => exact .inl (by rwa [EndsLine, List.getLast?_cons_cons] at h)

/-- **A format that ends a line** gives a text that does: a newline after a `%` is printed too. -/
theorem formatText_endsLine {s text : List UInt8} {args : List VaArg} (h : formatText s args = some text)
    (hs : EndsLine s) : EndsLine text := by
  induction s using scan_induction generalizing args text with
  | nil => cases hs
  | ordinary c s hc ih =>
    rw [formatText_ordinary hc] at h
    obtain ⟨text', htext', rfl⟩ := Option.map_eq_some_iff.mp h
    rcases endsLine_of_cons hs with hs | ⟨rfl, rfl⟩
    · exact endsLine_cons (ih htext' hs) c
    · simp only [formatText] at htext'
      split at htext' <;> cases htext'
      rfl
  | last => cases hs
  | pair c s ih =>
    rw [formatText_percent] at h
    obtain ⟨r, hr, hrest⟩ := Option.bind_eq_some_iff.mp h
    obtain ⟨text', htext', rfl⟩ := Option.map_eq_some_iff.mp hrest
    have hpercent : percent ≠ 10 := by decide
    rcases endsLine_of_cons ((endsLine_of_cons hs).resolve_right fun h => hpercent h.2) with hs | ⟨rfl, rfl⟩
    · exact endsLine_append (ih htext' hs) r.1
    · simp only [formatText] at htext'
      split at htext' <;> cases htext'
      cases hr
      rfl

end Basedos.Kernel
