import Basedos.CLib.Numbers
import Mathlib.Data.List.DropRight

/-!
# Formatted printing

`printk` of `kernel/terminal.c` goes along its format with one pointer, which it moves on twice for a
`%`: to the character after it, and past that.

## The model

The format is the memory from its first byte on, so that what lies behind the terminating NUL is there to
be read. A round of the loop is counted down, and what a run of it leaves is the characters sent to
`putchar` and the places of the bytes read (`Trace`). An argument that is not there, or is not of the
kind the conversion takes, gives nothing. The buffers of 32 bytes are long enough for what `itoa` writes
to them: at most ten digits (`length_itoaDigits_le`), the sign and the NUL.

## What is proved

`formatText` says what a format is to be printed as. `printk_respects_iff` — **when it is**: for every string and
arguments that match it, just when the run of `%` at its end is of even length. Otherwise the last of these
introduces the NUL, which is printed and passed.
-/

namespace Basedos.Kernel

open Basedos.CLib

/-! ### The function -/

/-- The character `%`. -/
def percent : UInt8 := 37

/-- An argument of `printk`: a number, or a pointer that is `NULL` or to a string. -/
inductive VaArg where
  | word (v : UInt32)
  | string (str : Option CStr)

/-- What a run of the loop leaves. -/
structure Trace where
  /-- The characters sent to `putchar`. -/
  sent : List UInt8
  /-- The places of the bytes of the format that are read. -/
  reads : List ℕ
  deriving DecidableEq

/-- `"(null)"`. -/
def nullText : List UInt8 := ascii ['(', 'n', 'u', 'l', 'l', ')']

/-- `va_arg(args, int)`, or `unsigned int`. -/
def vaWord (args : List VaArg) (text : UInt32 → List UInt8) : Option (List UInt8 × List VaArg) :=
  match args with
  | .word v :: args => some (text v, args)
  | _ => none

/-- `va_arg(args, const char*)`. -/
def vaString (args : List VaArg) (text : Option CStr → List UInt8) : Option (List UInt8 × List VaArg) :=
  match args with
  | .string str :: args => some (text str, args)
  | _ => none

/-- The `switch` on the character after a `%`: what is sent, and the arguments left. -/
def printkSwitch (c : UInt8) (args : List VaArg) : Option (List UInt8 × List VaArg) :=
  if c = 100 ∨ c = 105 then vaWord args fun v => itoa v.toInt32 .ten
  else if c = 117 then vaWord args fun v => itoa v.toInt32 .ten
  else if c = 120 ∨ c = 88 then vaWord args fun v => itoa v.toInt32 .sixteen
  else if c = 99 then vaWord args fun v => [v.toUInt8]
  else if c = 115 then vaString args fun str => match str with | none => nullText | some s => s.bytes
  else if c = percent then some ([percent], args)
  else some ([percent, c], args)

/-- The loop of `printk`, for as many rounds, from place `i` of the format on. -/
def printkLoop (format : ℕ → UInt8) : ℕ → ℕ → List VaArg → Option Trace
  | 0, _, _ => none
  | rounds + 1, i, args =>
    if format i = 0 then some ⟨[], [i]⟩
    else if format i = percent then
      (printkSwitch (format (i + 1)) args).bind fun r =>
        (printkLoop format rounds (i + 2) r.2).map fun t => ⟨r.1 ++ t.sent, i :: (i + 1) :: t.reads⟩
    else (printkLoop format rounds (i + 1) args).map fun t => ⟨format i :: t.sent, i :: t.reads⟩

/-- `printk`. -/
def printk (format : ℕ → UInt8) (args : List VaArg) (rounds : ℕ) : Option Trace := printkLoop format rounds 0 args

/-! ### What a format is to be printed as -/

/-- The conversions. -/
inductive Conversion where
  | decimal | unsigned | hexadecimal | char | string

/-- The conversion a character stands for. -/
def Conversion.ofChar (c : UInt8) : Option Conversion :=
  if c = 100 ∨ c = 105 then some .decimal
  else if c = 117 then some .unsigned
  else if c = 120 ∨ c = 88 then some .hexadecimal
  else if c = 99 then some .char
  else if c = 115 then some .string
  else none

/-- The expansion of a conversion, with an argument of its kind. -/
def Conversion.expand : Conversion → VaArg → Option (List UInt8)
  | .decimal, .word v | .unsigned, .word v => some (itoa v.toInt32 .ten)
  | .hexadecimal, .word v => some (itoa v.toInt32 .sixteen)
  | .char, .word v => some [v.toUInt8]
  | .string, .string none => some nullText
  | .string, .string (some s) => some s.bytes
  | _, _ => none

/-- What a `%` and the character after it stand for, and the arguments left: a conversion is expanded with the
next argument, `%%` is `%`, and of an unknown conversion there are both characters. -/
def expandNext (c : UInt8) (args : List VaArg) : Option (List UInt8 × List VaArg) :=
  match Conversion.ofChar c, args with
  | some k, a :: args => (k.expand a).map fun text => (text, args)
  | some _, [] => none
  | none, args => some (if c = percent then [percent] else [percent, c], args)

/-- The text of a format with these arguments, one for each conversion. Ordinary characters are
themselves, and so is a `%` that ends the format. -/
def formatText : List UInt8 → List VaArg → Option (List UInt8)
  | [], args => if args.isEmpty then some [] else none
  | [c], args => if args.isEmpty then some [c] else none
  | c :: c' :: rest, args =>
    if c ≠ percent then (formatText (c' :: rest) args).map (c :: ·)
    else (expandNext c' args).bind fun r => (formatText rest r.2).map (r.1 ++ ·)

/-- The string lies in memory from place `i` on, with its NUL. -/
def StoredAt (format : ℕ → UInt8) (i : ℕ) (s : List UInt8) : Prop := ∀ j ≤ s.length, format (i + j) = s.getD j 0

/-- **The format is respected**: the loop ends, has sent the text, and has read nothing behind the NUL
at place `length`. -/
def Respects (format : ℕ → UInt8) (args : List VaArg) (length : ℕ) (text : List UInt8) : Prop :=
  ∃ t, (∀ rounds > length, printk format args rounds = some t) ∧ t.sent = text ∧ ∀ j ∈ t.reads, j ≤ length

/-- The run of `%` at the end of the format is of odd length: the last of them introduces nothing. -/
def CutOff (s : List UInt8) : Prop := (s.rtakeWhile (· = percent)).length % 2 = 1

instance (s : List UInt8) : Decidable (CutOff s) := inferInstanceAs (Decidable (_ = _))

/-! ### The run at the end -/

/-- Induction along a format as it is scanned: character by character, and by two at a `%`. -/
theorem scan_induction {P : List UInt8 → Prop} (nil : P []) (ordinary : ∀ c s, c ≠ percent → P s → P (c :: s))
    (last : P [percent]) (pair : ∀ c s, P s → P (percent :: c :: s)) : ∀ s, P s
  | [] => nil
  | [c] => if h : c = percent then h ▸ last else ordinary c [] h nil
  | c :: c' :: s =>
    if h : c = percent then h ▸ pair c' s (scan_induction nil ordinary last pair s)
    else ordinary c (c' :: s) h (scan_induction nil ordinary last pair (c' :: s))

theorem length_rtakeWhile_cons (p : UInt8 → Bool) (c : UInt8) (s : List UInt8) :
    ((c :: s).rtakeWhile p).length =
      if (s.rtakeWhile p).length = s.length ∧ p c then s.length + 1 else (s.rtakeWhile p).length := by
  simp only [List.rtakeWhile, List.length_reverse, List.reverse_cons, List.takeWhile_append]
  by_cases hall : (s.reverse.takeWhile p).length = s.length
  · cases hc : p c <;> simp [hall, hc]
  · simp [hall]

theorem cutOff_nil : ¬ CutOff [] := by decide

theorem cutOff_singleton {c : UInt8} : CutOff [c] ↔ c = percent := by
  by_cases hc : c = percent <;> simp [CutOff, List.rtakeWhile, hc]

theorem cutOff_cons {c : UInt8} (hc : c ≠ percent) (s : List UInt8) : CutOff (c :: s) ↔ CutOff s := by
  simp [CutOff, length_rtakeWhile_cons, hc]

/-- A `%` and the character after it. -/
theorem cutOff_pair (c : UInt8) (s : List UInt8) : CutOff (percent :: c :: s) ↔ CutOff s := by
  have hle := (List.rtakeWhile_suffix (· = percent) s).length_le
  by_cases hc : c = percent
  · subst hc
    by_cases hall : (s.rtakeWhile (· = percent)).length = s.length
    · simp only [CutOff, length_rtakeWhile_cons, List.length_cons, hall, decide_true, and_self, if_true]
      omega
    · have hne : (s.rtakeWhile (· = percent)).length ≠ s.length + 1 := by omega
      simp only [CutOff, length_rtakeWhile_cons, List.length_cons, hall, hne, false_and, if_false]
  · have hne : ((c :: s).rtakeWhile (· = percent)).length ≠ (c :: s).length := by
      rw [length_rtakeWhile_cons]
      simp only [hc, decide_false, Bool.false_eq_true, and_false, if_false, List.length_cons]
      omega
    rw [CutOff, length_rtakeWhile_cons, if_neg fun h => hne h.1]
    exact cutOff_cons hc s

/-! ### The loop -/

variable {format : ℕ → UInt8} {i : ℕ} {args : List VaArg}

theorem StoredAt.head {c : UInt8} {s : List UInt8} (h : StoredAt format i (c :: s)) : format i = c :=
  h 0 (Nat.zero_le _)

theorem StoredAt.tail {c : UInt8} {s : List UInt8} (h : StoredAt format i (c :: s)) : StoredAt format (i + 1) s := by
  intro j hj
  have hnext := h (j + 1) (Nat.succ_le_succ hj)
  rwa [← Nat.add_assoc, Nat.add_right_comm] at hnext

theorem StoredAt.nul (h : StoredAt format i []) : format i = 0 := h 0 le_rfl

/-- The `switch` sends just that. -/
theorem printkSwitch_eq (c : UInt8) (args : List VaArg) : printkSwitch c args = expandNext c args := by
  unfold printkSwitch expandNext Conversion.ofChar
  split_ifs <;> first | rfl | (rcases args with _ | ⟨⟨v⟩ | ⟨_ | s⟩, args⟩ <;> rfl)

/-- Every run of the loop reads the byte it begins at. -/
theorem mem_reads {rounds : ℕ} {t : Trace} (h : printkLoop format rounds i args = some t) : i ∈ t.reads := by
  cases rounds with
  | zero => cases h
  | succ n =>
    rw [printkLoop] at h
    split at h
    · cases h
      exact List.mem_singleton_self i
    · split at h
      · obtain ⟨r, -, hr⟩ := Option.bind_eq_some_iff.mp h
        obtain ⟨t', -, rfl⟩ := Option.map_eq_some_iff.mp hr
        exact List.mem_cons_self
      · obtain ⟨t', -, rfl⟩ := Option.map_eq_some_iff.mp h
        exact List.mem_cons_self

/-- A round on an ordinary character. -/
theorem printkLoop_ordinary {c : UInt8} (hc : format i = c) (h0 : c ≠ 0) (hne : c ≠ percent) (n : ℕ) :
    printkLoop format (n + 1) i args =
      (printkLoop format n (i + 1) args).map fun t => ⟨c :: t.sent, i :: t.reads⟩ := by
  rw [printkLoop, hc, if_neg h0, if_neg hne]

/-- A round on a `%`. -/
theorem printkLoop_percent (hc : format i = percent) (n : ℕ) :
    printkLoop format (n + 1) i args =
      (printkSwitch (format (i + 1)) args).bind fun r =>
        (printkLoop format n (i + 2) r.2).map fun t => ⟨r.1 ++ t.sent, i :: (i + 1) :: t.reads⟩ := by
  have h0 : percent ≠ 0 := by decide
  rw [printkLoop, hc, if_neg h0, if_pos rfl]

theorem formatText_ordinary {c : UInt8} (hc : c ≠ percent) (s : List UInt8) (args : List VaArg) :
    formatText (c :: s) args = (formatText s args).map (c :: ·) := by
  cases s with
  | nil =>
    simp only [formatText]
    split <;> rfl
  | cons c' rest => rw [formatText, if_pos hc]

/-- A `%` and the character after it: what the `switch` sends, and the text of the rest. -/
theorem formatText_percent (c : UInt8) (s : List UInt8) (args : List VaArg) :
    formatText (percent :: c :: s) args =
      (printkSwitch c args).bind fun r => (formatText s r.2).map (r.1 ++ ·) := by
  rw [formatText, if_neg (not_not_intro rfl), printkSwitch_eq]

/-- **A format that is not cut off**: from any place on, the loop sends its text and ends at its NUL. -/
theorem printkLoop_text {s text : List UInt8} (hs : StoredAt format i s) (hnul : 0 ∉ s) (hcut : ¬ CutOff s)
    (h : formatText s args = some text) :
    ∃ t, (∀ rounds > s.length, printkLoop format rounds i args = some t) ∧ t.sent = text ∧
      ∀ j ∈ t.reads, j ≤ i + s.length := by
  induction s using scan_induction generalizing i args text with
  | nil =>
    have htext : text = [] := by
      simp only [formatText] at h
      split at h <;> cases h
      rfl
    refine ⟨⟨[], [i]⟩, fun rounds hlt => ?_, htext.symm, by simp⟩
    obtain ⟨n, rfl⟩ := Nat.exists_eq_succ_of_ne_zero (Nat.ne_of_gt hlt)
    rw [printkLoop, if_pos hs.nul]
  | ordinary c s hc ih =>
    rw [List.mem_cons, not_or] at hnul
    rw [formatText_ordinary hc] at h
    obtain ⟨text', htext', rfl⟩ := Option.map_eq_some_iff.mp h
    obtain ⟨t, hloop, hsent, hreads⟩ :=
      ih hs.tail hnul.2 (fun hcut' => hcut ((cutOff_cons hc s).mpr hcut')) htext'
    refine ⟨⟨c :: t.sent, i :: t.reads⟩, fun rounds hlt => ?_, by rw [hsent], fun j hj => ?_⟩
    · rw [List.length_cons] at hlt
      obtain ⟨n, rfl⟩ := Nat.exists_eq_succ_of_ne_zero (show rounds ≠ 0 by omega)
      rw [printkLoop_ordinary hs.head (Ne.symm hnul.1) hc, hloop n (by omega), Option.map_some]
    · simp only [List.length_cons, List.mem_cons] at hj ⊢
      rcases hj with rfl | hj
      · omega
      · have := hreads j hj
        omega
  | last => exact absurd (cutOff_singleton.mpr rfl) hcut
  | pair c s ih =>
    simp only [List.mem_cons, not_or] at hnul
    rw [formatText_percent] at h
    obtain ⟨r, hr, hrest⟩ := Option.bind_eq_some_iff.mp h
    obtain ⟨text', htext', rfl⟩ := Option.map_eq_some_iff.mp hrest
    obtain ⟨t, hloop, hsent, hreads⟩ :=
      ih hs.tail.tail hnul.2.2 (fun hcut' => hcut ((cutOff_pair c s).mpr hcut')) htext'
    refine ⟨⟨r.1 ++ t.sent, i :: (i + 1) :: t.reads⟩, fun rounds hlt => ?_, by rw [hsent], fun j hj => ?_⟩
    · simp only [List.length_cons] at hlt
      obtain ⟨n, rfl⟩ := Nat.exists_eq_succ_of_ne_zero (show rounds ≠ 0 by omega)
      rw [printkLoop_percent hs.head, hs.tail.head, hr, Option.bind_some]
      rw [hloop n (by omega), Option.map_some]
    · simp only [List.length_cons, List.mem_cons] at hj ⊢
      rcases hj with rfl | rfl | hj
      · omega
      · omega
      · have := hreads j hj
        omega

/-- **A format that is cut off**: a run of the loop reads on behind its NUL. -/
theorem printkLoop_cutOff {s : List UInt8} (hs : StoredAt format i s) (hnul : 0 ∉ s) (hcut : CutOff s) {rounds : ℕ}
    {t : Trace} (h : printkLoop format rounds i args = some t) : ∃ j ∈ t.reads, i + s.length < j := by
  induction s using scan_induction generalizing i args rounds t with
  | nil => exact absurd hcut cutOff_nil
  | ordinary c s hc ih =>
    rw [List.mem_cons, not_or] at hnul
    cases rounds with
    | zero => cases h
    | succ n =>
      rw [printkLoop_ordinary hs.head (Ne.symm hnul.1) hc] at h
      obtain ⟨t', ht', rfl⟩ := Option.map_eq_some_iff.mp h
      obtain ⟨j, hj, hlt⟩ := ih hs.tail hnul.2 ((cutOff_cons hc s).mp hcut) ht'
      refine ⟨j, List.mem_cons_of_mem _ hj, ?_⟩
      rw [List.length_cons]
      omega
  | last =>
    cases rounds with
    | zero => cases h
    | succ n =>
      rw [printkLoop_percent hs.head] at h
      obtain ⟨r, -, hrest⟩ := Option.bind_eq_some_iff.mp h
      obtain ⟨t', ht', rfl⟩ := Option.map_eq_some_iff.mp hrest
      -- the NUL is the character after the `%`, and the pointer goes past it
      exact ⟨i + 2, List.mem_cons_of_mem _ (List.mem_cons_of_mem _ (mem_reads ht')), Nat.lt_succ_self (i + 1)⟩
  | pair c s ih =>
    simp only [List.mem_cons, not_or] at hnul
    cases rounds with
    | zero => cases h
    | succ n =>
      rw [printkLoop_percent hs.head] at h
      obtain ⟨r, -, hrest⟩ := Option.bind_eq_some_iff.mp h
      obtain ⟨t', ht', rfl⟩ := Option.map_eq_some_iff.mp hrest
      obtain ⟨j, hj, hlt⟩ := ih hs.tail.tail hnul.2.2 ((cutOff_pair c s).mp hcut) ht'
      refine ⟨j, List.mem_cons_of_mem _ (List.mem_cons_of_mem _ hj), ?_⟩
      simp only [List.length_cons]
      omega

/-- **When `printk` respects its format**: for every string in memory, whatever lies behind it, and the
arguments for its conversions, just when the run of `%` at its end is of even length. -/
theorem printk_respects_iff (s : CStr) (hs : StoredAt format 0 s.bytes) {text : List UInt8}
    (h : formatText s.bytes args = some text) :
    Respects format args s.bytes.length text ↔ ¬ CutOff s.bytes := by
  constructor
  · rintro ⟨t, hloop, -, hreads⟩ hcut
    obtain ⟨j, hj, hlt⟩ := printkLoop_cutOff hs s.noNul hcut (hloop _ (Nat.lt_succ_self _))
    have := hreads j hj
    omega
  · intro hcut
    obtain ⟨t, hloop, hsent, hreads⟩ := printkLoop_text hs s.noNul hcut h
    exact ⟨t, hloop, hsent, fun j hj => by have := hreads j hj; omega⟩

/-- A string in memory, and what lies behind it. -/
def inMemory (s : CStr) (behind : List UInt8) (i : ℕ) : UInt8 := (s.bytes ++ 0 :: behind).getD i 0

theorem storedAt_inMemory (s : CStr) (behind : List UInt8) : StoredAt (inMemory s behind) 0 s.bytes := by
  intro j hj
  rw [Nat.zero_add, inMemory, List.getD_eq_getElem?_getD, List.getD_eq_getElem?_getD]
  rcases Nat.lt_or_eq_of_le hj with hlt | rfl
  · rw [List.getElem?_append_left hlt]
  · rw [List.getElem?_append_right le_rfl, Nat.sub_self, List.getElem?_cons_zero, List.getElem?_eq_none le_rfl]
    rfl

theorem mixedFormat_noNul : 0 ∉ ascii ['a', '%', 'd', '%', '%', '%', 's', '%', 'q', '%', 'x'] := by decide

/-- `"a%d%%%s%qd%x"` with `-5`, `NULL` and `255`: conversions next to each other, a doubled `%` and an unknown
one. -/
def mixedFormat : CStr := ⟨ascii ['a', '%', 'd', '%', '%', '%', 's', '%', 'q', '%', 'x'], mixedFormat_noNul⟩

theorem printk_respects_mixed : Respects (inMemory mixedFormat [37, 115])
    [.word (-5), .string none, .word 255] 11
    (ascii ['a', '-', '5', '%', '(', 'n', 'u', 'l', 'l', ')', '%', 'q', 'f', 'f']) :=
  (printk_respects_iff mixedFormat (storedAt_inMemory _ _) (by decide +kernel)).mpr (by decide)

theorem lonePercent_noNul : 0 ∉ [percent] := by decide

/-- `"%"` -/
def lonePercent : CStr := ⟨[percent], lonePercent_noNul⟩

/-- `"%"` with the string `"A"` behind it in memory: the NUL between them is printed, and then the `A`. -/
theorem not_forall_respects :
    formatText lonePercent.bytes [] = some [percent] ∧
    printk (inMemory lonePercent [65, 0]) [] 4 = some ⟨[percent, 0, 65], [0, 1, 2, 3]⟩ ∧
    ¬ ∀ (s : CStr) (behind : List UInt8) (args : List VaArg) (text : List UInt8),
      formatText s.bytes args = some text → Respects (inMemory s behind) args s.bytes.length text := by
  refine ⟨rfl, by decide +kernel, fun h => ?_⟩
  obtain ⟨t, hloop, -, hreads⟩ := h lonePercent [65, 0] [] [percent] rfl
  obtain ⟨j, hj, hlt⟩ := printkLoop_cutOff (storedAt_inMemory lonePercent [65, 0]) lonePercent_noNul (by decide)
    (hloop 2 (by decide))
  have := hreads j hj
  omega

end Basedos.Kernel
