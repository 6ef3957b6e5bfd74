import Basedos.CLib.Numerals
import Basedos.Kernel.Printk

/-!
# The unsigned printers

A number without a sign is printed in base 10 by two functions of `kernel/terminal.c`: `printk` with `%u`, through
`itoa`, and `terminal_write_dec`, which fills an array of its own from the back.

## The model

The array of `terminal_write_dec` has 11 bytes, with anything in them; `p` is an index, counted down, and a
store before the array is `none`.

## What is proved

* `terminalWriteDec_eq` — `terminal_write_dec` sends the numeral of every number, and its pointer stays in the
  array.
* `printersAgree_iff` — `%u` sends **the same just for the numbers below `2 ^ 31`**: `itoa` takes a signed
  number, so that any other is printed with a minus sign.
-/

namespace Basedos.Kernel

open Basedos.Lib Basedos.CLib

/-! ### The functions -/

theorem ne_zero_of_gt {value : UInt32} (h : value > 0) : value ≠ 0 := by
  rintro rfl
  exact UInt32.lt_irrefl 0 h

theorem div_ten_lt {value : UInt32} (h : value > 0) : (value / 10).toNat < value.toNat :=
  div_lt_of_ne_zero .ten (ne_zero_of_gt h)

/-- The loop of `terminal_write_dec`, with `*--p = '0' + (value % 10)`. -/
def writeDecLoop (buffer : List UInt8) (p : ℤ) (value : UInt32) : Option (List UInt8 × ℤ) :=
  if _h : value > 0 then
    (store buffer (p - 1) (48 + (value % 10).toUInt8)).bind fun buffer => writeDecLoop buffer (p - 1) (value / 10)
  else some (buffer, p)
termination_by value.toNat
decreasing_by exact div_ten_lt _h

/-- `terminal_write_dec`: what is sent to `putchar`, with these bytes in `buffer` at first. -/
def terminalWriteDec (buffer : Fin 11 → UInt8) (value : UInt32) : Option (List UInt8) :=
  let p : ℤ := 10
  (store (List.ofFn buffer) p 0).bind fun buffer =>
    (if value = 0 then (store buffer (p - 1) 48).map fun buffer => (buffer, p - 1)
      else writeDecLoop buffer p value).bind fun r => stringIn (r.1.drop r.2.toNat)

theorem unsignedFormat_noNul : 0 ∉ [percent, 117] := by decide

/-- `"%u"` -/
def unsignedFormat : CStr := ⟨[percent, 117], unsignedFormat_noNul⟩

/-! ### What is asked for -/

/-- The text is the decimal numeral of the number. -/
def DecimalText (n : UInt32) (text : List UInt8) : Prop := ∃ ds, IsNumeral 10 n.toNat ds ∧ text = ds.map digit

/-- **The printers agree** on the number: both send its decimal numeral, and `terminal_write_dec` stays in its
array. -/
def PrintersAgree (format : ℕ → UInt8) (buffer : Fin 11 → UInt8) (n : UInt32) : Prop :=
  ∃ text, DecimalText n text ∧ terminalWriteDec buffer n = some text ∧
    Respects format [.word n] unsignedFormat.bytes.length text

/-! ### From the back of the array -/

/-- The digits are stored in front of what is there. -/
theorem writeDecLoop_eq (value : UInt32) (a c : List UInt8) (h : (itoaDigits .ten value).length ≤ a.length) :
    writeDecLoop (a ++ c) a.length value =
      some (a.take (a.length - (itoaDigits .ten value).length) ++ ((itoaDigits .ten value).reverse ++ c),
        (a.length : ℤ) - (itoaDigits .ten value).length) := by
  rw [writeDecLoop]
  split
  · next hpos =>
    have hnine : ¬ value % 10 > 9 := by
      rw [gt_iff_lt, UInt32.lt_iff_toNat_lt, UInt32.toNat_mod]
      simp only [UInt32.reduceToNat]
      omega
    have hdigits : itoaDigits .ten value = (48 + (value % 10).toUInt8) :: itoaDigits .ten (value / 10) := by
      rw [itoaDigits, dif_neg (ne_zero_of_gt hpos), UInt8.add_comm]
      exact congrArg (· :: _) (if_neg hnine)
    rw [hdigits] at h ⊢
    cases a using List.reverseRecOn with
    | nil => simp at h
    | append_singleton a x =>
      have hnext := writeDecLoop_eq (value / 10) a ((48 + (value % 10).toUInt8) :: c) (by simpa using h)
      have hp : ((a ++ [x]).length : ℤ) - 1 = a.length := by simp
      have hcount : (a ++ [x]).length - (itoaDigits .ten (value / 10)).length.succ =
          a.length - (itoaDigits .ten (value / 10)).length := by simp
      have hindex : ((a ++ [x]).length : ℤ) - (itoaDigits .ten (value / 10)).length.succ =
          a.length - (itoaDigits .ten (value / 10)).length := by simp
      rw [hp, List.append_assoc, List.singleton_append, store_append, Option.bind_some, hnext, List.length_cons, hcount,
        hindex, List.take_append_of_le_length (Nat.sub_le _ _), List.reverse_cons, List.append_assoc,
        List.singleton_append]
  · next h0 =>
    have hzero : value = 0 := by simpa using h0
    simp [itoaDigits, hzero]
termination_by value.toNat
decreasing_by exact div_ten_lt ‹_›

/-- The text of a number, as the two functions have it. -/
theorem zeroOrDigits_eq (n : UInt32) :
    (if n = 0 then [48] else (itoaDigits .ten n).reverse) = (numeral 10 n.toNat).map digit := by
  by_cases h0 : n = 0
  · subst h0
    rfl
  · have hne : n.toNat ≠ 0 := fun h => h0 (UInt32.toNat_inj.mp h)
    rw [if_neg h0]
    exact reverse_itoaDigits .ten hne

theorem DecimalText.eq {n : UInt32} {text : List UInt8} (h : DecimalText n text) :
    text = (numeral 10 n.toNat).map digit := by
  obtain ⟨ds, hds, rfl⟩ := h
  rw [hds.eq (by omega)]

/-- No digit is a NUL. -/
theorem zero_not_mem_digits {ds : List ℕ} (h : ∀ d ∈ ds, d < 10) : 0 ∉ ds.map digit := by
  intro h0
  obtain ⟨d, hd, hzero⟩ := List.mem_map.mp h0
  have hnat := toNat_digit d (h d hd)
  rw [hzero, UInt8.toNat_zero] at hnat
  omega

/-- **What `terminal_write_dec` sends**: the decimal numeral, and no store misses its array. -/
theorem terminalWriteDec_eq (buffer : Fin 11 → UInt8) (n : UInt32) :
    terminalWriteDec buffer n = some ((numeral 10 n.toNat).map digit) := by
  have hlen : (List.ofFn buffer).length = 11 := List.length_ofFn
  obtain ⟨a, y, x, hbuffer⟩ : ∃ a y x, List.ofFn buffer = a ++ [y] ++ [x] := by
    generalize List.ofFn buffer = b at hlen
    cases b using List.reverseRecOn with
    | nil => cases hlen
    | append_singleton b x =>
      cases b using List.reverseRecOn with
      | nil => cases hlen
      | append_singleton a y => exact ⟨a, y, x, rfl⟩
  have ha : (a ++ [y]).length = 10 := by
    rw [hbuffer] at hlen
    simpa using hlen
  have hnine : (10 : ℤ) - 1 = a.length := by
    rw [List.length_append, List.length_singleton] at ha
    omega
  have hstore := store_append (a ++ [y]) [] x 0
  rw [ha, Nat.cast_ofNat] at hstore
  -- where the loop stops, the numeral and the NUL are all that is left of the array
  obtain ⟨pre, hloop⟩ : ∃ pre : List UInt8,
      (if n = 0 then (store (a ++ [y] ++ [0]) (10 - 1) 48).map fun buffer => (buffer, (10 : ℤ) - 1)
        else writeDecLoop (a ++ [y] ++ [0]) 10 n) =
      some (pre ++ ((numeral 10 n.toNat).map digit ++ [0]), (pre.length : ℤ)) := by
    rw [← zeroOrDigits_eq]
    split
    · rw [hnine, List.append_assoc, List.singleton_append, store_append]
      exact ⟨a, rfl⟩
    · have hle := length_itoaDigits_le .ten le_rfl n
      have heq := writeDecLoop_eq n (a ++ [y]) [0] (by omega)
      rw [ha, Nat.cast_ofNat] at heq
      refine ⟨(a ++ [y]).take (10 - (itoaDigits .ten n).length), heq.trans ?_⟩
      rw [List.length_take, ha, Nat.min_eq_left (Nat.sub_le _ _), Nat.cast_sub hle, Nat.cast_ofNat]
  have htext : Holds ((numeral 10 n.toNat).map digit ++ [0]) ((numeral 10 n.toNat).map digit) :=
    ⟨zero_not_mem_digits (isNumeral_numeral (by omega) n.toNat).lt, [], rfl⟩
  simp only [terminalWriteDec, hbuffer, hstore, Option.bind_some, hloop, Int.toNat_natCast, List.drop_left,
    htext.stringIn]

/-! ### What `%u` sends -/

/-- What `printk` sends for `%u`: the number as a signed one. -/
theorem respects_unsigned_iff {format : ℕ → UInt8} (h : StoredAt format 0 unsignedFormat.bytes) (n : UInt32)
    (text : List UInt8) :
    Respects format [.word n] unsignedFormat.bytes.length text ↔ text = itoa n.toInt32 .ten := by
  have htext : formatText unsignedFormat.bytes [.word n] = some (itoa n.toInt32 .ten) := by
    rw [unsignedFormat, formatText_percent]
    simp [printkSwitch, vaWord, formatText]
  obtain ⟨t, hloop, hsent, hreads⟩ := printkLoop_text h unsignedFormat.noNul (by decide) htext
  constructor
  · rintro ⟨t', hloop', hsent', -⟩
    have heq := (hloop 3 (by decide)).symm.trans (hloop' 3 (by decide))
    rw [← hsent', ← hsent, Option.some.inj heq]
  · rintro rfl
    exact ⟨t, hloop, hsent, fun j hj => by have := hreads j hj; omega⟩

/-- Below `2 ^ 31` the signed number is the same. -/
theorem itoa_of_lt {n : UInt32} (h : n.toNat < 2 ^ 31) : DecimalText n (itoa n.toInt32 .ten) := by
  obtain ⟨ds, htext, hds⟩ := itoa_writes n.toInt32 .ten
  have hint : n.toInt32.toInt = n.toNat := by rw [toInt_toInt32, if_pos h]
  have hsign : ¬ (Base.ten.val = 10 ∧ n.toInt32.toInt < 0) := by
    rw [hint]
    omega
  rw [if_pos (show Base.ten.val = 10 from rfl), hint, Int.natAbs_natCast] at hds
  rw [if_neg hsign, List.nil_append] at htext
  exact ⟨ds, hds, htext⟩

/-- From `2 ^ 31` on it is negative, and its text no numeral. -/
theorem not_decimalText_itoa {n : UInt32} (h : ¬ n.toNat < 2 ^ 31) : ¬ DecimalText n (itoa n.toInt32 .ten) := by
  rintro ⟨ds, hds, heq⟩
  obtain ⟨ds', htext, -⟩ := itoa_writes n.toInt32 .ten
  have hneg : n.toInt32.toInt < 0 := by
    have := n.toNat_lt
    rw [toInt_toInt32, if_neg h]
    omega
  rw [if_pos ⟨rfl, hneg⟩, heq] at htext
  obtain ⟨d, ds, rfl⟩ := List.exists_cons_of_ne_nil hds.ne_nil
  exact (digit_ne d (hds.lt d List.mem_cons_self)).2.1 (List.cons.inj htext).1

/-- **When the printers agree**: for every number and whatever is in the array and behind the format, just below
`2 ^ 31`. -/
theorem printersAgree_iff {format : ℕ → UInt8} (h : StoredAt format 0 unsignedFormat.bytes)
    (buffer : Fin 11 → UInt8) (n : UInt32) : PrintersAgree format buffer n ↔ n.toNat < 2 ^ 31 := by
  constructor
  · rintro ⟨text, htext, -, hsent⟩
    by_contra hge
    rw [(respects_unsigned_iff h n text).mp hsent] at htext
    exact not_decimalText_itoa hge htext
  · intro hlt
    have htext := itoa_of_lt hlt
    exact ⟨_, htext, by rw [terminalWriteDec_eq, htext.eq], (respects_unsigned_iff h n _).mpr rfl⟩

theorem printersAgree_million : PrintersAgree (inMemory unsignedFormat []) (fun _ => 0) 1000000 :=
  (printersAgree_iff (storedAt_inMemory unsignedFormat []) _ _).mpr (by decide)

/-- `2147483648`: one prints it, and the other `-2147483648`. -/
theorem not_forall_printersAgree :
    terminalWriteDec (fun _ => 0) 2147483648 = some (ascii ['2', '1', '4', '7', '4', '8', '3', '6', '4', '8']) ∧
    (printk (inMemory unsignedFormat []) [.word 2147483648] 3).map Trace.sent =
      some (ascii ['-', '2', '1', '4', '7', '4', '8', '3', '6', '4', '8']) ∧
    ¬ ∀ (format : ℕ → UInt8) (buffer : Fin 11 → UInt8) (n : UInt32), StoredAt format 0 unsignedFormat.bytes →
      PrintersAgree format buffer n := by
  refine ⟨by decide +kernel, by decide +kernel, fun h => ?_⟩
  obtain ⟨text, htext, -, hsent⟩ := h _ (fun _ => 0) 2147483648 (storedAt_inMemory unsignedFormat [])
  rw [(respects_unsigned_iff (storedAt_inMemory unsignedFormat []) _ text).mp hsent] at htext
  exact not_decimalText_itoa (by decide) htext

end Basedos.Kernel
