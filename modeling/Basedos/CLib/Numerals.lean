import Basedos.CLib.Numbers
import Basedos.CLib.Tokens
import Basedos.Lib.Numeral
import Basedos.Lib.Signed

/-!
# Number text

`itoa` and `atoi` of `lib/string.c`: the text one of them writes to an array, and the number the other
reads back.

## The model

`itoaAt` is `itoa` with its stores to the array `str`; a store outside it is `none`, and a pointer is an
index. The text that was there (`itoa`) is what ends up in front of the NUL. `Writes` says what the text
of a number is to be, by the one numeral of its magnitude in base 10, and of the number modulo `2 ^ 32` in
any other base.

## What is proved

* `itoaAt_eq` — the stores: the text and a NUL, and nothing changed after it, if there is room.
* `itoa_writes` — the text is the one it is to be.
* `atoi_number` — `atoi` of a sign and digits, between blanks and what is no digit.
* `itoa_atoi` — **the round trip**: for every number and base, and back again in base 10.
-/

namespace Basedos.CLib

open Basedos.Lib

/-- The characters of the digits, `0-9a-z`. -/
def digitCharacters : List UInt8 :=
  ascii ['0', '1', '2', '3', '4', '5', '6', '7', '8', '9', 'a', 'b', 'c', 'd', 'e', 'f', 'g', 'h', 'i', 'j', 'k', 'l',
    'm', 'n', 'o', 'p', 'q', 'r', 's', 't', 'u', 'v', 'w', 'x', 'y', 'z']

/-- The character of a digit. -/
def digit (d : ℕ) : UInt8 := digitCharacters.getD d 0

/-- The loop of `itoa`: a digit stored at `p` and `p` moved on, until nothing is left of the number. -/
def itoaLoop (base : Base) (str : List UInt8) (p : ℕ) (tmp : UInt32) : Option (List UInt8 × ℕ) :=
  if _h : tmp = 0 then some (str, p)
  else (store str p (digitChar (tmp % base.val))).bind fun str => itoaLoop base str (p + 1) (tmp / base.val)
termination_by tmp.toNat
decreasing_by exact div_lt_of_ne_zero base _h

/-- `itoa`, with its stores to `str`. -/
def itoaAt (value : Int32) (str : List UInt8) (base : Base) : Option (List UInt8) :=
  if value = 0 then (store str 0 48).bind fun str => store str 1 0
  else
    let negative := value < 0 ∧ base.val = 10
    let start := if negative then 1 else 0
    let tmp := if negative then (-value).toUInt32 else value.toUInt32
    (if negative then store str 0 45 else some str).bind fun str =>
      (itoaLoop base str start tmp).bind fun r =>
        (store r.1 r.2 0).map fun str => reverseLoop str start (r.2 - 1)

/-- The text of a number in a base: in base 10 a minus sign if it is negative and the numeral of its
magnitude, in another base the numeral of the number modulo `2 ^ 32`. -/
def Writes (v : Int32) (base : Base) (text : List UInt8) : Prop :=
  ∃ ds, text = (if base.val = 10 ∧ v.toInt < 0 then [45] else []) ++ ds.map digit ∧
    IsNumeral base.val.toNat (if base.val = 10 then v.toInt.natAbs else (v.toInt % 2 ^ 32).toNat) ds

/-! ### What is written -/

theorem digitChar_ofNat : ∀ d < 36, digitChar (UInt32.ofNat d) = digit d := by decide +kernel

/-- The digits of a number that is not zero, the other way round, are its numeral. -/
theorem reverse_itoaDigits (base : Base) {tmp : UInt32} (h : tmp.toNat ≠ 0) :
    (itoaDigits base tmp).reverse = (numeral base.val.toNat tmp.toNat).map digit := by
  rw [itoaDigits_eq, numeral, if_neg h, ← List.map_reverse]
  refine List.map_congr_left fun d hd => digitChar_ofNat d ?_
  exact lt_of_lt_of_le (Nat.digits_lt_base base.two_le (List.mem_reverse.mp hd)) base.le

/-- **`itoa` writes what it is to write.** -/
theorem itoa_writes (v : Int32) (base : Base) : Writes v base (itoa v base) := by
  by_cases h0 : v = 0
  · subst h0
    refine ⟨[0], by simp [itoa, digit, digitCharacters, ascii], ?_⟩
    have hzero := isNumeral_numeral base.two_le 0
    simpa [numeral] using hzero
  · have hne : v.toInt ≠ 0 := fun h => h0 (Int32.toInt_inj.mp h)
    have hword := toNat_toUInt32 v
    have hle := v.le_toInt
    have hlt := v.toInt_lt
    have hiff : v < 0 ↔ v.toInt < 0 := Int32.lt_iff_toInt_lt
    rw [itoa_eq h0]
    by_cases hten : base.val = 10
    · by_cases hneg : v.toInt < 0
      · rw [if_pos ⟨hiff.mpr hneg, hten⟩, reverse_itoaDigits base (by rw [toNat_neg_toUInt32 hneg]; omega),
          toNat_neg_toUInt32 hneg]
        refine ⟨_, by rw [if_pos ⟨hten, hneg⟩]; rfl, ?_⟩
        rw [if_pos hten]
        exact isNumeral_numeral base.two_le _
      · have habs : v.toUInt32.toNat = v.toInt.natAbs := by omega
        rw [if_neg fun h => hneg (hiff.mp h.1), reverse_itoaDigits base (by omega), habs]
        refine ⟨_, by rw [if_neg fun h => hneg h.2]; rfl, ?_⟩
        rw [if_pos hten]
        exact isNumeral_numeral base.two_le _
    · have hmod : v.toUInt32.toNat = (v.toInt % 2 ^ 32).toNat := by omega
      rw [if_neg fun h => hten h.2, reverse_itoaDigits base (by omega), hmod]
      refine ⟨_, by rw [if_neg fun h => hten h.1]; rfl, ?_⟩
      rw [if_neg hten]
      exact isNumeral_numeral base.two_le _

/-! ### The stores -/

/-- The loop stores the digits one after another. -/
theorem itoaLoop_eq (base : Base) (tmp : UInt32) (a c : List UInt8) (h : (itoaDigits base tmp).length ≤ c.length) :
    itoaLoop base (a ++ c) a.length tmp =
      some (a ++ itoaDigits base tmp ++ c.drop (itoaDigits base tmp).length,
        a.length + (itoaDigits base tmp).length) := by
  rw [itoaLoop]
  split
  · next h0 => simp [itoaDigits, h0]
  · next h0 =>
    have hdigits : itoaDigits base tmp = digitChar (tmp % base.val) :: itoaDigits base (tmp / base.val) := by
      rw [itoaDigits, dif_neg h0]
    rw [hdigits] at h ⊢
    cases c with
    | nil => simp at h
    | cons x c =>
      have hnext := itoaLoop_eq base (tmp / base.val) (a ++ [digitChar (tmp % base.val)]) c
        (by simpa using h)
      rw [List.length_append, List.length_singleton] at hnext
      rw [store_append, Option.bind_some, List.append_cons a, hnext, List.length_cons, List.drop_succ_cons]
      simp [Nat.add_assoc, Nat.add_comm]
termination_by tmp.toNat
decreasing_by exact div_lt_of_ne_zero base ‹_›

/-- What follows the sign: the digits are stored, and a NUL, and then they are reversed. -/
theorem itoaLoop_reversed (base : Base) (tmp : UInt32) (a : List UInt8) {c : List UInt8}
    (h : (itoaDigits base tmp).length < c.length) :
    ((itoaLoop base (a ++ c) a.length tmp).bind fun r =>
      (store r.1 r.2 0).map fun str => reverseLoop str a.length (r.2 - 1)) =
    some (a ++ (itoaDigits base tmp).reverse ++ 0 :: c.drop ((itoaDigits base tmp).length + 1)) := by
  have hstore (x : UInt8) := store_append (a ++ itoaDigits base tmp) (c.drop ((itoaDigits base tmp).length + 1)) x 0
  simp only [List.length_append] at hstore
  rw [itoaLoop_eq base tmp a c (Nat.le_of_lt h), Option.bind_some, List.drop_eq_getElem_cons h, hstore, Option.map_some,
    reverseLoop_eq]

/-- **What `itoa` leaves in the array**: the text, a NUL, and what was there after it. -/
theorem itoaAt_eq (v : Int32) (base : Base) {str : List UInt8} (h : (itoa v base).length < str.length) :
    itoaAt v str base = some (itoa v base ++ 0 :: str.drop ((itoa v base).length + 1)) := by
  by_cases h0 : v = 0
  · subst h0
    rcases str with _ | ⟨x, _ | ⟨y, str⟩⟩
    · simp [itoa] at h
    · simp [itoa] at h
    · have hfirst := store_append [] (y :: str) x 48
      have hsecond := store_append [48] str y 0
      simp only [List.nil_append, List.length_nil, List.length_singleton, Nat.cast_zero, Nat.cast_one] at hfirst hsecond
      rw [itoaAt, if_pos rfl, hfirst, Option.bind_some]
      exact hsecond
  · rw [itoa_eq h0] at h ⊢
    rw [itoaAt, if_neg h0]
    split at h
    · next hneg =>
      rw [List.length_cons, List.length_reverse] at h
      cases str with
      | nil => simp at h
      | cons x str =>
        have hsign := store_append [] str x 45
        have htail := itoaLoop_reversed base (-v).toUInt32 [45] (Nat.lt_of_succ_lt_succ h)
        simp only [List.nil_append, List.length_nil, List.length_singleton, Nat.cast_zero] at hsign htail
        simp only [if_pos hneg, hsign, Option.bind_some]
        rw [← List.singleton_append, htail]
        simp
    · next hneg =>
      rw [List.length_reverse] at h
      have htail := itoaLoop_reversed base v.toUInt32 [] h
      simp only [List.nil_append, List.length_nil] at htail
      simp only [if_neg hneg, Option.bind_some, htail, List.length_reverse]

/-! ### What is read back -/

theorem toNat_digit : ∀ d < 10, (digit d).toNat = 48 + d := by decide +kernel

/-- The digits added up: the number they stand for, up to multiples of `2 ^ 32`. -/
theorem foldl_digits {ds : List ℕ} (hds : ∀ d ∈ ds, d < 10) (n : ℕ) :
    (ds.map digit).foldl (fun result c => result * 10 + Int32.ofNat (c.toNat - 48)) (Int32.ofNat n) =
      Int32.ofNat (ds.foldl (fun v d => v * 10 + d) n) := by
  induction ds generalizing n with
  | nil => rfl
  | cons d ds ih =>
    have hstep : Int32.ofNat n * 10 + Int32.ofNat ((digit d).toNat - 48) = Int32.ofNat (n * 10 + d) := by
      rw [toNat_digit d (hds d List.mem_cons_self), Nat.add_sub_cancel_left, Int32.ofNat_add, Int32.ofNat_mul]
      rfl
    rw [List.map_cons, List.foldl_cons, hstep, ih fun d hd => hds d (List.mem_cons_of_mem _ hd), List.foldl_cons]

/-- The digits up to the first character that is none. -/
theorem takeWhile_digits {ds : List ℕ} (hds : ∀ d ∈ ds, d < 10) {rest : List UInt8}
    (hrest : ∀ c ∈ rest.head?, ¬ (48 ≤ c ∧ c ≤ 57)) :
    (ds.map digit ++ rest).takeWhile (fun c => 48 ≤ c ∧ c ≤ 57) = ds.map digit := by
  have hdigits : ∀ c ∈ ds.map digit, decide (48 ≤ c ∧ c ≤ 57) = true := by
    intro c hc
    obtain ⟨d, hd, rfl⟩ := List.mem_map.mp hc
    have hlt := hds d hd
    have hnat := toNat_digit d hlt
    simp only [UInt8.le_iff_toNat_le, hnat, decide_eq_true_eq]
    exact ⟨by simp, by simp; omega⟩
  rw [List.takeWhile_append_of_pos hdigits]
  cases rest with
  | nil => rw [List.takeWhile_nil, List.append_nil]
  | cons c rest => rw [List.takeWhile_cons_of_neg (by simpa using hrest c rfl), List.append_nil]

/-- A digit is no blank and no sign. -/
theorem digit_ne : ∀ d < 10, ¬ (digit d = 32 ∨ digit d = 9 ∨ digit d = 10) ∧ digit d ≠ 45 ∧ digit d ≠ 43 := by
  decide +kernel

/-- **What `atoi` reads**: blanks are passed, and what follows the digits is not looked at. -/
theorem atoi_number {blanks : List UInt8} (hblanks : ∀ c ∈ blanks, c = 32 ∨ c = 9 ∨ c = 10) (negative : Bool)
    {ds : List ℕ} (hne : ds ≠ []) (hds : ∀ d ∈ ds, d < 10) {rest : List UInt8}
    (hrest : ∀ c ∈ rest.head?, ¬ (48 ≤ c ∧ c ≤ 57)) :
    atoi (blanks ++ ((if negative then [45] else []) ++ ds.map digit) ++ rest) =
      if negative then -1 * Int32.ofNat (digitsValue 10 ds) else Int32.ofNat (digitsValue 10 ds) := by
  have hread := foldl_digits hds 0
  have htake := takeWhile_digits hds hrest
  have hpass : ∀ c ∈ blanks, decide (c = 32 ∨ c = 9 ∨ c = 10) = true := fun c hc => by simpa using hblanks c hc
  rw [List.append_assoc, List.append_assoc, atoi, List.dropWhile_append_of_pos hpass]
  cases negative with
  | true =>
    simp only [if_true, List.singleton_append]
    rw [List.dropWhile_cons_of_neg (by decide)]
    simp only [htake]
    exact congrArg (-1 * ·) hread
  | false =>
    obtain ⟨d, ds', rfl⟩ := List.exists_cons_of_ne_nil hne
    obtain ⟨hblank, hminus, hplus⟩ := digit_ne d (hds d List.mem_cons_self)
    simp only [Bool.false_eq_true, if_false, List.nil_append]
    rw [List.map_cons, List.cons_append] at htake ⊢
    rw [List.dropWhile_cons_of_neg (by simpa using hblank)]
    split
    · next heq => exact absurd (List.cons.inj heq).1 hminus
    · next heq => exact absurd (List.cons.inj heq).1 hplus
    · rw [htake]
      exact hread

/-- **The round trip**: for every number and base `itoa` ends and leaves the text the number is to have in any
array with room for it, and in base 10 `atoi` reads the number back, behind blanks and in front of what does not
begin with a digit. -/
theorem itoa_atoi (v : Int32) (base : Base) :
    ∃ text, Writes v base text ∧
      (∀ str : List UInt8, text.length < str.length →
        itoaAt v str base = some (text ++ 0 :: str.drop (text.length + 1))) ∧
      (base.val = 10 → ∀ blanks rest : List UInt8, (∀ c ∈ blanks, c = 32 ∨ c = 9 ∨ c = 10) →
        (∀ c ∈ rest.head?, ¬ (48 ≤ c ∧ c ≤ 57)) → atoi (blanks ++ text ++ rest) = v) := by
  refine ⟨itoa v base, itoa_writes v base, fun str h => itoaAt_eq v base h, fun hten blanks rest hblanks hrest => ?_⟩
  obtain ⟨ds, htext, hds⟩ := itoa_writes v base
  have hlt : ∀ d ∈ ds, d < 10 := by
    intro d hd
    have := hds.lt d hd
    rwa [hten] at this
  have hvalue := hds.value
  rw [if_pos hten, hten] at hvalue
  change digitsValue 10 ds = v.toInt.natAbs at hvalue
  have hread := atoi_number hblanks (decide (v.toInt < 0)) hds.ne_nil hlt hrest
  simp only [decide_eq_true_eq, hvalue] at hread
  simp only [htext, hten, true_and]
  rw [hread, ← Int32.ofInt_eq_ofNat]
  split
  · next hneg =>
    rw [Int.natCast_natAbs, abs_of_neg hneg, Int32.ofInt_neg, Int32.ofInt_toInt, Int32.neg_mul_neg, Int32.one_mul]
  · next hneg => rw [Int.natCast_natAbs, abs_of_nonneg (not_lt.mp hneg), Int32.ofInt_toInt]

end Basedos.CLib
