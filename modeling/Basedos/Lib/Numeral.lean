import Mathlib.Data.Nat.Digits.Lemmas

/-!
# Numerals

A numeral of a number in a base is the string of its digits, the most significant first, with no zero
in front unless the number is zero. There is just one (`IsNumeral.eq`): the digits that Mathlib's
`Nat.digits` gives from the least significant on, the other way round (`numeral`). With a given number of
digits it has zeros in front (`fixedDigits_eq`).
-/

namespace Basedos.Lib

/-- The number that digits stand for, read from the front: `v = v * b + d`. -/
def digitsValue (b : ℕ) (ds : List ℕ) : ℕ := ds.foldl (fun v d => v * b + d) 0

/-- `ds` is the numeral of `n` in base `b`. -/
structure IsNumeral (b n : ℕ) (ds : List ℕ) : Prop where
  lt : ∀ d ∈ ds, d < b
  ne_nil : ds ≠ []
  noLeadingZero : ds.head? = some 0 → ds = [0]
  value : digitsValue b ds = n

/-- The numeral. -/
def numeral (b n : ℕ) : List ℕ := if n = 0 then [0] else (Nat.digits b n).reverse

variable {b n : ℕ} {ds : List ℕ}

theorem digitsValue_reverse (b : ℕ) (ds : List ℕ) : digitsValue b ds.reverse = Nat.ofDigits b ds := by
  rw [digitsValue, List.foldl_reverse, Nat.ofDigits_eq_foldr]
  congr 1
  funext d v
  rw [Nat.cast_id, Nat.mul_comm, Nat.add_comm]

/-- **It is a numeral.** -/
theorem isNumeral_numeral (hb : 2 ≤ b) (n : ℕ) : IsNumeral b n (numeral b n) := by
  by_cases hn : n = 0
  · rw [numeral, if_pos hn]
    exact ⟨by simp; omega, List.cons_ne_nil _ _, fun _ => rfl, by simp [digitsValue, hn]⟩
  · have hne : Nat.digits b n ≠ [] := Nat.digits_ne_nil_iff_ne_zero.mpr hn
    rw [numeral, if_neg hn]
    refine ⟨fun d hd => Nat.digits_lt_base hb (List.mem_reverse.mp hd), by simpa using hne, fun h0 => ?_, ?_⟩
    · rw [List.head?_reverse, List.getLast?_eq_some_getLast hne, Option.some.injEq] at h0
      exact absurd h0 (Nat.getLast_digit_ne_zero b hn)
    · rw [digitsValue_reverse, Nat.ofDigits_digits]

/-- **There is no other.** -/
theorem IsNumeral.eq (hb : 2 ≤ b) (h : IsNumeral b n ds) : ds = numeral b n := by
  by_cases hzero : ds = [0]
  · have hn : n = 0 := by rw [← h.value, hzero]; simp [digitsValue]
    rw [numeral, if_pos hn, hzero]
  · have hne : ds.reverse ≠ [] := by simpa using h.ne_nil
    have hdigits : Nat.digits b n = ds.reverse := by
      rw [← h.value, ← List.reverse_reverse ds, digitsValue_reverse, List.reverse_reverse]
      refine Nat.digits_ofDigits b hb ds.reverse (fun d hd => h.lt d (List.mem_reverse.mp hd)) fun hrev h0 => hzero ?_
      rw [List.getLast_reverse] at h0
      exact h.noLeadingZero (by rw [← h0, List.head?_eq_some_head])
    have hn : n ≠ 0 := fun hn => hne (by rw [← hdigits, hn, Nat.digits_zero])
    rw [numeral, if_neg hn, hdigits, List.reverse_reverse]

/-! ### A given number of digits -/

/-- The last `k` digits. -/
def fixedDigits (b : ℕ) : ℕ → ℕ → List ℕ
  | 0, _ => []
  | k + 1, n => fixedDigits b k (n / b) ++ [n % b]

@[simp] theorem length_fixedDigits (b k n : ℕ) : (fixedDigits b k n).length = k := by
  induction k generalizing n with
  | zero => rfl
  | succ k ih => simp [fixedDigits, ih]

theorem fixedDigits_zero (b k : ℕ) : fixedDigits b k 0 = List.replicate k 0 := by
  induction k with
  | zero => rfl
  | succ k ih => rw [fixedDigits, Nat.zero_div, Nat.zero_mod, ih, List.replicate_succ']

theorem numeral_of_lt (h : n < b) : numeral b n = [n] := by
  by_cases hn : n = 0
  · rw [numeral, if_pos hn, hn]
  · rw [numeral, if_neg hn, Nat.digits_of_lt b n hn h, List.reverse_singleton]

/-- The last digit, and the others. -/
theorem numeral_of_le (hb : 2 ≤ b) (h : b ≤ n) : numeral b n = numeral b (n / b) ++ [n % b] := by
  have hn : n ≠ 0 := by omega
  have hdiv : n / b ≠ 0 := (Nat.div_pos h (by omega)).ne'
  rw [numeral, numeral, if_neg hn, if_neg hdiv, Nat.digits_def' (by omega) (Nat.pos_of_ne_zero hn), List.reverse_cons]

/-- **With `k + 1` digits** a number is its numeral with zeros in front, if it is below `b ^ (k + 1)`. -/
theorem fixedDigits_eq (hb : 2 ≤ b) {k : ℕ} (h : n < b ^ (k + 1)) : (numeral b n).length ≤ k + 1 ∧
    fixedDigits b (k + 1) n = List.replicate (k + 1 - (numeral b n).length) 0 ++ numeral b n := by
  induction k generalizing n with
  | zero =>
    rw [pow_one] at h
    rw [numeral_of_lt h, fixedDigits, fixedDigits, Nat.mod_eq_of_lt h]
    exact ⟨le_rfl, rfl⟩
  | succ k ih =>
    rw [fixedDigits]
    by_cases hn : n < b
    · rw [numeral_of_lt hn, Nat.div_eq_of_lt hn, Nat.mod_eq_of_lt hn, fixedDigits_zero]
      exact ⟨Nat.succ_le_succ (Nat.zero_le _), rfl⟩
    · have hdiv : n / b < b ^ (k + 1) := by
        rw [Nat.div_lt_iff_lt_mul (by omega), ← pow_succ]
        exact h
      obtain ⟨hlen, heq⟩ := ih hdiv
      have hlast := numeral_of_le hb (Nat.not_lt.mp hn)
      rw [heq, hlast, List.length_append, List.length_singleton, Nat.add_sub_add_right, List.append_assoc]
      exact ⟨by omega, rfl⟩

end Basedos.Lib
