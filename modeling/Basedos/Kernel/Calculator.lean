import Basedos.Kernel.ShellBuffers

/-!
# The calculator

`calculator` reads two numbers with `atoi` and does one of five operations on them. Before a division or a
remainder it tests that the divisor is not zero. The processor has a second case in which it cannot divide: the
quotient of the least number and `-1`, which no word holds; it then raises an exception, also when it is only asked
for the remainder.

## What is proved

`calculator_safe_iff` — for every three words **the processor is asked for what it can do, and what is printed is
exact** wherever a word holds it, just when it is not asked for a quotient or remainder of the least number by
`-1`.
-/

namespace Basedos.Kernel

open Basedos.Lib Basedos.CLib Basedos.Fs

/-- The exact result of an operation, if there is one: the quotient is truncated toward zero, and the remainder has
the sign of the dividend. -/
def exactResult (op : UInt8) (a b : ℤ) : Option ℤ :=
  if op = 43 then some (a + b)
  else if op = 45 then some (a - b)
  else if op = 42 then some (a * b)
  else if op = 47 then if b = 0 then none else some (a.tdiv b)
  else if op = 37 then if b = 0 then none else some (a.tmod b)
  else none

/-- **No trap, and an exact result**: the call comes back; where there is no result it has printed an error, and
otherwise the two numbers and, if a word holds it, the result. -/
def CalculatesSafely {D : Type} (s : System D) (num1 operator num2 : CStr) : Prop :=
  ∃ s', s.calculator [num1, operator, num2] = .ok s' ∧
    match exactResult (operator.bytes.headD 0) (atoi num1.bytes).toInt (atoi num2.bytes).toInt with
    | none => ∃ text, s' = s.printError text
    | some z => ∃ result : Int32,
        s' = s.printk "%d %c %d = %d\n"
          [.int (atoi num1.bytes), .chr (operator.bytes.headD 0), .int (atoi num2.bytes), .int result] ∧
        (-2 ^ 31 ≤ z → z < 2 ^ 31 → result.toInt = z)

/-- The quotient or the remainder of the least number and `-1`. -/
def TrapsDivision (num1 operator num2 : CStr) : Prop :=
  (operator.bytes.headD 0 = 47 ∨ operator.bytes.headD 0 = 37) ∧ atoi num1.bytes = Int32.minValue ∧
    atoi num2.bytes = -1

/-- A number that a word holds is not changed by wrapping round. -/
theorem bmod_eq_self {z : ℤ} (h : -2 ^ 31 ≤ z) (h' : z < 2 ^ 31) : z.bmod (2 ^ 32) = z :=
  Int.bmod_eq_of_le (by omega) (by omega)

theorem toInt_eq_zero {b : Int32} : b.toInt = 0 ↔ b = 0 := by
  rw [← Int32.toInt_zero, Int32.toInt_inj]

/-- Division and remainder, with their test: `f` is what the processor computes, and `g` what is exact. -/
theorem divides_safely_iff {D : Type} (s : System D) (op : UInt8) {a b : Int32} {f : Int32} {g : ℤ}
    (hfg : b ≠ -1 ∨ a ≠ Int32.minValue → f.toInt = g) :
    (∃ s', (if b = 0 then .ok (s.printError "Error: Division by zero\n")
          else if a = Int32.minValue ∧ b = -1 then .error (Stop.divideError s.acts)
          else .ok (s.printk "%d %c %d = %d\n" [.int a, .chr op, .int b, .int f])) = Except.ok s' ∧
      match (if b.toInt = 0 then none else some g) with
      | none => ∃ text, s' = s.printError text
      | some z => ∃ result : Int32, s' = s.printk "%d %c %d = %d\n" [.int a, .chr op, .int b, .int result] ∧
          (-2 ^ 31 ≤ z → z < 2 ^ 31 → result.toInt = z)) ↔
      ¬ (a = Int32.minValue ∧ b = -1) := by
  by_cases hb : b = 0
  · rw [if_pos hb, if_pos (toInt_eq_zero.mpr hb)]
    refine iff_of_true ⟨_, rfl, _, rfl⟩ ?_
    rintro ⟨-, hb'⟩
    rw [hb] at hb'
    exact absurd hb' (by decide)
  · rw [if_neg hb, if_neg fun h => hb (toInt_eq_zero.mp h)]
    by_cases htrap : a = Int32.minValue ∧ b = -1
    · rw [if_pos htrap]
      refine iff_of_false ?_ (not_not_intro htrap)
      rintro ⟨s', hs', -⟩
      cases hs'
    · rw [if_neg htrap]
      refine iff_of_true ⟨_, rfl, f, rfl, fun _ _ => hfg ?_⟩ htrap
      by_contra hno
      rw [not_or, not_not, not_not] at hno
      exact htrap hno.symm

/-- A sum, a difference or a product: what is printed wraps round, and is exact where a word holds it. -/
theorem printed_exact {result : Int32} {z : ℤ} (h : result.toInt = z.bmod (2 ^ 32)) (hlow : -2 ^ 31 ≤ z)
    (hhigh : z < 2 ^ 31) : result.toInt = z := by rw [h, bmod_eq_self hlow hhigh]

/-- **When the calculator is safe**: for every three words, when they are not these. -/
theorem calculator_safe_iff {D : Type} (s : System D) (num1 operator num2 : CStr) :
    CalculatesSafely s num1 operator num2 ↔ ¬ TrapsDivision num1 operator num2 := by
  unfold CalculatesSafely TrapsDivision System.calculator exactResult
  dsimp only
  generalize operator.bytes.headD 0 = op
  generalize atoi num1.bytes = a
  generalize atoi num2.bytes = b
  by_cases hadd : op = 43
  · subst hadd
    exact iff_of_true ⟨_, rfl, a + b, rfl, printed_exact (Int32.toInt_add a b)⟩ (by simp)
  by_cases hsub : op = 45
  · subst hsub
    exact iff_of_true ⟨_, rfl, a - b, rfl, printed_exact (Int32.toInt_sub a b)⟩ (by simp)
  by_cases hmul : op = 42
  · subst hmul
    exact iff_of_true ⟨_, rfl, a * b, rfl, printed_exact (Int32.toInt_mul a b)⟩ (by simp)
  simp only [if_neg hadd, if_neg hsub, if_neg hmul]
  by_cases hdiv : op = 47
  · subst hdiv
    simp only [if_true, true_or, true_and]
    refine divides_safely_iff s 47 fun hno => ?_
    rcases hno with hb | ha
    · exact Int32.toInt_div_of_ne_right a b hb
    · exact Int32.toInt_div_of_ne_left a b ha
  simp only [if_neg hdiv]
  by_cases hmod : op = 37
  · subst hmod
    simp only [if_true, or_true, true_and]
    exact divides_safely_iff s 37 fun _ => Int32.toInt_mod a b
  · simp only [if_neg hmod]
    exact iff_of_true ⟨_, rfl, _, rfl⟩ fun htrap => htrap.1.elim hdiv hmod

theorem leastWords_noNul : 0 ∉ ascii ['-', '2', '1', '4', '7', '4', '8', '3', '6', '4', '8'] ∧ 0 ∉ ascii ['%'] ∧
    0 ∉ ascii ['-', '1'] := by decide

/-- `-2147483648` -/
def leastWord : CStr := ⟨ascii ['-', '2', '1', '4', '7', '4', '8', '3', '6', '4', '8'], leastWords_noNul.1⟩

/-- `%` -/
def percentWord : CStr := ⟨ascii ['%'], leastWords_noNul.2.1⟩

/-- `-1` -/
def minusOneWord : CStr := ⟨ascii ['-', '1'], leastWords_noNul.2.2⟩

/-- `calc -2147483648 % -1`: the remainder is `0`, and the processor traps. -/
theorem not_forall_calculatesSafely :
    smallSystem.calculator [leastWord, percentWord, minusOneWord] = .error (.divideError smallSystem.acts) ∧
    exactResult 37 (-2147483648) (-1) = some 0 ∧
    ¬ ∀ num1 operator num2 : CStr, CalculatesSafely smallSystem num1 operator num2 := by
  have htrap : smallSystem.calculator [leastWord, percentWord, minusOneWord] =
      .error (.divideError smallSystem.acts) := rfl
  refine ⟨htrap, by decide, fun h => ?_⟩
  obtain ⟨s', hs', -⟩ := h leastWord percentWord minusOneWord
  rw [htrap] at hs'
  cases hs'

end Basedos.Kernel
