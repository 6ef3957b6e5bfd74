import Mathlib.Data.List.TakeDrop
import Mathlib.Data.UInt

/-!
# Strings

The functions of `lib/string.c` the kernel uses on NUL-terminated strings. A C
string is the list of its bytes before the NUL (`CStr`); a `const char*` into a
string is the list of the bytes from there to the NUL, so that moving the pointer
on is taking the tail, and `*p == '\0'` is that the list is empty. Characters are
bytes; comparing two `char`s for equality does not depend on their signedness, and
`strcmp` takes the difference of `unsigned char`s.

What is proved of each is what its callers use: `strcmp` is `0` just when the
strings are equal (`strcmp_eq_zero_iff`), `strncmp` is `0` just when they agree
for `n` characters (`strncmp_eq_zero_iff`), and `strchr` splits a string at the
first occurrence (`strchr_eq_some`, `strchr_append_cons`, `strchr_eq_none`).
-/

namespace Basedos.CLib

/-- A C string: its bytes before the terminating NUL. -/
structure CStr where
  /-- The bytes. -/
  bytes : List UInt8
  /-- The first NUL is the terminating one. -/
  noNul : 0 ∉ bytes
  deriving DecidableEq

theorem CStr.bytes_inj {s t : CStr} (h : s.bytes = t.bytes) : s = t := by
  cases s
  cases t
  cases h
  rfl

/-- The empty string. -/
def CStr.empty : CStr := ⟨[], List.not_mem_nil⟩

/-- The bytes of a text in ASCII. -/
def ascii (cs : List Char) : List UInt8 := cs.map fun c => UInt8.ofNat c.toNat

/-- `strcmp`. -/
def strcmp : List UInt8 → List UInt8 → ℤ
  | [], [] => 0
  | [], b :: _ => 0 - b.toNat
  | a :: _, [] => a.toNat - 0
  | a :: as, b :: bs => if a = b then strcmp as bs else a.toNat - b.toNat

/-- `strncmp`: the loop stops when `n` characters have been compared. -/
def strncmp : List UInt8 → List UInt8 → ℕ → ℤ
  | _, _, 0 => 0
  | [], [], _ + 1 => 0
  | [], b :: _, _ + 1 => 0 - b.toNat
  | a :: _, [], _ + 1 => a.toNat - 0
  | a :: as, b :: bs, n + 1 => if a = b then strncmp as bs n else a.toNat - b.toNat

/-- `strchr`: the rest of the string from the first `c` on, or `NULL`. -/
def strchr : List UInt8 → UInt8 → Option (List UInt8)
  | [], _ => none
  | a :: as, c => if a = c then some (a :: as) else strchr as c

theorem toNat_ne_zero {a : UInt8} (h : a ≠ 0) : (a.toNat : ℤ) ≠ 0 := by
  intro h0
  exact h (UInt8.toNat_inj.mp (by simpa using h0))

theorem toNat_sub_ne_zero {a b : UInt8} (h : a ≠ b) : (a.toNat : ℤ) - b.toNat ≠ 0 := by
  intro h0
  exact h (UInt8.toNat_inj.mp (by omega))

/-- `strcmp` returns `0` just on equal strings. -/
theorem strcmp_eq_zero_iff {s t : List UInt8} (hs : 0 ∉ s) (ht : 0 ∉ t) : strcmp s t = 0 ↔ s = t := by
  induction s generalizing t with
  | nil =>
    cases t with
    | nil => simp [strcmp]
    | cons b t =>
      have hb : b ≠ 0 := fun h => ht (by simp [h])
      have := toNat_ne_zero hb
      simp only [strcmp, reduceCtorEq, iff_false]
      omega
  | cons a s ih =>
    have ha : a ≠ 0 := fun h => hs (by simp [h])
    cases t with
    | nil =>
      have := toNat_ne_zero ha
      simp only [strcmp, reduceCtorEq, iff_false]
      omega
    | cons b t =>
      simp only [List.mem_cons, not_or] at hs ht
      by_cases hab : a = b
      · simp only [strcmp, hab, if_true, ih hs.2 ht.2, List.cons.injEq, true_and]
      · have := toNat_sub_ne_zero hab
        simp only [strcmp, hab, if_false, List.cons.injEq, false_and, iff_false]
        exact this

/-- Of a string `s` of at least `n` characters, `strncmp` with `n` returns `0` just
when the other begins with its first `n`. -/
theorem strncmp_eq_zero_iff {s t : List UInt8} {n : ℕ} (hs : 0 ∉ s) (ht : 0 ∉ t) (hn : n ≤ s.length) :
    strncmp s t n = 0 ↔ s.take n <+: t := by
  induction n generalizing s t with
  | zero => simp [strncmp]
  | succ n ih =>
    cases s with
    | nil => simp at hn
    | cons a s =>
      have ha : a ≠ 0 := fun h => hs (by simp [h])
      cases t with
      | nil =>
        have := toNat_ne_zero ha
        simp only [strncmp, List.take_succ_cons, List.prefix_nil, reduceCtorEq, iff_false]
        omega
      | cons b t =>
        simp only [List.mem_cons, not_or] at hs ht
        by_cases hab : a = b
        · simp only [strncmp, hab, if_true, List.take_succ_cons, List.cons_prefix_cons, true_and]
          exact ih hs.2 ht.2 (by simpa using hn)
        · have := toNat_sub_ne_zero hab
          simp only [strncmp, hab, if_false, List.take_succ_cons, List.cons_prefix_cons, false_and,
            iff_false]
          exact this

theorem strchr_eq_none {s : List UInt8} {c : UInt8} : strchr s c = none ↔ c ∉ s := by
  induction s with
  | nil => simp [strchr]
  | cons a s ih =>
    by_cases h : a = c
    · simp [strchr, h]
    · simp [strchr, h, ih, Ne.symm h]

/-- `strchr` finds the first occurrence: what comes before it has none. -/
theorem strchr_eq_some {s r : List UInt8} {c : UInt8} (h : strchr s c = some r) :
    ∃ s₁ s₂, s = s₁ ++ c :: s₂ ∧ r = c :: s₂ ∧ c ∉ s₁ := by
  induction s with
  | nil => simp [strchr] at h
  | cons a s ih =>
    by_cases hac : a = c
    · subst hac
      simp only [strchr, if_true, Option.some.injEq] at h
      exact ⟨[], s, rfl, h.symm, by simp⟩
    · simp only [strchr, hac, if_false] at h
      obtain ⟨s₁, s₂, rfl, rfl, hc⟩ := ih h
      exact ⟨a :: s₁, s₂, rfl, rfl, by simp [hc, Ne.symm hac]⟩

theorem strchr_append_cons {s : List UInt8} {c : UInt8} (h : c ∉ s) (r : List UInt8) :
    strchr (s ++ c :: r) c = some (c :: r) := by
  induction s with
  | nil => simp [strchr]
  | cons a s ih =>
    simp only [List.mem_cons, not_or] at h
    simp only [List.cons_append, strchr, Ne.symm h.1, if_false]
    exact ih h.2

end Basedos.CLib
