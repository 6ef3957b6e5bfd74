import Mathlib.Data.Int.Cast.Lemmas
import Mathlib.Data.List.Basic

/-!
# Slices of an array

An array indexed by integers, and the string of its elements from one index up to
another.
-/

namespace Basedos.Lib

universe u

variable {α : Type u} {f g : ℤ → α} {a b : ℤ}

/-- The elements `f a`, `f (a + 1)`, up to but not including `f b`. -/
def slice (f : ℤ → α) (a b : ℤ) : List α := (List.range (b - a).toNat).map fun i : ℕ => f (a + i)

theorem slice_of_le (h : b ≤ a) : slice f a b = [] := by
  rw [slice, Int.toNat_of_nonpos (by omega), List.range_zero, List.map_nil]

/-- One more element at the end. -/
theorem slice_succ (h : a ≤ b) : slice f a (b + 1) = slice f a b ++ [f b] := by
  have hlen : (b + 1 - a).toNat = (b - a).toNat + 1 := by omega
  have hlast : a + ((b - a).toNat : ℤ) = b := by omega
  rw [slice, hlen, List.range_succ, List.map_append, List.map_singleton, hlast, slice]

/-- The first element and the rest. -/
theorem slice_eq_cons (h : a < b) : slice f a b = f a :: slice f (a + 1) b := by
  obtain ⟨n, hn⟩ := Int.eq_ofNat_of_zero_le (show 0 ≤ b - a - 1 by omega)
  obtain rfl : b = a + 1 + n := by omega
  clear h hn
  induction n with
  | zero =>
    rw [Nat.cast_zero, add_zero, slice_succ (Int.le_refl a), slice_of_le (Int.le_refl a), slice_of_le (Int.le_refl _)]
    rfl
  | succ n ih =>
    rw [Nat.cast_succ, ← add_assoc, slice_succ (by omega), slice_succ (by omega), ih, List.cons_append]

/-- Only the elements between the two indices count. -/
theorem slice_congr (h : ∀ i, a ≤ i → i < b → f i = g i) : slice f a b = slice g a b := by
  refine List.map_congr_left fun i hi => h _ (by omega) ?_
  rw [List.mem_range] at hi
  omega

end Basedos.Lib
