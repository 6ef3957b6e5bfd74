import Mathlib.Data.Nat.Notation
import Mathlib.Data.List.Range

/-!
# Counting loops

`forLoop n body s` is `for (i = 0; i < n; i++) s = body(i, s)`.
-/

namespace Basedos.Lib

universe u

variable {σ : Type u}

/-- The loop. -/
def forLoop (n : ℕ) (body : ℕ → σ → σ) (s : σ) : σ := (List.range n).foldl (fun s i => body i s) s

theorem forLoop_succ (n : ℕ) (body : ℕ → σ → σ) (s : σ) :
    forLoop (n + 1) body s = body n (forLoop n body s) := by
  simp [forLoop, List.range_succ]

/-- **The rule of the loop**: `I i` holds before round `i`, so `I n` after the last. -/
theorem forLoop_inv {I : ℕ → σ → Prop} {n : ℕ} {body : ℕ → σ → σ} {s : σ} (h0 : I 0 s)
    (hstep : ∀ i < n, ∀ s, I i s → I (i + 1) (body i s)) : I n (forLoop n body s) := by
  induction n with
  | zero => exact h0
  | succ n ih =>
    rw [forLoop_succ]
    exact hstep n (by omega) _ (ih fun i hi => hstep i (by omega))

end Basedos.Lib
