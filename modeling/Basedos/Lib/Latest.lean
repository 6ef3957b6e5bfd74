import Mathlib.Data.List.Destutter
import Mathlib.Data.List.DropRight
import Mathlib.Data.Nat.ModEq

/-!
# The end of a log

A log grows at its end, and only its last entries are kept: in `n` slots that are used in turn, the
entry `i` in the slot `i % n`, till the entry `i + n` is stored there (`Latest`). What a slot holds is
given by a relation, `none` for a slot that has not been used.

## What is proved

* `Latest.concat` — one more entry.
* `Latest.read` — **the slots in turn**, from the one to be used next on, hold the last `n` entries in
  their order, `filterMap_read`.
* `destutter_concat` — of a log in which repetitions count once: one more entry.
-/

namespace Basedos.Lib

universe u

variable {α : Type u} {n : ℕ} [NeZero n] {holds holds' : Fin n → Option α → Prop} {log : List α} {a : α}

/-! ### The slots -/

/-- Each slot holds the last entry stored there. -/
def Latest (holds : Fin n → Option α → Prop) (log : List α) : Prop :=
  ∀ i, i < n ∨ i < log.length → log.length ≤ i + n → holds (Fin.ofNat n i) log[i]?

theorem latest_nil (h : ∀ k, holds k none) : Latest holds [] := fun _ _ _ => h _

/-- Of the entries that are kept, no two are in one slot. -/
theorem ofNat_ne {i j : ℕ} (hij : i < j) (hji : j < i + n) : Fin.ofNat n i ≠ Fin.ofNat n j := by
  intro heq
  have hmod : i ≡ j [MOD n] := congrArg Fin.val heq
  have hdvd : n ∣ j - i := (Nat.modEq_iff_dvd' hij.le).mp hmod
  have hle := Nat.le_of_dvd (by omega) hdvd
  omega

/-- **One more entry**, stored in the next slot. -/
theorem Latest.concat (h : Latest holds log) (hnew : holds' (Fin.ofNat n log.length) (some a))
    (hothers : ∀ k ≠ Fin.ofNat n log.length, ∀ x, holds k x → holds' k x) : Latest holds' (log ++ [a]) := by
  intro i hi hkept
  rw [List.length_append, List.length_singleton] at hi hkept
  rcases Nat.lt_trichotomy i log.length with hlt | rfl | hgt
  · rw [List.getElem?_append_left hlt]
    apply hothers
    · exact ofNat_ne hlt (by omega)
    · exact h i (.inr hlt) (by omega)
  · rw [List.getElem?_concat_length]
    exact hnew
  · have hnone : (log ++ [a])[i]? = log[i]? := by
      rw [List.getElem?_eq_none (by simp; omega), List.getElem?_eq_none hgt.le]
    rw [hnone]
    apply hothers
    · exact (ofNat_ne hgt (by omega)).symm
    · exact h i (.inl (by omega)) (by omega)

/-- The entry before the next `n`, or none if there are not so many. -/
def before (n : ℕ) (log : List α) (j : ℕ) : Option α := if n ≤ log.length + j then log[log.length + j - n]? else none

/-- **The slots in turn**. -/
theorem Latest.read (h : Latest holds log) {j : ℕ} (hj : j < n) :
    holds (Fin.ofNat n (log.length + j)) (before n log j) := by
  unfold before
  split
  · next hle =>
    have hslot : Fin.ofNat n (log.length + j) = Fin.ofNat n (log.length + j - n) := by
      apply Fin.ext
      show (log.length + j) % n = (log.length + j - n) % n
      rw [Nat.mod_eq_sub_mod hle]
    rw [hslot]
    exact h _ (by omega) (by omega)
  · next hlt =>
    have hnone : log[log.length + j]? = none := List.getElem?_eq_none (Nat.le_add_right _ _)
    rw [← hnone]
    exact h _ (.inl (by omega)) (by omega)

/-- The slot used last. -/
theorem Latest.last (h : Latest holds log) : holds (Fin.ofNat n (log.length + (n - 1))) log.getLast? := by
  have hn := Nat.pos_of_neZero n
  have hlast : before n log (n - 1) = log.getLast? := by
    unfold before
    split
    · rw [List.getLast?_eq_getElem?]
      congr 1
      omega
    · rw [List.getLast?_eq_none_iff.mpr (List.length_eq_zero_iff.mp (by omega))]
  rw [← hlast]
  exact h.read (by omega)

omit [NeZero n] in
/-- What they hold are the last `n` entries. -/
theorem filterMap_before (n : ℕ) (log : List α) : (List.range n).filterMap (before n log) = log.rtake n := by
  have hsplit : n = (n - log.length) + min n log.length := by omega
  have hblank : ∀ j ∈ List.range (n - log.length), before n log j = none := by
    intro j hj
    rw [List.mem_range] at hj
    exact if_neg (by omega)
  have hheld : ∀ i ∈ List.range (min n log.length),
      (before n log ∘ (n - log.length + ·)) i = (log.rtake n)[i]? := by
    intro i hi
    rw [List.mem_range] at hi
    rw [List.rtake, List.getElem?_drop]
    show before n log (n - log.length + i) = _
    rw [before, if_pos (by omega)]
    congr 1
    omega
  have hlen : (log.rtake n).length = min n log.length := by
    rw [List.rtake, List.length_drop]
    omega
  conv_lhs => rw [hsplit, List.range_add, List.filterMap_append]
  rw [← hsplit, List.filterMap_eq_nil_iff.mpr hblank, List.nil_append, List.filterMap_map,
    List.filterMap_congr hheld, ← hlen]
  clear hheld hblank hsplit hlen
  generalize log.rtake n = l
  induction l with
  | nil => rfl
  | cons a l ih =>
    rw [List.length_cons, List.range_succ_eq_map, List.filterMap_cons, List.filterMap_map]
    simpa [Function.comp_def] using ih

/-- Fewer of the last. -/
theorem rtake_rtake {m n : ℕ} (h : m ≤ n) (l : List α) : (l.rtake n).rtake m = l.rtake m := by
  rw [List.rtake_eq_reverse_take_reverse, List.rtake_eq_reverse_take_reverse, List.reverse_reverse,
    List.take_take, min_eq_left h, ← List.rtake_eq_reverse_take_reverse]

/-! ### Repetitions -/

section Repetitions

variable [DecidableEq α]

/-- The last entry is one that counts. -/
theorem getLast?_destutter' (b : α) (l : List α) : (l.destutter' (· ≠ ·) b).getLast? = (b :: l).getLast? := by
  induction l generalizing b with
  | nil => rfl
  | cons c l ih =>
    by_cases hbc : b ≠ c
    · rw [List.destutter'_cons_pos _ hbc, List.getLast?_cons, ih, List.getLast?_cons_cons, List.getLast?_cons]
      simp
    · rw [List.destutter'_cons_neg _ hbc, ih, List.getLast?_cons_cons, not_not.mp hbc]

theorem getLast?_destutter (l : List α) : (l.destutter (· ≠ ·)).getLast? = l.getLast? := by
  cases l with
  | nil => rfl
  | cons b l => exact getLast?_destutter' b l

/-- **One more entry**, which counts unless it is the last over again. -/
theorem destutter_concat (l : List α) (a : α) : (l ++ [a]).destutter (· ≠ ·) =
    if l.getLast? = some a then l.destutter (· ≠ ·) else l.destutter (· ≠ ·) ++ [a] := by
  cases l with
  | nil => rfl
  | cons b l =>
    show (l ++ [a]).destutter' (· ≠ ·) b = _
    induction l generalizing b with
    | nil => by_cases hba : b = a <;> simp [hba]
    | cons c l ih =>
      rw [List.getLast?_cons_cons]
      by_cases hbc : b ≠ c
      · rw [List.cons_append, List.destutter'_cons_pos _ hbc, ih c, List.destutter_cons', List.destutter_cons',
          List.destutter'_cons_pos _ hbc]
        split <;> rfl
      · rw [List.cons_append, List.destutter'_cons_neg _ hbc, ih b, List.destutter_cons', List.destutter_cons',
          List.destutter'_cons_neg _ hbc, not_not.mp hbc]

end Repetitions

end Basedos.Lib
