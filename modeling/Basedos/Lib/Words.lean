import Mathlib.Data.List.TakeWhile
import Mathlib.Algebra.Ring.Nat

/-!
# The words of a line

`words sep l` are the maximal runs of elements of `l` that are not separators, in order.
They are found from the front: separators are skipped (`words_cons_sep`), and what follows
up to the next separator is a word (`words_append`).
-/

namespace Basedos.Lib

universe u

variable {α : Type u} {sep : α → Bool} {l w : List α} {c : α}

/-- The runs between separators that are not empty. -/
def words (sep : α → Bool) (l : List α) : List (List α) := (l.splitOnP sep).filter (! ·.isEmpty)

@[simp] theorem words_nil (sep : α → Bool) : words sep [] = [] := rfl

/-- A separator at the front. -/
theorem words_cons_sep (hc : sep c) (l : List α) : words sep (c :: l) = words sep l := by
  have hsplit : (c :: l).splitOnP sep = [] :: l.splitOnP sep :=
    List.splitOnP_append_cons_of_forall_mem (fun x hx => absurd hx List.not_mem_nil) c hc l
  rw [words, hsplit]
  rfl

/-- Separators at the front. -/
theorem words_append_sep {s : List α} (hs : ∀ c ∈ s, sep c) (l : List α) : words sep (s ++ l) = words sep l := by
  induction s with
  | nil => rfl
  | cons c s ih =>
    rw [List.cons_append, words_cons_sep (hs c List.mem_cons_self)]
    exact ih fun x hx => hs x (List.mem_cons_of_mem c hx)

/-- A line that is one word. -/
theorem words_of_word (hne : w ≠ []) (hw : ∀ x ∈ w, sep x = false) : words sep w = [w] := by
  rw [words, List.splitOnP_eq_singleton hw, List.filter_cons_of_pos]
  · rfl
  · simpa using hne

/-- A separator between two lines. -/
theorem words_append_cons (hc : sep c) (l l' : List α) : words sep (l ++ c :: l') = words sep l ++ words sep l' := by
  rw [words, List.splitOnP_append_cons l l' hc, List.filter_append]
  rfl

/-- A word at the front, and a separator after it. -/
theorem words_append (hne : w ≠ []) (hw : ∀ x ∈ w, sep x = false) (hc : sep c) (l : List α) :
    words sep (w ++ c :: l) = w :: words sep l := by
  rw [words_append_cons hc, words_of_word hne hw]
  rfl

/-- The front of a line: separators, and then its first word up to a separator or to the end. -/
theorem words_front (sep : α → Bool) (l : List α) :
    (∀ c ∈ l, sep c) ∧ words sep l = [] ∨
    ∃ s w r, l = s ++ (w ++ r) ∧ (∀ c ∈ s, sep c) ∧ w ≠ [] ∧ (∀ x ∈ w, sep x = false) ∧
      (∀ c ∈ r.head?, sep c) ∧ words sep l = w :: words sep r.tail := by
  have hskip : ∀ c ∈ l.takeWhile sep, sep c := fun c hc => List.mem_takeWhile_imp hc
  have hl : l = l.takeWhile sep ++ l.dropWhile sep := List.takeWhile_append_dropWhile.symm
  cases hrest : l.dropWhile sep with
  | nil =>
    rw [hrest, List.append_nil] at hl
    rw [← hl] at hskip
    refine .inl ⟨hskip, ?_⟩
    have hwords := words_append_sep hskip []
    rwa [List.append_nil, words_nil] at hwords
  | cons x rest =>
    have hx : sep x = false := by
      have hhead := List.head?_dropWhile_not sep l
      rw [hrest] at hhead
      simpa using hhead
    have hw : ∀ y ∈ (x :: rest).takeWhile (! sep ·), sep y = false := by
      intro y hy
      simpa using List.mem_takeWhile_imp hy
    have hne : (x :: rest).takeWhile (! sep ·) ≠ [] := by simp [hx]
    have hsplit : x :: rest = (x :: rest).takeWhile (! sep ·) ++ (x :: rest).dropWhile (! sep ·) :=
      List.takeWhile_append_dropWhile.symm
    have hc : ∀ c ∈ ((x :: rest).dropWhile (! sep ·)).head?, sep c := by
      intro c hc
      have hhead := List.head?_dropWhile_not (! sep ·) (x :: rest)
      rw [Option.mem_def.mp hc] at hhead
      simpa using hhead
    generalize (x :: rest).takeWhile (! sep ·) = v at *
    generalize (x :: rest).dropWhile (! sep ·) = r at *
    rw [hrest, hsplit] at hl
    refine .inr ⟨l.takeWhile sep, v, r, hl, hskip, hne, hw, hc, ?_⟩
    rw [hl, words_append_sep hskip]
    cases r with
    | nil =>
      rw [List.append_nil, words_of_word hne hw]
      rfl
    | cons c r =>
      rw [words_append hne hw (hc c rfl)]
      rfl

/-- A word is not empty and has no separator, and what is in it is in the line. -/
theorem mem_words {l w : List α} (h : w ∈ words sep l) : w ≠ [] ∧ (∀ x ∈ w, sep x = false) ∧ ∀ x ∈ w, x ∈ l := by
  rcases words_front sep l with ⟨-, heq⟩ | ⟨s, v, r, rfl, -, hne, hv, -, heq⟩ <;> rw [heq] at h
  · cases h
  · rcases List.mem_cons.mp h with rfl | h
    · exact ⟨hne, hv, fun x hx => List.mem_append_right s (List.mem_append_left r hx)⟩
    · have hlen : r.tail.length < (s ++ (v ++ r)).length := by
        have := List.length_pos_iff.mpr hne
        simp only [List.length_append, List.length_tail]
        omega
      obtain ⟨hw, hsep, hmem⟩ := mem_words h
      exact ⟨hw, hsep, fun x hx =>
        List.mem_append_right s (List.mem_append_right v (List.mem_of_mem_tail (hmem x hx)))⟩
termination_by l.length
decreasing_by subst_vars; exact hlen

/-- The words of a line, with a separator after each, are no longer than the line with one. -/
theorem length_words (sep : α → Bool) (l : List α) : ((words sep l).map fun w => w.length + 1).sum ≤ l.length + 1 := by
  rcases words_front sep l with ⟨-, heq⟩ | ⟨s, v, r, rfl, -, hne, -, -, heq⟩ <;> rw [heq]
  · exact Nat.zero_le _
  · have hv := List.length_pos_iff.mpr hne
    have hlen : r.tail.length < (s ++ (v ++ r)).length := by
      simp only [List.length_append, List.length_tail]
      omega
    have ih := length_words sep r.tail
    cases r with
    | nil =>
      simp only [List.map_cons, List.sum_cons, List.length_append, List.tail_nil, words_nil, List.map_nil,
        List.sum_nil, List.length_nil] at ih ⊢
      omega
    | cons c r =>
      simp only [List.map_cons, List.sum_cons, List.length_append, List.tail_cons, List.length_cons] at ih ⊢
      omega
termination_by l.length
decreasing_by subst_vars; exact hlen

end Basedos.Lib
