import Mathlib.Data.List.Basic

/-!
# Splitting a string into pieces

`pieces sep l` splits `l` at every `sep` and drops one empty piece at the end, as a
path is split at `/`: a separator at the end adds no piece, one in the middle next
to another makes an empty piece.
-/

namespace Basedos.Lib

universe u

variable {α : Type u} [DecidableEq α]

/-- The list without one empty piece at its end. -/
def dropEmptyLast (ps : List (List α)) : List (List α) :=
  if ps.getLast? = some [] then ps.dropLast else ps

/-- The pieces of `l` between separators, less one empty last piece. -/
def pieces (sep : α) (l : List α) : List (List α) := dropEmptyLast (l.splitOn sep)

theorem dropEmptyLast_append (ps : List (List α)) {qs : List (List α)} (h : qs ≠ []) :
    dropEmptyLast (ps ++ qs) = ps ++ dropEmptyLast qs := by
  have hlast : (ps ++ qs).getLast? = qs.getLast? := by
    rw [List.getLast?_append, List.getLast?_eq_some_getLast h, Option.some_or]
  unfold dropEmptyLast
  rw [hlast]
  split
  · rw [List.dropLast_append_of_ne_nil h]
  · rfl

theorem splitOn_ne_nil (sep : α) (l : List α) : l.splitOn sep ≠ [] := List.splitOn_ne_nil sep l

@[simp] theorem pieces_nil (sep : α) : pieces sep [] = [] := by
  simp [pieces, dropEmptyLast]

/-- A string with no separator is one piece. -/
theorem pieces_of_not_mem {sep : α} {l : List α} (hl : l ≠ []) (h : sep ∉ l) : pieces sep l = [l] := by
  rw [pieces, List.splitOn_eq_singleton h]
  simp [dropEmptyLast, hl]

/-- The first piece ends at the first separator. -/
theorem pieces_append_cons {sep : α} {a : List α} (h : sep ∉ a) (b : List α) :
    pieces sep (a ++ sep :: b) = a :: pieces sep b := by
  rw [pieces, List.splitOn_append_cons_self_of_not_mem h]
  exact dropEmptyLast_append [a] (splitOn_ne_nil _ _)

/-- The last piece of a string that is not empty and does not end in a separator is not
empty. -/
theorem getLast?_splitOn {sep : α} {l : List α} (hl : l ≠ []) (h : l.getLast? ≠ some sep) :
    (l.splitOn sep).getLast? ≠ some [] := by
  by_cases hm : sep ∈ l
  · obtain ⟨a, b, rfl, ha⟩ := List.eq_append_cons_of_mem hm
    have hb : b ≠ [] := by
      rintro rfl
      simp at h
    rw [List.getLast?_append, List.getLast?_cons_of_ne_nil hb, List.getLast?_eq_some_getLast hb,
      Option.some_or, ← List.getLast?_eq_some_getLast hb] at h
    rw [List.splitOn_append_cons_self_of_not_mem ha, List.getLast?_cons_of_ne_nil (splitOn_ne_nil sep b)]
    exact getLast?_splitOn hb h
  · rw [List.splitOn_eq_singleton hm]
    simpa using hl
termination_by l.length

/-- After a separator, the pieces are those before it, none dropped, and the rest's. -/
theorem pieces_append_sep (sep : α) (p q : List α) :
    pieces sep (p ++ sep :: q) = p.splitOn sep ++ pieces sep q := by
  rw [pieces, List.splitOn_append_cons_self, dropEmptyLast_append _ (splitOn_ne_nil _ _)]
  rfl

/-- **The pieces of a path joined to a path** that is not empty and does not end in a
separator. -/
theorem pieces_append {sep : α} {p : List α} (hp : p ≠ []) (h : p.getLast? ≠ some sep) (q : List α) :
    pieces sep (p ++ sep :: q) = pieces sep p ++ pieces sep q := by
  have hlast := getLast?_splitOn hp h
  rw [pieces_append_sep]
  simp only [pieces, dropEmptyLast, if_neg hlast]

/-- A string that is not empty has a piece. -/
theorem pieces_ne_nil {sep : α} {l : List α} (hl : l ≠ []) : pieces sep l ≠ [] := by
  by_cases hm : sep ∈ l
  · obtain ⟨a, b, rfl, ha⟩ := List.eq_append_cons_of_mem hm
    rw [pieces_append_cons ha]
    exact List.cons_ne_nil _ _
  · rw [pieces_of_not_mem hl hm]
    exact List.cons_ne_nil _ _

/-- What is in a piece is in the string. -/
theorem mem_of_mem_pieces {sep x : α} {l p : List α} (hp : p ∈ pieces sep l) (hx : x ∈ p) : x ∈ l := by
  by_cases hm : sep ∈ l
  · obtain ⟨a, b, rfl, ha⟩ := List.eq_append_cons_of_mem hm
    rw [pieces_append_cons ha, List.mem_cons] at hp
    rcases hp with rfl | hp
    · exact List.mem_append_left _ hx
    · exact List.mem_append_right _ (List.mem_cons_of_mem _ (mem_of_mem_pieces hp hx))
  · by_cases hl : l = []
    · subst hl
      simp at hp
    · rw [pieces_of_not_mem hl hm, List.mem_singleton] at hp
      exact hp ▸ hx
termination_by l.length

end Basedos.Lib
