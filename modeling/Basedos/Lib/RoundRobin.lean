import Basedos.Lib.Ring
import Mathlib.Data.List.Basic
import Mathlib.Logic.Function.Basic

/-!
# Taking turns

Tasks take turns on one processor. What the processor holds for a task, its registers for
example, is the task's context. `turns` are the tasks in the order in which their turns come, and
it is the first one's turn.

## The model

* `Turn.tick k` — the turn ends. The task whose turn it was has left the context `k`, and is last now.
* `Turn.join a k` — a new task `a`, that starts with the context `k`, takes its place behind the task
  `first`.
* `Turn.idle` — nothing changes.

## What is proved

* `Turns.context_step` — **a context of one's own**: a turn that ends changes the context of the
  task whose turn it was, and of no other.
* `Turns.wait_tick`, `Turns.wait_step` — the turns a task has to wait for: one fewer when a turn ends, at
  most one more when a task joins.
* `Ring.insertBehind` — a ring of links, from any of its nodes on, with a node linked in.
-/

namespace Basedos.Lib

universe u v

variable {ι : Type u} {κ : Type v}

/-- Tasks that take turns, and their contexts. -/
structure Turns (ι : Type u) (κ : Type v) where
  /-- The tasks, from the one whose turn it is on. -/
  turns : List ι
  /-- The context of a task. -/
  context : ι → κ

/-- What may happen. -/
inductive Turn (ι : Type u) (κ : Type v) where
  /-- The turn ends, and the task leaves this context. -/
  | tick (context : κ)
  /-- A task joins with this context. -/
  | join (task : ι) (context : κ)
  /-- Nothing changes. -/
  | idle

variable [DecidableEq ι]

/-- A list with `a` behind the first `q`. -/
def insertBehind (q a : ι) : List ι → List ι
  | [] => []
  | x :: l => if x = q then x :: a :: l else x :: insertBehind q a l

/-- One thing that happens. New tasks come behind `first`. -/
def Turns.step (first : ι) (s : Turns ι κ) : Turn ι κ → Turns ι κ
  | .tick k =>
    match s.turns with
    | [] => s
    | c :: t => ⟨t ++ [c], Function.update s.context c k⟩
  | .join a k => ⟨insertBehind first a s.turns, Function.update s.context a k⟩
  | .idle => s

/-! ### Insertion -/

variable {q a p : ι} {l : List ι}

theorem insertBehind_append {A B : List ι} (h : q ∉ A) : insertBehind q a (A ++ q :: B) = A ++ q :: a :: B := by
  induction A with
  | nil => simp only [List.nil_append, insertBehind, if_true]
  | cons x A ih =>
    rw [List.mem_cons, not_or] at h
    simp only [List.cons_append, insertBehind, if_neg (Ne.symm h.1), ih h.2]

/-- The first `q` of a list, and what is before and behind it. -/
theorem exists_insertBehind (h : q ∈ l) (a : ι) :
    ∃ A B, q ∉ A ∧ l = A ++ q :: B ∧ insertBehind q a l = A ++ q :: a :: B := by
  obtain ⟨A, B, rfl, hA⟩ := List.eq_append_cons_of_mem h
  exact ⟨A, B, hA, rfl, insertBehind_append hA⟩

theorem insertBehind_perm (h : q ∈ l) (a : ι) : (insertBehind q a l).Perm (a :: l) := by
  obtain ⟨A, B, -, rfl, heq⟩ := exists_insertBehind h a
  rw [heq]
  have hswap : (q :: a :: B).Perm (a :: q :: B) := List.Perm.swap a q B
  exact (hswap.append_left A).trans List.perm_middle

theorem head_insertBehind (q a : ι) (l : List ι) : (insertBehind q a l).head? = l.head? := by
  cases l with
  | nil => rfl
  | cons x l =>
    unfold insertBehind
    split_ifs <;> rfl

/-- Nothing comes more than one place later. -/
theorem idxOf_insertBehind_le (h : q ∈ l) (hp : p ∈ l) : (insertBehind q a l).idxOf p ≤ l.idxOf p + 1 := by
  obtain ⟨A, B, -, rfl, heq⟩ := exists_insertBehind h a
  rw [heq]
  by_cases hA : p ∈ A
  · rw [List.idxOf_append_of_mem hA, List.idxOf_append_of_mem hA]
    omega
  · rw [List.idxOf_append_of_notMem hA, List.idxOf_append_of_notMem hA]
    by_cases hq : p = q
    · subst hq
      rw [List.idxOf_cons_self, List.idxOf_cons_self]
      omega
    · rw [List.idxOf_cons_ne _ (Ne.symm hq), List.idxOf_cons_ne _ (Ne.symm hq)]
      by_cases ha : p = a
      · subst ha
        rw [List.idxOf_cons_self]
        omega
      · rw [List.idxOf_cons_ne _ (Ne.symm ha)]
        omega

/-- **A ring with a node linked in**, from any node on. -/
theorem Ring.insertBehind {next next' : ι → Option ι} (h : Ring next l) (hq : q ∈ l) (ha : a ∉ l)
    (hnext : next' q = some a) (hnew : next' a = next q) (hothers : ∀ x, x ≠ q → x ≠ a → next' x = next x) :
    Ring next' (insertBehind q a l) := by
  obtain ⟨A, B, -, rfl, heq⟩ := exists_insertBehind hq a
  rw [heq]
  have hring : Ring next (q :: (B ++ A)) := h.rotate List.isRotated_append
  have hmem : a ∉ q :: (B ++ A) := fun hmem => ha (by simpa [or_comm, or_left_comm] using hmem)
  have hring' : Ring next' (q :: a :: (B ++ A)) := by
    refine hring.insert hmem hnext hnew fun x hx => hothers x ?_ ?_
    · rintro rfl
      exact (List.nodup_cons.mp hring.nodup).1 hx
    · rintro rfl
      exact hmem (List.mem_cons_of_mem q hx)
  have hrotate : (q :: a :: B) ++ A ~r A ++ (q :: a :: B) := List.isRotated_append
  exact hring'.rotate hrotate

/-! ### One step -/

variable {first : ι} {s : Turns ι κ} {op : Turn ι κ}

/-- Who takes turns: the same tasks, and one that joins. -/
theorem Turns.turns_perm (h : first ∈ s.turns) :
    (s.step first op).turns.Perm ((match op with | .join a _ => [a] | _ => []) ++ s.turns) := by
  cases op with
  | tick k =>
    simp only [Turns.step]
    cases hs : s.turns with
    | nil => simp only [hs, List.append_nil, List.Perm.refl]
    | cons c t => exact List.perm_append_singleton c t
  | join a k => exact insertBehind_perm h a
  | idle => exact List.Perm.refl _

/-- **A context of one's own**: it changes when one's own turn ends, and at no other time. -/
theorem Turns.context_step (hjoin : ∀ a k, op = .join a k → p ≠ a)
    (htick : ∀ k, op = .tick k → s.turns.head? ≠ some p) : (s.step first op).context p = s.context p := by
  cases op with
  | tick k =>
    have hne := htick k rfl
    simp only [Turns.step]
    cases hs : s.turns with
    | nil => rfl
    | cons c t =>
      rw [hs, List.head?_cons] at hne
      exact Function.update_of_ne (fun he => hne (congrArg some he.symm)) k s.context
  | join a k => exact Function.update_of_ne (hjoin a k rfl) k s.context
  | idle => rfl

/-- It is the task's turn when it waits for no other. -/
theorem Turns.head_of_wait (h : p ∈ s.turns) (hwait : s.turns.idxOf p = 0) : s.turns.head? = some p := by
  cases hs : s.turns with
  | nil =>
    rw [hs] at h
    cases h
  | cons c t =>
    rw [hs] at hwait
    by_cases hc : c = p
    · rw [hc, List.head?_cons]
    · rw [List.idxOf_cons_ne _ hc] at hwait
      cases hwait

/-- **A turn that ends** is one turn fewer to wait for. -/
theorem Turns.wait_tick (h : p ∈ s.turns) (hwait : s.turns.idxOf p ≠ 0) (k : κ) :
    (s.step first (.tick k)).turns.idxOf p + 1 = s.turns.idxOf p := by
  simp only [Turns.step]
  cases hs : s.turns with
  | nil =>
    rw [hs] at h
    cases h
  | cons c t =>
    rw [hs] at h hwait
    have hc : c ≠ p := by
      rintro rfl
      exact hwait List.idxOf_cons_self
    have hp : p ∈ t := (List.mem_cons.mp h).resolve_left (Ne.symm hc)
    rw [List.idxOf_cons_ne _ hc, List.idxOf_append_of_mem hp]

/-- **A task that joins** is one turn more to wait for, at most. -/
theorem Turns.wait_join (h : p ∈ s.turns) (hfirst : first ∈ s.turns) (a : ι) (k : κ) :
    (s.step first (.join a k)).turns.idxOf p ≤ s.turns.idxOf p + 1 :=
  idxOf_insertBehind_le hfirst h

end Basedos.Lib
