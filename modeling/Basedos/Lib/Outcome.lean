import Mathlib.Order.Basic

/-!
# Programs that may fail, and one failure that they avoid

`Avoids e P r`: the outcome `r` is not the error `e`, and where it is a result the result meets `P`.
Any other error is allowed. The rules follow the program: a result, an error, one part after another
(`Avoids.bind`), a choice (`Avoids.ite`). `Gives P r` allows every error: where the outcome is a result, it
meets `P`; its rules are the same. `Settles P F r` asks `F` of the error as well. `Corresponds R r r'` compares
two programs: both come to a result, and the results are related, or both end in the same error. `ComesBack r`
says only that there is a result.

A loop may be left before it has been round for everything there is (`unlessLeft`); the rules for its rounds are
those for one round.
-/

namespace Basedos.Lib

universe u v w

variable {ε : Type u} {α : Type v} {β : Type v} {e : ε} {P Q : α → Prop} {R : β → Prop}

/-- Not this error, and a result that meets `P`. -/
def Avoids (e : ε) (P : α → Prop) : Except ε α → Prop
  | .ok a => P a
  | .error e' => e' ≠ e

@[simp] theorem avoids_ok {a : α} : Avoids e P (.ok a) ↔ P a := Iff.rfl

@[simp] theorem avoids_error {e' : ε} : Avoids e P (.error e' : Except ε α) ↔ e' ≠ e := Iff.rfl

theorem avoids_iff {r : Except ε α} : Avoids e P r ↔ r ≠ .error e ∧ ∀ a, r = .ok a → P a := by
  cases r with
  | ok a => simp
  | error e' => simp

theorem Avoids.mono {r : Except ε α} (h : Avoids e P r) (hPQ : ∀ a, P a → Q a) : Avoids e Q r := by
  cases r with
  | ok a => exact hPQ a h
  | error e' => exact h

/-- A choice between two outcomes. -/
theorem Avoids.ite {c : Prop} [Decidable c] {r r' : Except ε α} (h : Avoids e P r) (h' : Avoids e P r') :
    Avoids e P (if c then r else r') := by
  by_cases hc : c
  · rw [if_pos hc]
    exact h
  · rw [if_neg hc]
    exact h'

theorem Avoids.map {r : Except ε α} {f : α → β} (h : Avoids e P r) (hf : ∀ a, P a → R (f a)) :
    Avoids e R (r.map f) := by
  cases r with
  | ok a => exact hf a h
  | error e' => exact h

/-- **One part after another.** -/
theorem Avoids.bind {r : Except ε α} {f : α → Except ε β} (h : Avoids e P r) (hf : ∀ a, P a → Avoids e R (f a)) :
    Avoids e R (r >>= f) := by
  cases r with
  | ok a => exact hf a h
  | error e' => exact h

/-! ### Is there a result? -/

/-- There is a result. -/
def ComesBack (r : Except ε α) : Prop := ∃ a, r = .ok a

theorem comesBack_ok (a : α) : ComesBack (.ok a : Except ε α) := ⟨a, rfl⟩

theorem not_comesBack_error (e : ε) : ¬ ComesBack (.error e : Except ε α) := by
  rintro ⟨a, ha⟩
  cases ha

/-- What is done with the result always comes back. -/
theorem comesBack_bind {r : Except ε α} {f : α → Except ε β} (hf : ∀ a, ComesBack (f a)) :
    ComesBack (r >>= f) ↔ ComesBack r := by
  cases r with
  | ok a => exact iff_of_true (hf a) (comesBack_ok a)
  | error e => exact iff_of_false (not_comesBack_error e) (not_comesBack_error e)

theorem comesBack_map {r : Except ε α} {f : α → β} : ComesBack (r.map f) ↔ ComesBack r := by
  cases r with
  | ok a => exact iff_of_true (comesBack_ok (f a)) (comesBack_ok a)
  | error e => exact iff_of_false (not_comesBack_error e) (not_comesBack_error e)

theorem comesBack_ite {c : Prop} [Decidable c] {r r' : Except ε α} :
    ComesBack (if c then r else r') ↔ (c → ComesBack r) ∧ (¬ c → ComesBack r') := by
  by_cases hc : c
  · simp [hc]
  · simp [hc]

/-! ### Any failure -/

/-- A result of one part after another. -/
theorem bind_eq_ok {r : Except ε α} {f : α → Except ε β} {b : β} :
    r >>= f = .ok b ↔ ∃ a, r = .ok a ∧ f a = .ok b := by
  cases r with
  | ok a => exact ⟨fun h => ⟨a, rfl, h⟩, by rintro ⟨a', ⟨⟩, h⟩; exact h⟩
  | error e' => exact ⟨nofun, by rintro ⟨a', ⟨⟩, -⟩⟩

/-- A result seen through a function. -/
theorem map_eq_ok {r : Except ε α} {f : α → β} {b : β} : r.map f = .ok b ↔ ∃ a, r = .ok a ∧ f a = b := by
  cases r with
  | ok a => exact ⟨fun h => ⟨a, rfl, Except.ok.inj h⟩, by rintro ⟨a', ⟨⟩, rfl⟩; rfl⟩
  | error e' => exact ⟨nofun, by rintro ⟨a', ⟨⟩, -⟩⟩

theorem map_eq_bind (r : Except ε α) (f : α → β) : r.map f = r >>= fun a => .ok (f a) := by
  cases r <;> rfl

/-- Where there is a result, it meets `P`. -/
def Gives (P : α → Prop) (r : Except ε α) : Prop := ∀ a, r = .ok a → P a

theorem gives_ok {a : α} (h : P a) : Gives P (.ok a : Except ε α) := by
  rintro a' ⟨⟩
  exact h

theorem gives_error {e' : ε} : Gives P (.error e' : Except ε α) := by
  rintro a' ⟨⟩

theorem Gives.mono {r : Except ε α} (h : Gives P r) (hPQ : ∀ a, P a → Q a) : Gives Q r := fun a ha => hPQ a (h a ha)

theorem Gives.ite {c : Prop} [Decidable c] {r r' : Except ε α} (h : Gives P r) (h' : Gives P r') :
    Gives P (if c then r else r') := by
  by_cases hc : c
  · rw [if_pos hc]
    exact h
  · rw [if_neg hc]
    exact h'

theorem Gives.map {r : Except ε α} {f : α → β} (h : Gives P r) (hf : ∀ a, P a → R (f a)) : Gives R (r.map f) := by
  cases r with
  | ok a => exact gives_ok (hf a (h a rfl))
  | error e' => exact gives_error

/-- **One part after another.** -/
theorem Gives.bind {r : Except ε α} {f : α → Except ε β} (h : Gives P r) (hf : ∀ a, P a → Gives R (f a)) :
    Gives R (r >>= f) := by
  cases r with
  | ok a => exact hf a (h a rfl)
  | error e' => exact gives_error

/-! ### Results and failures -/

/-- A result meets `P`, and an error `F`. -/
def Settles (P : α → Prop) (F : ε → Prop) : Except ε α → Prop
  | .ok a => P a
  | .error e => F e

section

variable {F G : ε → Prop}

theorem Settles.mono {r : Except ε α} (h : Settles P F r) (hPQ : ∀ a, P a → Q a) (hFG : ∀ e, F e → G e) :
    Settles Q G r := by
  cases r with
  | ok a => exact hPQ a h
  | error e => exact hFG e h

theorem Settles.ite {c : Prop} [Decidable c] {r r' : Except ε α} (h : Settles P F r) (h' : Settles P F r') :
    Settles P F (if c then r else r') := by
  by_cases hc : c
  · rw [if_pos hc]
    exact h
  · rw [if_neg hc]
    exact h'

/-- **One part after another.** -/
theorem Settles.bind {r : Except ε α} {f : α → Except ε β} (h : Settles P F r) (hf : ∀ a, P a → Settles R F (f a)) :
    Settles R F (r >>= f) := by
  cases r with
  | ok a => exact hf a h
  | error e => exact h

theorem Settles.map {r : Except ε α} {f : α → β} (h : Settles P F r) (hf : ∀ a, P a → R (f a)) :
    Settles R F (r.map f) := by
  cases r with
  | ok a => exact hf a h
  | error e => exact h

/-- There is a result. -/
theorem Gives.settles {r : Except ε α} (h : Gives P r) (hback : ComesBack r) : Settles P F r := by
  obtain ⟨a, rfl⟩ := hback
  exact h a rfl

/-- What else is known of the results. -/
theorem Settles.and_gives {r : Except ε α} (h : Settles P F r) (hQ : Gives Q r) :
    Settles (fun a => P a ∧ Q a) F r := by
  cases r with
  | ok a => exact ⟨h, hQ a rfl⟩
  | error e => exact h

end

/-! ### A loop that may be left -/

section

variable {σ : Type v} {ι : Type w} {F : ε → Prop} {I : σ → Prop} {round : σ → ι → Except ε (Bool × σ)}

/-- A round of a loop, if the loop has not been left. -/
def unlessLeft (round : σ → ι → Except ε (Bool × σ)) (x : Bool × σ) (i : ι) : Except ε (Bool × σ) :=
  if x.1 then .ok x else round x.2 i

/-- **The invariant of such a loop.** -/
theorem settles_foldlM_unlessLeft (h : ∀ s, I s → ∀ i, Settles (fun x => I x.2) F (round s i)) (is : List ι)
    {x : Bool × σ} (hx : I x.2) : Settles (fun x => I x.2) F (is.foldlM (unlessLeft round) x) := by
  induction is generalizing x with
  | nil => exact hx
  | cons i is ih =>
    rw [List.foldlM_cons]
    refine Settles.bind (P := fun x => I x.2) ?_ fun x' hx' => ih hx'
    unfold unlessLeft
    split
    · exact hx
    · exact h x.2 hx i

end

/-! ### Two programs -/

section

variable {α' : Type w} {β' : Type w} {S : α → α' → Prop} {T : β → β' → Prop}

/-- Related results, or the same error. -/
def Corresponds (S : α → α' → Prop) : Except ε α → Except ε α' → Prop
  | .ok a, .ok a' => S a a'
  | .error e, .error e' => e = e'
  | _, _ => False

@[simp] theorem corresponds_ok {a : α} {a' : α'} : Corresponds S (.ok a : Except ε α) (.ok a') ↔ S a a' := Iff.rfl

theorem corresponds_error {e : ε} : Corresponds S (.error e) (.error e) := rfl

theorem Corresponds.mono {S' : α → α' → Prop} {r : Except ε α} {r' : Except ε α'} (h : Corresponds S r r')
    (hS : ∀ a a', S a a' → S' a a') : Corresponds S' r r' := by
  cases r <;> cases r'
  · exact h
  · exact h.elim
  · exact h.elim
  · exact hS _ _ h

/-- What is known of the results of the other. -/
theorem Corresponds.and_gives {P : α' → Prop} {r : Except ε α} {r' : Except ε α'} (h : Corresponds S r r')
    (hP : Gives P r') : Corresponds (fun a a' => S a a' ∧ P a') r r' := by
  cases r <;> cases r'
  · exact h
  · exact h.elim
  · exact h.elim
  · exact ⟨h, hP _ rfl⟩

/-- Two choices by conditions that are the same. -/
theorem Corresponds.ite {c c' : Prop} [Decidable c] [Decidable c'] {r₁ r₂ : Except ε α} {r₁' r₂' : Except ε α'}
    (hc : c ↔ c') (h₁ : c → Corresponds S r₁ r₁') (h₂ : ¬ c → Corresponds S r₂ r₂') :
    Corresponds S (if c then r₁ else r₂) (if c' then r₁' else r₂') := by
  by_cases h : c
  · rw [if_pos h, if_pos (hc.mp h)]
    exact h₁ h
  · rw [if_neg h, if_neg (mt hc.mpr h)]
    exact h₂ h

theorem Corresponds.map_left {S' : β → α' → Prop} {r : Except ε α} {r' : Except ε α'} {f : α → β}
    (h : Corresponds S r r') (hf : ∀ a a', S a a' → S' (f a) a') : Corresponds S' (r.map f) r' := by
  cases r <;> cases r'
  · exact h
  · exact h.elim
  · exact h.elim
  · exact hf _ _ h

/-- **One part after another.** -/
theorem Corresponds.bind {r : Except ε α} {r' : Except ε α'} {f : α → Except ε β} {f' : α' → Except ε β'}
    (h : Corresponds S r r') (hf : ∀ a a', S a a' → Corresponds T (f a) (f' a')) :
    Corresponds T (r >>= f) (r' >>= f') := by
  cases r <;> cases r'
  · exact h
  · exact h.elim
  · exact h.elim
  · exact hf _ _ h

end

end Basedos.Lib
