import Mathlib.Data.Finset.Card
import Mathlib.Data.List.Forall2
import Mathlib.Data.List.Nodup

/-!
# Association lists

A finite map as a list of pairs, looked up from the front with `List.lookup`. `assign l a b`
gives `a` the value `b`: in the place `a` has, or in a new one at the end. So the order of
the keys never changes, and no key comes twice when none did (`nodup_keys_assign`).

Two lists with the same lookups have the same keys (`mem_keys_congr`); a list whose keys are
all different has as many as it has pairs (`card_keys`). Where the pairs are kept one by one in
another form, each is to be found there (`exists_mem_of_forall₂`).
-/

namespace Basedos.Lib

universe u v

variable {α : Type u} {β : Type v} [DecidableEq α] [BEq α] [LawfulBEq α] {l l' : List (α × β)} {a x : α} {b : β}

/-- The keys, in order. -/
def keys (l : List (α × β)) : List α := l.map Prod.fst

/-- The value of `a` set to `b`. -/
def assign : List (α × β) → α → β → List (α × β)
  | [], a, b => [(a, b)]
  | p :: l, a, b => if p.1 = a then (a, b) :: l else p :: assign l a b

theorem lookup_cons_pair (p : α × β) : (p :: l).lookup x = if x = p.1 then some p.2 else l.lookup x := by
  rw [List.lookup_cons]
  by_cases h : x = p.1
  · simp only [h, beq_self_eq_true, if_true]
  · simp only [beq_false_of_ne h, if_neg h]

/-- What is looked up is in the list. -/
theorem mem_of_lookup (h : l.lookup a = some b) : (a, b) ∈ l := by
  induction l with
  | nil => cases h
  | cons p l ih =>
    rw [lookup_cons_pair] at h
    split at h
    · next ha =>
      cases h
      rw [ha]
      exact List.mem_cons_self
    · exact List.mem_cons_of_mem p (ih h)

/-- Of two lists related element by element: what an element of the first is related to. -/
theorem exists_mem_of_forall₂ {γ : Type*} {δ : Type*} {R : γ → δ → Prop} {cs : List γ} {ds : List δ}
    (h : List.Forall₂ R cs ds) {c : γ} (hc : c ∈ cs) : ∃ d ∈ ds, R c d := by
  induction h with
  | nil => cases hc
  | cons hR hrest ih =>
    rcases List.mem_cons.mp hc with rfl | hc
    · exact ⟨_, List.mem_cons_self, hR⟩
    · obtain ⟨d, hd, hR'⟩ := ih hc
      exact ⟨d, List.mem_cons_of_mem _ hd, hR'⟩

/-- **What `assign` does to the map**: one key gets the value, the others keep theirs. -/
theorem lookup_assign (l : List (α × β)) (a x : α) (b : β) :
    (assign l a b).lookup x = if x = a then some b else l.lookup x := by
  induction l with
  | nil => rw [assign, lookup_cons_pair]
  | cons p l ih =>
    unfold assign
    split
    · next hp =>
      rw [lookup_cons_pair, lookup_cons_pair, hp]
      split <;> rfl
    · next hp =>
      rw [lookup_cons_pair, lookup_cons_pair, ih]
      by_cases hx : x = p.1
      · rw [if_pos hx, if_pos hx, if_neg (hx ▸ hp)]
      · rw [if_neg hx, if_neg hx]

/-- What it does to the keys. -/
theorem keys_assign (l : List (α × β)) (a : α) (b : β) :
    keys (assign l a b) = if a ∈ keys l then keys l else keys l ++ [a] := by
  induction l with
  | nil => rfl
  | cons p l ih =>
    unfold assign
    by_cases hp : p.1 = a
    · subst hp
      rw [if_pos rfl, if_pos (show p.1 ∈ keys (p :: l) from List.mem_cons_self)]
      rfl
    · have hmem : a ∈ keys (p :: l) ↔ a ∈ keys l := by simp [keys, Ne.symm hp]
      have hkeys : keys (p :: assign l a b) = p.1 :: keys (assign l a b) := rfl
      rw [if_neg hp, hkeys, ih]
      by_cases ha : a ∈ keys l
      · rw [if_pos ha, if_pos (hmem.mpr ha)]
        rfl
      · rw [if_neg ha, if_neg (mt hmem.mp ha)]
        rfl

omit [BEq α] [LawfulBEq α] in
/-- What is in it after. -/
theorem mem_assign {p : α × β} (h : p ∈ assign l a b) : p = (a, b) ∨ p ∈ l := by
  induction l with
  | nil => exact .inl (List.mem_singleton.mp h)
  | cons q l ih =>
    unfold assign at h
    split at h <;> rcases List.mem_cons.mp h with rfl | h
    · exact .inl rfl
    · exact .inr (List.mem_cons_of_mem q h)
    · exact .inr List.mem_cons_self
    · exact (ih h).imp_right (List.mem_cons_of_mem q)

theorem nodup_keys_assign (h : (keys l).Nodup) (a : α) (b : β) : (keys (assign l a b)).Nodup := by
  rw [keys_assign]
  split
  · exact h
  · next ha =>
    refine List.nodup_append.mpr ⟨h, List.nodup_singleton a, ?_⟩
    rintro x hx y hy rfl
    exact ha (List.mem_singleton.mp hy ▸ hx)

/-- How many pairs there are after. -/
theorem length_assign (l : List (α × β)) (a : α) (b : β) :
    (assign l a b).length = if a ∈ keys l then l.length else l.length + 1 := by
  have hlen : ∀ l : List (α × β), (keys l).length = l.length := fun l => List.length_map ..
  rw [← hlen, keys_assign]
  split
  · exact hlen l
  · rw [List.length_append, hlen]
    rfl

theorem mem_keys_iff {α : Type u} {β : Type v} [BEq α] [LawfulBEq α] {l : List (α × β)} {a : α} :
    a ∈ keys l ↔ (l.lookup a).isSome := by
  rw [List.lookup_isSome_iff, keys, List.mem_map]
  constructor
  · rintro ⟨p, hp, rfl⟩
    exact ⟨p, hp, beq_self_eq_true p.1⟩
  · rintro ⟨p, hp, hpa⟩
    exact ⟨p, hp, (eq_of_beq hpa).symm⟩

theorem mem_keys_congr {α : Type u} {β : Type v} [BEq α] [LawfulBEq α] {l l' : List (α × β)} {a : α}
    (h : ∀ x, l.lookup x = l'.lookup x) : a ∈ keys l ↔ a ∈ keys l' := by
  rw [mem_keys_iff, mem_keys_iff, h]

/-- How many keys there are. -/
theorem card_keys (h : (keys l).Nodup) (hl : ∀ x, l.lookup x = l'.lookup x) :
    (keys l').toFinset.card = l.length := by
  have hset : (keys l').toFinset = (keys l).toFinset := by
    ext a
    rw [List.mem_toFinset, List.mem_toFinset, mem_keys_congr hl]
  rw [hset, List.toFinset_card_of_nodup h, keys, List.length_map]

end Basedos.Lib
