import Mathlib.Data.List.Cycle

/-!
# Rings of links

A circular list is nodes each of which links to the next, the last to the first. `next a`
is the node that `a` links to, if any, and `walk next k a` the node `k` links on from `a`.
`Ring next l` says that the nodes of `l`, all different, are linked in this order and
round; which of them comes first does not matter (`Ring.rotate`).

## What is proved

* `Ring.walk` — the walk from the first node: its nodes in order, over and over.
* `Ring.orbit` — so as many steps as there are nodes visit each exactly once and come back.
* `Ring.insert` — a node linked in behind another.
-/

namespace Basedos.Lib

universe u

variable {α : Type u} {next next' : α → Option α} {l l' t : List α} {a q : α}

/-- The node `k` links on. -/
def walk (next : α → Option α) : ℕ → α → Option α
  | 0, a => some a
  | k + 1, a => (next a).bind (walk next k)

/-- The nodes of `l` are linked in their order, and the last of them to the first. -/
structure Ring (next : α → Option α) (l : List α) : Prop where
  nodup : l.Nodup
  chain : (l : Cycle α).Chain fun x y => next x = some y

/-- The same ring, from another node on. -/
theorem Ring.rotate (h : Ring next l) (hr : l ~r l') : Ring next l' :=
  ⟨hr.nodup_iff.mp h.nodup, Cycle.coe_eq_coe.mpr hr ▸ h.chain⟩

/-- The ring, from a node of it on. -/
theorem Ring.from_mem (h : Ring next l) (ha : a ∈ l) : ∃ t, l ~r a :: t ∧ Ring next (a :: t) := by
  obtain ⟨s, u, rfl⟩ := List.append_of_mem ha
  have hr : (s ++ a :: u) ~r a :: (u ++ s) := List.isRotated_append
  exact ⟨u ++ s, hr, h.rotate hr⟩

/-- A ring of one node. -/
theorem Ring.single (h : next a = some a) : Ring next [a] :=
  ⟨List.nodup_singleton a, (Cycle.chain_singleton _ a).mpr h⟩

/-- The first node links to the second, or to itself if there is no other. -/
theorem Ring.next_head (h : Ring next (a :: t)) : next a = (t ++ [a]).head? := by
  have hchain := (Cycle.chain_coe_cons _ a t).mp h.chain
  cases t with
  | nil => exact (List.isChain_cons_cons.mp hchain).1
  | cons b t => exact (List.isChain_cons_cons.mp hchain).1

/-- **The walk round a ring**. -/
theorem Ring.walk (h : Ring next (a :: t)) (k : ℕ) :
    walk next k a = (a :: t)[k % (a :: t).length]? := by
  induction k generalizing a t with
  | zero => simp [Lib.walk]
  | succ k ih =>
    have hrotate : t ++ [a] = (a :: t).rotate 1 := by rw [List.rotate_cons_succ, List.rotate_zero]
    have hring : Ring next (t ++ [a]) := h.rotate ⟨1, hrotate.symm⟩
    have hindex : (t ++ [a])[k % (a :: t).length]? = (a :: t)[(k + 1) % (a :: t).length]? := by
      rw [hrotate, List.getElem?_rotate (Nat.mod_lt _ (by simp)), Nat.mod_add_mod]
    rw [Lib.walk, h.next_head, ← hindex]
    cases ht : t ++ [a] with
    | nil => simp at ht
    | cons b u =>
      have hlen : (b :: u).length = (a :: t).length := by rw [← ht]; simp
      rw [ht] at hring
      rw [List.head?_cons, Option.bind_some, ih hring, hlen]

/-- The nodes a walk visits in as many steps as there are nodes. -/
theorem Ring.orbit (h : Ring next (a :: t)) :
    ((List.range (a :: t).length).map fun k => Lib.walk next k a) = (a :: t).map some := by
  refine List.ext_getElem (by simp) fun i hi hi' => ?_
  rw [List.length_map] at hi'
  rw [List.getElem_map, List.getElem_range, h.walk, Nat.mod_eq_of_lt hi', List.getElem_map,
    List.getElem?_eq_getElem hi']

/-- And back at the first. -/
theorem Ring.walk_length (h : Ring next (a :: t)) : Lib.walk next (a :: t).length a = some a := by
  rw [h.walk, Nat.mod_self]
  rfl

/-- The nodes visited by as many steps, the first step's on. -/
theorem Ring.orbit_succ (h : Ring next (a :: t)) :
    ((List.range (a :: t).length).map fun k => Lib.walk next (k + 1) a) = (t ++ [a]).map some := by
  have hring : Ring next (t ++ [a]) := h.rotate ⟨1, by rw [List.rotate_cons_succ, List.rotate_zero]⟩
  have hlen : (t ++ [a]).length = (a :: t).length := by simp
  have hhead := h.next_head
  cases ht : t ++ [a] with
  | nil => simp at ht
  | cons b u =>
    rw [ht] at hring hhead hlen
    rw [← hring.orbit, hlen]
    exact List.map_congr_left fun k _ => by rw [Lib.walk, hhead, List.head?_cons, Option.bind_some]

/-- The nodes walked to are those of the ring. -/
theorem Ring.walk_eq_some (h : Ring next (a :: t)) {b : α} : (∃ k, Lib.walk next k a = some b) ↔ b ∈ a :: t := by
  constructor
  · rintro ⟨k, hk⟩
    rw [h.walk] at hk
    exact List.mem_of_getElem? hk
  · intro hb
    obtain ⟨i, hi, rfl⟩ := List.getElem_of_mem hb
    exact ⟨i, by rw [h.walk, Nat.mod_eq_of_lt hi, List.getElem?_eq_getElem hi]⟩

/-- Links along a list, the last node apart. -/
theorem isChain_congr (h : ∀ x ∈ t, next' x = next x)
    (hc : (t ++ [q]).IsChain fun x y => next x = some y) :
    (t ++ [q]).IsChain fun x y => next' x = some y := by
  induction t with
  | nil => exact List.isChain_singleton q
  | cons a t ih =>
    have ha := h a List.mem_cons_self
    have hrest := fun x hx => h x (List.mem_cons_of_mem a hx)
    cases t with
    | nil =>
      obtain ⟨hlink, -⟩ := List.isChain_cons_cons.mp hc
      exact List.isChain_cons_cons.mpr ⟨ha.trans hlink, List.isChain_singleton q⟩
    | cons b t =>
      obtain ⟨hlink, hc⟩ := List.isChain_cons_cons.mp hc
      exact List.isChain_cons_cons.mpr ⟨ha.trans hlink, ih hrest hc⟩

/-- **A node linked in** behind the node `q`: it links to the one that `q` linked to. -/
theorem Ring.insert (h : Ring next (q :: t)) (ha : a ∉ q :: t) (hq : next' q = some a)
    (hnew : next' a = next q) (hothers : ∀ x ∈ t, next' x = next x) : Ring next' (q :: a :: t) := by
  have hqa : q ≠ a := fun he => ha (he ▸ List.mem_cons_self)
  obtain ⟨hqt, ht⟩ := List.nodup_cons.mp h.nodup
  refine ⟨?nodup, (Cycle.chain_coe_cons _ q (a :: t)).mpr (List.isChain_cons_cons.mpr ⟨hq, ?chain⟩)⟩
  case nodup =>
    refine List.nodup_cons.mpr ⟨?_, List.nodup_cons.mpr ⟨fun hat => ha (List.mem_cons_of_mem q hat), ht⟩⟩
    rw [List.mem_cons]
    exact fun hmem => hmem.elim hqa hqt
  case chain =>
    have hhead := h.next_head
    have hchain := (Cycle.chain_coe_cons _ q t).mp h.chain
    have hrest := isChain_congr hothers hchain.tail
    change List.IsChain _ (a :: (t ++ [q]))
    cases htq : t ++ [q] with
    | nil => simp at htq
    | cons b u =>
      rw [htq] at hhead hrest
      exact List.isChain_cons_cons.mpr ⟨hnew.trans hhead, hrest⟩

end Basedos.Lib
