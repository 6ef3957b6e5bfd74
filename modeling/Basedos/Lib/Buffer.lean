import Mathlib.Data.List.TakeDrop
import Mathlib.Data.UInt

/-!
# Character arrays that hold a string

A `char` array is the list of its bytes. A store outside it, or a read of a string that
does not end in it, is `none`: a program that never yields `none` stays inside its
arrays. `Holds b s` says that the array `b` holds the string `s`.

A string that fills the first `n` bytes of an array runs on into those behind them (`holds_runsOn`).
-/

namespace Basedos.Lib

/-- `b[i] = v`. -/
def store (b : List UInt8) (i : ℤ) (v : UInt8) : Option (List UInt8) :=
  if 0 ≤ i ∧ i < b.length then some (b.set i.toNat v) else none

/-- The string at the start of the array, up to its first NUL. -/
def stringIn (b : List UInt8) : Option (List UInt8) := if 0 ∈ b then some (b.takeWhile (· ≠ 0)) else none

/-- `strcpy(b + i, s)`: the bytes of the string, and the NUL. -/
def strcpyAt (b : List UInt8) (i : ℤ) (s : List UInt8) : Option (List UInt8) :=
  if 0 ≤ i ∧ i + s.length < b.length then
    some (b.take i.toNat ++ s ++ 0 :: b.drop (i.toNat + s.length + 1))
  else none

/-- The array holds the string: its bytes, none of them NUL, and then a NUL. -/
def Holds (b s : List UInt8) : Prop := 0 ∉ s ∧ ∃ rest, b = s ++ 0 :: rest

variable {b s : List UInt8}

/-- A store behind the first part of an array. -/
theorem store_append (a c : List UInt8) (x v : UInt8) : store (a ++ x :: c) a.length v = some (a ++ v :: c) := by
  rw [store, if_pos, Int.toNat_natCast, List.set_append_right _ _ le_rfl, Nat.sub_self]
  · rfl
  · constructor
    · omega
    · simp only [List.length_append, List.length_cons]
      omega

theorem Holds.noNul (h : Holds b s) : 0 ∉ s := h.1

theorem Holds.length_lt (h : Holds b s) : s.length < b.length := by
  obtain ⟨-, rest, rfl⟩ := h
  simp

/-- The string read from the array. -/
theorem Holds.stringIn (h : Holds b s) : stringIn b = some s := by
  obtain ⟨hs, rest, rfl⟩ := h
  have htake : (s ++ 0 :: rest).takeWhile (fun x => decide (x ≠ 0)) = s := by
    rw [List.takeWhile_append_of_pos fun x hx => by simpa using fun h0 : x = 0 => hs (h0 ▸ hx)]
    simp
  rw [Lib.stringIn, if_pos (by simp), htake]

/-- The byte after the string is the NUL, and none before it is. -/
theorem Holds.getElem? (h : Holds b s) :
    b[s.length]? = some 0 ∧ ∀ i : ℕ, i < s.length → b[i]? ≠ some 0 := by
  obtain ⟨hs, rest, rfl⟩ := h
  refine ⟨by simp, fun i hi h0 => ?_⟩
  rw [List.getElem?_append_left hi] at h0
  exact hs (List.mem_of_getElem? h0)

/-- A NUL stored inside the string, or where its NUL is, cuts it there. -/
theorem Holds.cut (h : Holds b s) {n : ℕ} (hn : n ≤ s.length) :
    ∃ b', store b n 0 = some b' ∧ Holds b' (s.take n) ∧ b'.length = b.length := by
  have hlt := h.length_lt
  obtain ⟨hs, rest, rfl⟩ := h
  refine ⟨_, if_pos ⟨by omega, by omega⟩, ⟨fun h0 => hs (List.mem_of_mem_take h0),
    (s ++ 0 :: rest).drop (n + 1), ?_⟩, by simp⟩
  rw [Int.toNat_natCast, List.set_eq_take_append_cons_drop, if_pos (by omega),
    List.take_append_of_le_length hn]

/-- A character stored over the NUL, and a NUL after it. -/
theorem Holds.push (h : Holds b s) {c : UInt8} (hc : c ≠ 0) (hlen : s.length + 1 < b.length) :
    ∃ b₁ b₂, store b s.length c = some b₁ ∧ store b₁ (s.length + 1) 0 = some b₂ ∧ Holds b₂ (s ++ [c]) ∧
      b₂.length = b.length := by
  obtain ⟨hs, rest, rfl⟩ := h
  cases rest with
  | nil => simp at hlen
  | cons r rest =>
    have hset : (s ++ 0 :: r :: rest).set s.length c = s ++ c :: r :: rest := by simp
    refine ⟨_, _, if_pos ⟨by omega, by simp; omega⟩, if_pos ⟨by omega, by simp⟩, ⟨?_, rest, ?_⟩, by simp⟩
    · simpa [hs] using hc.symm
    · rw [Int.toNat_natCast, hset]
      have : ((s.length : ℤ) + 1).toNat = (s ++ [c]).length := by simp
      rw [this, List.append_cons s c]
      simp

/-- A string copied to the array's start. -/
theorem strcpyAt_zero {t : List UInt8} (ht : 0 ∉ t) (hlen : t.length < b.length) :
    ∃ b', strcpyAt b 0 t = some b' ∧ Holds b' t ∧ b'.length = b.length := by
  refine ⟨_, if_pos ⟨le_rfl, by omega⟩, ⟨ht, b.drop (t.length + 1), by simp⟩, ?_⟩
  simp
  omega

/-- A string copied to a place in the array: what lies before it stays. -/
theorem strcpyAt_inside {i : ℕ} (h0 : 0 ∉ s) (hlen : i + s.length < b.length) :
    ∃ b', strcpyAt b i s = some b' ∧ b'.length = b.length ∧ Holds (b'.drop i) s ∧ b'.take i = b.take i := by
  have htake : (b.take i).length = i := by
    rw [List.length_take]
    omega
  refine ⟨_, if_pos ⟨by omega, by omega⟩, ?_, ⟨h0, b.drop (i + s.length + 1), ?_⟩, ?_⟩
  · simp
    omega
  · rw [Int.toNat_natCast, List.append_assoc]
    exact List.drop_left' htake
  · rw [Int.toNat_natCast, List.append_assoc]
    exact List.take_left' htake

/-- What the first bytes of an array hold of its string, if a NUL is put after them. -/
theorem Holds.take (h : Holds b s) (n : ℕ) : Holds (b.take n ++ [0]) (s.take n) := by
  obtain ⟨hs, rest, rfl⟩ := h
  refine ⟨fun h0 => hs (List.mem_of_mem_take h0), ?_⟩
  rcases Nat.le_total n s.length with hn | hn
  · exact ⟨[], by rw [List.take_append_of_le_length hn]⟩
  · rw [List.take_append, List.take_of_length_le hn]
    cases n - s.length with
    | zero => exact ⟨[], by rw [List.take_zero, List.append_nil]⟩
    | succ k => exact ⟨rest.take k ++ [0], by rw [List.take_succ_cons, List.append_assoc, List.cons_append]⟩

/-- **A string that fills the first bytes** runs on into the one behind them. -/
theorem holds_runsOn {n : ℕ} {t : List UInt8} (hs : Holds (b.take n ++ [0]) s) (ht : Holds (b.drop n) t) :
    Holds b (if s.length < n then s else s ++ t) := by
  have hlen : (b.take n).length = n := by
    have := ht.length_lt
    rw [List.length_drop] at this
    rw [List.length_take]
    omega
  obtain ⟨h0, rest, hb⟩ := hs
  obtain ⟨ht0, rest', hd⟩ := ht
  have hsize : n + 1 = s.length + (rest.length + 1) := by
    have := congrArg List.length hb
    rw [List.length_append, List.length_append, List.length_cons, hlen] at this
    exact this
  split
  · next hshort =>
    obtain ⟨front, x, rfl⟩ := List.eq_nil_or_concat rest |>.resolve_left (by rintro rfl; simp at hsize; omega)
    rw [List.concat_eq_append, ← List.cons_append, ← List.append_assoc] at hb
    refine ⟨h0, front ++ b.drop n, ?_⟩
    rw [← List.cons_append, ← List.append_assoc, ← (List.append_inj' hb rfl).1, List.take_append_drop]
  · next hfull =>
    obtain rfl : rest = [] := List.length_eq_zero_iff.mp (by omega)
    refine ⟨by simp [h0, ht0], rest', ?_⟩
    rw [List.append_assoc, ← hd, ← (List.append_inj' hb rfl).1, List.take_append_drop]

/-- A string copied to where the array's string ends. -/
theorem Holds.strcat (h : Holds b s) {t : List UInt8} (ht : 0 ∉ t) (hlen : s.length + t.length < b.length) :
    ∃ b', strcpyAt b s.length t = some b' ∧ Holds b' (s ++ t) ∧ b'.length = b.length := by
  obtain ⟨hs, rest, rfl⟩ := h
  refine ⟨_, if_pos ⟨by omega, by omega⟩,
    ⟨by simp [hs, ht], (s ++ 0 :: rest).drop (s.length + t.length + 1), ?_⟩, ?_⟩
  · rw [Int.toNat_natCast, List.take_left]
  · simp at hlen ⊢
    omega

/-- The empty string copied there changes nothing. -/
theorem Holds.strcat_nil (h : Holds b s) : strcpyAt b s.length [] = some b := by
  have hlt := h.length_lt
  obtain ⟨-, rest, rfl⟩ := h
  rw [strcpyAt, if_pos ⟨by omega, by simp⟩]
  simp

end Basedos.Lib
