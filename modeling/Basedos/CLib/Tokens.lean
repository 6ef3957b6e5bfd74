import Basedos.CLib.String
import Basedos.Lib.Buffer
import Basedos.Lib.Words

/-!
# Strings in character arrays, and `strtok`

The functions of `lib/string.c` the shell uses on arrays of its own. `strtok` cuts an array
into tokens: it stores a NUL after each, and remembers in a static variable where to go on.
A pointer into the array is the index it points to.

## What is proved

`strtok_token` and `strtok_end` — from a place on, `strtok` gives the words of what is left one by
one, each ended by a NUL, and changes nothing before that place.
-/

namespace Basedos.CLib

open Basedos.Lib

/-- The string at the start of an array. -/
def CStr.read (b : List UInt8) : Option CStr :=
  if 0 ∈ b then some ⟨b.takeWhile (· ≠ 0), fun h => by simpa using List.mem_takeWhile_imp h⟩ else none

/-- `strcat`. -/
def strcat (b s : List UInt8) : Option (List UInt8) := do
  let d ← stringIn b
  strcpyAt b d.length s

/-- `strncpy`: as many characters as there are, and NULs up to `n`. -/
def strncpy (b s : List UInt8) (n : ℕ) : Option (List UInt8) :=
  if n ≤ b.length then some (s.take n ++ List.replicate (n - s.length) 0 ++ b.drop n) else none

/-- `strspn`: how many of the first characters are all in `accept`. -/
def strspn : List UInt8 → List UInt8 → ℕ
  | [], _ => 0
  | c :: str, accept => if c ∈ accept then strspn str accept + 1 else 0

/-- `strcspn`: how many come before the first that is in `reject`. -/
def strcspn : List UInt8 → List UInt8 → ℕ
  | [], _ => 0
  | c :: str, reject => if c ∈ reject then 0 else strcspn str reject + 1

/-- The array being cut, and the static variable of `strtok`. -/
structure Tokenizer where
  /-- The array. -/
  buffer : List UInt8
  /-- `last`: where to go on. -/
  last : Option ℕ
  deriving DecidableEq

/-- `strtok`, on the array or on `NULL`. -/
def strtok (t : Tokenizer) (str : Option ℕ) (delim : List UInt8) : Option (Option ℕ × Tokenizer) :=
  match str.or t.last with
  | none => some (none, { t with last := none })
  | some last => do
    let s ← stringIn (t.buffer.drop last)
    if s = [] then some (none, { t with last := some last })
    else
      let str := last + strspn s delim
      let s := s.drop (strspn s delim)
      if s = [] then some (none, { t with last := none })
      else
        let stop := str + strcspn s delim
        if strcspn s delim < s.length then
          let buffer ← store t.buffer stop 0
          some (some str, ⟨buffer, some (stop + 1)⟩)
        else some (some str, { t with last := some stop })

/-- `atoi`: blanks, a sign, and digits up to the first character that is none. -/
def atoi (str : List UInt8) : Int32 :=
  let str := str.dropWhile fun c => c = 32 ∨ c = 9 ∨ c = 10
  let digits := fun str : List UInt8 => (str.takeWhile fun c => 48 ≤ c ∧ c ≤ 57).foldl
    (fun result c => result * 10 + Int32.ofNat (c.toNat - 48)) (0 : Int32)
  match str with
  | 45 :: str => -1 * digits str
  | 43 :: str => digits str
  | str => digits str

/-! ### Strings -/

variable {b s : List UInt8}

theorem read_of_holds (h : Holds b s) : CStr.read b = some ⟨s, h.noNul⟩ := by
  have hin := h.stringIn
  unfold stringIn at hin
  split at hin
  · next h0 =>
    cases hin
    rw [CStr.read, if_pos h0]
  · cases hin

/-- A string joined to the one in the array, if there is room. -/
theorem strcat_holds (h : Holds b s) {t : List UInt8} (ht : 0 ∉ t) (hlen : s.length + t.length < b.length) :
    ∃ b', strcat b t = some b' ∧ Holds b' (s ++ t) ∧ b'.length = b.length := by
  obtain ⟨b', hcopy, hholds, hsize⟩ := h.strcat ht hlen
  refine ⟨b', ?_, hholds, hsize⟩
  simp only [strcat, h.stringIn, Option.bind_eq_bind, Option.bind_some, hcopy]

/-- `strncpy` into an array that is long enough. -/
theorem strncpy_inside (s : List UInt8) {n : ℕ} (h : n ≤ b.length) :
    ∃ b', strncpy b s n = some b' ∧ b'.length = b.length := by
  refine ⟨s.take n ++ List.replicate (n - s.length) 0 ++ b.drop n, if_pos h, ?_⟩
  simp only [List.length_append, List.length_take, List.length_replicate, List.length_drop]
  omega

/-! ### Tokens -/

variable {delim l pre rest w r : List UInt8} {t : Tokenizer}

theorem strspn_append (hs : ∀ c ∈ s, c ∈ delim) (hl : ∀ c ∈ l.head?, c ∉ delim) :
    strspn (s ++ l) delim = s.length := by
  induction s with
  | nil =>
    cases l with
    | nil => rfl
    | cons c l => exact if_neg (hl c rfl)
  | cons c s ih =>
    rw [List.cons_append, strspn, if_pos (hs c List.mem_cons_self), ih fun x hx => hs x (List.mem_cons_of_mem c hx)]
    rfl

theorem strcspn_append (hw : ∀ c ∈ w, c ∉ delim) (hr : ∀ c ∈ r.head?, c ∈ delim) :
    strcspn (w ++ r) delim = w.length := by
  induction w with
  | nil =>
    cases r with
    | nil => rfl
    | cons c r => exact if_pos (hr c rfl)
  | cons c w ih =>
    rw [List.cons_append, strcspn, if_neg (hw c List.mem_cons_self), ih fun x hx => hw x (List.mem_cons_of_mem c hx)]
    rfl

/-- What is left to be cut into tokens: `l`, after `pre`. -/
structure Left (t : Tokenizer) (pre l : List UInt8) : Prop where
  buffer : ∃ rest, t.buffer = pre ++ (l ++ 0 :: rest)
  last : t.last = some pre.length
  noNul : 0 ∉ l

theorem Left.terminated (h : Left t pre l) : 0 ∈ t.buffer := by
  obtain ⟨rest, hb⟩ := h.buffer
  rw [hb]
  simp

theorem Left.stringIn (h : Left t pre l) : stringIn (t.buffer.drop pre.length) = some l := by
  obtain ⟨rest, hb⟩ := h.buffer
  rw [hb, List.drop_left]
  exact Holds.stringIn ⟨h.noNul, rest, rfl⟩

/-- Nothing but separators left. -/
theorem strtok_end (h : Left t pre l) (hl : ∀ c ∈ l, c ∈ delim) :
    ∃ last, strtok t none delim = some (none, ⟨t.buffer, last⟩) := by
  have hspan : strspn l delim = l.length := by
    have hspan := strspn_append (l := []) hl (fun c hc => absurd hc (Option.not_mem_none c))
    rwa [List.append_nil] at hspan
  simp only [strtok, h.last, Option.none_or, h.stringIn, Option.bind_eq_bind, Option.bind_some]
  split
  · exact ⟨_, rfl⟩
  · rw [hspan, List.drop_length, if_pos rfl]
    exact ⟨none, rfl⟩

/-- **A token**: the first word left, ended by a NUL; what is left is what comes after it. -/
theorem strtok_token (h : Left t pre l) (hl : l = s ++ (w ++ r)) (hs : ∀ c ∈ s, c ∈ delim) (hne : w ≠ [])
    (hw : ∀ c ∈ w, c ∉ delim) (hr : ∀ c ∈ r.head?, c ∈ delim) :
    ∃ t' pre', strtok t none delim = some (some (pre ++ s).length, t') ∧ Left t' pre' r.tail ∧
      t'.buffer.length = t.buffer.length ∧
      (r ≠ [] ∧ pre' = pre ++ s ++ w ++ [0] ∨ r = [] ∧ pre' = pre ++ s ++ w) := by
  obtain ⟨rest, hb⟩ := h.buffer
  have h0 := h.noNul
  rw [hl] at h0
  have hlne : l ≠ [] := by
    rw [hl]
    simp [hne]
  have hspan : strspn l delim = s.length := by
    rw [hl]
    refine strspn_append hs fun c hc => ?_
    cases w with
    | nil => exact absurd rfl hne
    | cons x w =>
      cases hc
      exact hw c List.mem_cons_self
  have hdrop : l.drop s.length = w ++ r := by rw [hl, List.drop_left]
  have hwr : w ++ r ≠ [] := by simp [hne]
  simp only [strtok, h.last, Option.none_or, h.stringIn, Option.bind_eq_bind, Option.bind_some, if_neg hlne, hspan,
    hdrop, if_neg hwr, strcspn_append hw hr]
  cases r with
  | nil =>
    rw [if_neg (by simp)]
    refine ⟨⟨t.buffer, some (pre.length + s.length + w.length)⟩, pre ++ s ++ w, ?_, ⟨⟨rest, ?_⟩, ?_, List.not_mem_nil⟩,
      rfl, .inr ⟨rfl, rfl⟩⟩
    · rw [List.length_append]
    · simp [hb, hl]
    · simp [Nat.add_assoc]
  | cons c r =>
    have hb' : t.buffer = pre ++ s ++ w ++ c :: (r ++ 0 :: rest) := by simp [hb, hl]
    have hpre : (pre ++ s ++ w).length = pre.length + s.length + w.length := by
      rw [List.length_append, List.length_append]
    have hstore : store t.buffer (pre.length + s.length + w.length : ℕ) 0 =
        some (pre ++ s ++ w ++ 0 :: (r ++ 0 :: rest)) := by
      rw [hb', ← hpre, store_append]
    rw [if_pos (by simp)]
    simp only [hstore, Option.bind_some]
    refine ⟨⟨pre ++ s ++ w ++ 0 :: (r ++ 0 :: rest), some (pre.length + s.length + w.length + 1)⟩,
      pre ++ s ++ w ++ [0], ?_, ⟨⟨rest, ?_⟩, ?_, ?_⟩, ?_, .inl ⟨List.cons_ne_nil c r, rfl⟩⟩
    · rw [List.length_append]
    · simp
    · simp [Nat.add_assoc]
    · simp only [List.mem_append, List.mem_cons, not_or] at h0
      exact h0.2.2.2
    · simp [hb']

end Basedos.CLib
