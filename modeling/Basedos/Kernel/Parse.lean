import Basedos.CLib.Tokens
import Basedos.Kernel.LineEditor

/-!
# Splitting a line into words

`parse_command` of `kernel/shell.c`: the line is copied to a static array, and `strtok` cuts it there
into at most fifteen arguments, separated by blanks and tabs. An argument is a pointer into the array,
and is read when the array has been cut as far as it will be.

## What is proved

`parseCommand_words` — **the arguments** are the first fifteen words of the line, and the array is not
overrun by a line that fits in it.
-/

namespace Basedos.Kernel

open Basedos.Lib Basedos.CLib

/-- `MAX_ARGS`. -/
def MAX_ARGS : ℕ := 16

/-- `" \t"`. -/
def blanks : List UInt8 := [32, 9]

/-- The loop of `parse_command`, with a number of arguments there is still room for. -/
def parseLoop : ℕ → Tokenizer → Option ℕ → Option (List ℕ × Tokenizer)
  | _, t, none => some ([], t)
  | 0, t, some _ => some ([], t)
  | n + 1, t, some token => do
    let (next, t) ← strtok t none blanks
    let (args, t) ← parseLoop n t next
    some (token :: args, t)

/-- `parse_command`: the arguments, as indices in the array, before the `NULL`. -/
def parseCommand (t : Tokenizer) (input : List UInt8) : Option (List ℕ × Tokenizer) := do
  let buffer ← strcpyAt t.buffer 0 input
  let (token, t) ← strtok { t with buffer } (some 0) blanks
  parseLoop (MAX_ARGS - 1) t token

/-- The words of a line. -/
def wordsOf (line : List UInt8) : List (List UInt8) := words (· ∈ blanks) line

theorem mem_wordsOf {line w : List UInt8} (h : w ∈ wordsOf line) : w ≠ [] ∧ ∀ x ∈ w, x ∈ line :=
  ⟨(mem_words h).1, (mem_words h).2.2⟩

/-- The strings at some indices of an array. -/
def readArgs (b : List UInt8) (args : List ℕ) : Option (List CStr) := args.mapM fun i => CStr.read (b.drop i)

variable {t : Tokenizer} {pre l : List UInt8}

theorem parseLoop_none (n : ℕ) (t : Tokenizer) : parseLoop n t none = some ([], t) := by cases n <;> rfl

/-- The word after some separators, read where it was cut off. -/
theorem read_token {w : List UInt8} (hw : 0 ∉ w) (pre s tail : List UInt8) :
    CStr.read ((pre ++ s ++ w ++ 0 :: tail).drop (pre ++ s).length) = some ⟨w, hw⟩ := by
  rw [List.append_assoc, List.drop_left]
  exact read_of_holds ⟨hw, tail, rfl⟩

/-- **One call of `strtok`** on what is left: no word, or the first one, and then what comes after it is left. -/
theorem strtok_left (h : Left t pre l) :
    (∃ last, strtok t none blanks = some (none, ⟨t.buffer, last⟩) ∧ wordsOf l = []) ∨
    ∃ s w r t' pre', l ≠ [] ∧ 0 ∉ w ∧ strtok t none blanks = some (some (pre ++ s).length, t') ∧ Left t' pre' r ∧
      t'.buffer.length = t.buffer.length ∧ (pre' = pre ++ s ++ w ++ [0] ∨ r = [] ∧ pre' = pre ++ s ++ w) ∧
      wordsOf l = w :: wordsOf r := by
  rcases words_front (· ∈ blanks) l with ⟨hl, hwords⟩ | ⟨s, w, r, hl, hs, hne, hw, hr, hwords⟩
  · obtain ⟨last, htok⟩ := strtok_end h fun c hc => by simpa using hl c hc
    exact .inl ⟨last, htok, hwords⟩
  · obtain ⟨t', pre', htok, hleft, hlen, hpre⟩ := strtok_token h hl (by simpa using hs) hne (by simpa using hw)
      (by simpa using hr)
    have h0 := h.noNul
    rw [hl] at h0
    have hw0 : 0 ∉ w := fun hw => h0 (List.mem_append_right s (List.mem_append_left r hw))
    refine .inr ⟨s, w, r.tail, t', pre', ?_, hw0, htok, hleft, hlen, ?_, hwords⟩
    · rw [hl]
      simp [hne]
    · rcases hpre with ⟨-, hpre⟩ | ⟨rfl, hpre⟩
      · exact .inl hpre
      · exact .inr ⟨rfl, hpre⟩

/-- What `strtok` and the loop do from a place in the array on: the arguments are the words of what is left, and
nothing before that place is changed. -/
structure LoopDone (t : Tokenizer) (pre l : List UInt8) (n : ℕ) (args : List ℕ) (t' : Tokenizer) (ws : List CStr) :
    Prop where
  result : (strtok t none blanks).bind (fun r => parseLoop n r.2 r.1) = some (args, t')
  kept : ∃ tail, t'.buffer = pre ++ tail
  size : t'.buffer.length = t.buffer.length
  terminated : 0 ∈ t'.buffer
  untouched : l = [] → t'.buffer = t.buffer
  read : readArgs t'.buffer args = some ws
  words : ws.map CStr.bytes = (wordsOf l).take n

/-- No word is left. -/
theorem LoopDone.of_end (h : Left t pre l) {last : Option ℕ}
    (htok : strtok t none blanks = some (none, ⟨t.buffer, last⟩)) (hwords : wordsOf l = []) (n : ℕ) :
    LoopDone t pre l n [] ⟨t.buffer, last⟩ [] := by
  obtain ⟨rest, hb⟩ := h.buffer
  refine ⟨?_, ⟨_, hb⟩, rfl, h.terminated, fun _ => rfl, rfl, ?_⟩
  · rw [htok, Option.bind_some, parseLoop_none]
  · rw [hwords, List.take_nil]
    rfl

/-- The loop cuts the array at the words of what is left. -/
theorem parseLoop_left (n : ℕ) (h : Left t pre l) : ∃ args t' ws, LoopDone t pre l n args t' ws := by
  induction n generalizing t pre l with
  | zero =>
    rcases strtok_left h with ⟨last, htok, hwords⟩ | ⟨s, w, r, t', pre', hne, -, htok, hleft, hlen, hpre, -⟩
    · exact ⟨_, _, _, .of_end h htok hwords 0⟩
    · obtain ⟨rest, hb⟩ := hleft.buffer
      refine ⟨[], t', [], ?_, ?_, hlen, hleft.terminated, fun h0 => absurd h0 hne, rfl, rfl⟩
      · rw [htok]
        rfl
      · rcases hpre with rfl | ⟨-, rfl⟩ <;> rw [hb] <;> simp only [List.append_assoc] <;> exact ⟨_, rfl⟩
  | succ n ih =>
    rcases strtok_left h with ⟨last, htok, hwords⟩ | ⟨s, w, r, t₁, pre₁, hne, hw, htok, hleft, hlen, hpre, hwords⟩
    · exact ⟨_, _, _, .of_end h htok hwords (n + 1)⟩
    · obtain ⟨args, t', ws, hdone⟩ := ih hleft
      obtain ⟨tail, htail⟩ := hdone.kept
      -- The word is still there when the rest has been cut: what comes after it is where its NUL is.
      have hcut : ∃ tail', t'.buffer = pre ++ s ++ w ++ 0 :: tail' := by
        rcases hpre with rfl | ⟨rfl, rfl⟩
        · exact ⟨tail, by rw [htail]; simp⟩
        · obtain ⟨rest₁, hb₁⟩ := hleft.buffer
          exact ⟨rest₁, by rw [hdone.untouched rfl, hb₁]; rfl⟩
      obtain ⟨tail', htail'⟩ := hcut
      have hfirst := read_token hw pre s tail'
      rw [← htail'] at hfirst
      refine ⟨(pre ++ s).length :: args, t', ⟨w, hw⟩ :: ws, ?_, ?_, hdone.size.trans hlen, hdone.terminated,
        fun h0 => absurd h0 hne, ?_, ?_⟩
      · have hargs := hdone.result
        rw [htok, Option.bind_some]
        show (strtok t₁ none blanks).bind _ = _
        cases hnext : strtok t₁ none blanks with
        | none =>
          rw [hnext] at hargs
          cases hargs
        | some next =>
          rw [hnext, Option.bind_some] at hargs
          simp only [Option.bind_some, hargs, Option.bind_eq_bind]
      · rw [htail', List.append_assoc, List.append_assoc]
        exact ⟨_, rfl⟩
      · have hread := hdone.read
        unfold readArgs at hread ⊢
        rw [List.mapM_cons, hfirst, hread]
        rfl
      · rw [hwords, List.take_succ_cons, ← hdone.words]
        rfl

/-- The line copied to the array, and what the loop does there. -/
theorem parseCommand_done {line : List UInt8} (h0 : 0 ∉ line) (hlen : line.length < t.buffer.length) :
    ∃ buffer args t' ws, buffer.length = t.buffer.length ∧ Left ⟨buffer, some 0⟩ [] line ∧
      parseCommand t line = some (args, t') ∧ LoopDone ⟨buffer, some 0⟩ [] line 15 args t' ws := by
  obtain ⟨buffer, hcopy, hholds, hsize⟩ := strcpyAt_zero h0 hlen
  obtain ⟨rest, hrest⟩ := hholds.2
  have hleft : Left ⟨buffer, some 0⟩ [] line := ⟨⟨rest, hrest⟩, rfl, h0⟩
  obtain ⟨args, t', ws, hdone⟩ := parseLoop_left 15 hleft
  refine ⟨buffer, args, t', ws, hsize, hleft, ?_, hdone⟩
  have hfirst : strtok { t with buffer } (some 0) blanks = strtok ⟨buffer, some 0⟩ none blanks := rfl
  rw [parseCommand, hcopy, Option.bind_eq_bind, Option.bind_some, hfirst]
  exact hdone.result

/-- **The arguments**: the first fifteen words of the line. The array is not overrun by a line that fits in
it, and ends in a NUL. -/
theorem parseCommand_words {line : List UInt8} (h0 : 0 ∉ line) (hlen : line.length < t.buffer.length) :
    ∃ args t' ws, parseCommand t line = some (args, t') ∧ t'.buffer.length = t.buffer.length ∧ 0 ∈ t'.buffer ∧
      readArgs t'.buffer args = some ws ∧ ws.map CStr.bytes = (wordsOf line).take 15 := by
  obtain ⟨buffer, args, t', ws, hsize, -, hparse, hdone⟩ := parseCommand_done h0 hlen
  exact ⟨args, t', ws, hparse, hdone.size.trans hsize, hdone.terminated, hdone.read, hdone.words⟩

end Basedos.Kernel
