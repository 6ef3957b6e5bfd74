import Basedos.Kernel.ShellBuffers

/-!
# The expansion of an alias

A line whose first word is an alias is to be dispatched as the line with the text of the alias in its
place. `execute_command` cuts that text into words instead of the line, in the same array: of the line's
other words nothing is left.

## What is proved

* `sameDispatch_iff` — when two lines are dispatched on the same words.
* `dispatch_long` — a line too long for the arrays is not dispatched.
* `expansion_iff` — **exactly when** an alias keeps the arguments: when there are none.
-/

namespace Basedos.Kernel

open Basedos.Lib Basedos.CLib Basedos.Fs

variable {D : Type} {s : System D} {l : List (List UInt8 × List UInt8)} {line line' : List UInt8}

/-! ### What is asked -/

/-- A word, as it stands in a line. -/
structure Word where
  /-- The characters. -/
  bytes : List UInt8
  nonempty : bytes ≠ []
  noBlank : ∀ c ∈ bytes, c ∉ blanks
  noNul : 0 ∉ bytes

/-- A text, and some words after it. -/
def withWords (text : List UInt8) (ws : List Word) : List UInt8 := text ++ ws.flatMap fun w => 32 :: w.bytes

/-- The two lines are dispatched on the same command and the same arguments. -/
def SameDispatch (s : System D) (line line' : List UInt8) : Prop :=
  ∃ words s₁ s₂, dispatch s line = .ok (some words, s₁) ∧ dispatch s line' = .ok (some words, s₂)

/-! ### The words -/

theorem wordsOf_word (w : Word) : wordsOf w.bytes = [w.bytes] :=
  words_of_word w.nonempty fun c hc => by simpa using w.noBlank c hc

/-- The words of a text with words after it. -/
theorem wordsOf_withWords (text : List UInt8) (ws : List Word) :
    wordsOf (withWords text ws) = wordsOf text ++ ws.map Word.bytes := by
  unfold withWords
  induction ws generalizing text with
  | nil => simp
  | cons w ws ih =>
    have hsplit : text ++ (w :: ws).flatMap (fun w => 32 :: w.bytes) =
        (text ++ 32 :: w.bytes) ++ ws.flatMap fun w => 32 :: w.bytes := by simp
    have hfirst : wordsOf (text ++ 32 :: w.bytes) = wordsOf text ++ wordsOf w.bytes :=
      words_append_cons (by decide) text w.bytes
    rw [hsplit, ih, hfirst, wordsOf_word, List.map_cons, List.append_assoc]
    rfl

theorem withWords_noNul {text : List UInt8} (h0 : 0 ∉ text) (ws : List Word) : 0 ∉ withWords text ws := by
  rw [withWords, List.mem_append, List.mem_flatMap]
  rintro (hmem | ⟨w, -, hmem⟩)
  · exact h0 hmem
  · rcases List.mem_cons.mp hmem with hblank | hmem
    · exact absurd hblank (by decide)
    · exact w.noNul hmem

/-- **What two lines are dispatched on**, where both fit the arrays. -/
theorem sameDispatch_iff (h : ShellArrays s l) (h0 : 0 ∉ line) (hlen : line.length < 128) (h0' : 0 ∉ line')
    (hlen' : line'.length < 128) (hne : resolvedWords l line ≠ []) (hne' : resolvedWords l line' ≠ []) :
    SameDispatch s line line' ↔ resolvedWords l line = resolvedWords l line' := by
  have hblank : ∀ {line}, wordsOf line = [] → resolvedWords l line = [] := by
    intro line hw
    rw [resolvedWords, hw]
    rfl
  have hcases : ∀ {line}, 0 ∉ line → line.length < 128 → resolvedWords l line ≠ [] → ∃ cmd args s',
      resolvedWords l line = cmd.bytes :: args.map CStr.bytes ∧ dispatch s line = .ok (some (cmd, args), s') := by
    intro line h0 hlen hne
    rcases dispatch_cases h h0 hlen with ⟨hw, -⟩ | ⟨-, hnil, -⟩ | ⟨cmd, args, s', -, hws, hd, -⟩
    · exact absurd (hblank hw) hne
    · exact absurd hnil hne
    · exact ⟨cmd, args, s', hws, hd⟩
  obtain ⟨cmd, args, s₁, hws, hd⟩ := hcases h0 hlen hne
  obtain ⟨cmd', args', s₂, hws', hd'⟩ := hcases h0' hlen' hne'
  constructor
  · rintro ⟨words, t₁, t₂, hdispatch, hdispatch'⟩
    rw [hd] at hdispatch
    rw [hd'] at hdispatch'
    cases hdispatch
    cases hdispatch'
    rw [hws, hws']
  · intro hsame
    rw [hws, hws'] at hsame
    obtain ⟨hcmd, hargs⟩ := List.cons.inj hsame
    obtain rfl := CStr.bytes_inj hcmd
    obtain rfl := List.map_injective_iff.mpr (fun _ _ => CStr.bytes_inj) hargs
    exact ⟨(cmd, args), s₁, s₂, hd, hd'⟩

/-- **A line too long** for the history is not dispatched. -/
theorem dispatch_long (h : ShellArrays s l) (h0 : 0 ∉ line) (hlen : 128 ≤ line.length) :
    dispatch s line = .error .overrun := by
  have hempty : line.length ≠ 0 := by omega
  have hstore : storeHistory s.editor line = none := by
    have hcopy : ∀ k, strcpyAt (s.editor.history k) 0 line = none := by
      intro k
      have hsize : (s.editor.history k).length = 128 := (h.history k).size
      refine if_neg ?_
      rintro ⟨-, hlt⟩
      omega
    unfold storeHistory
    cases historyIndex s.editor.historyPos with
    | none => rfl
    | some k => simp only [hcopy, Option.bind_eq_bind, Option.bind_some, Option.bind_none]
  have hadd : Kernel.addToHistory s.editor line = none := by
    unfold Kernel.addToHistory
    rw [if_neg hempty]
    split
    · cases historyIndex (s.editor.historyPos - 1) with
      | none => rfl
      | some k =>
        obtain ⟨last, hlast, hholds⟩ := (h.history k).holds
        have hlast' : stringIn (s.editor.history k) = some last := hlast
        have hshort := hholds.length_lt
        rw [(h.history k).size] at hshort
        have hne : ¬ strcmp last line = 0 := by
          rw [strcmp_eq_zero_iff hholds.noNul h0]
          rintro rfl
          omega
        simp only [hlast', Option.bind_eq_bind, Option.bind_some, if_neg hne, hstore]
    · exact hstore
  rw [dispatch, if_neg hempty, System.addToHistory, hadd]
  rfl

/-! ### The arguments -/

/-- What the line is dispatched on is the text of the alias, and what follows is lost. -/
theorem resolvedWords_alias {name : Word} {command : List UInt8} (hname : l.lookup name.bytes = some command)
    (ws : List Word) : resolvedWords l (withWords name.bytes ws) = (wordsOf command).take 15 := by
  have hwords : (wordsOf (withWords name.bytes ws)).take 15 = name.bytes :: (ws.map Word.bytes).take 14 := by
    rw [wordsOf_withWords, wordsOf_word]
    rfl
  simp only [resolvedWords, hwords, hname]

/-- A line whose first word is no alias. -/
theorem resolvedWords_plain {first : List UInt8} {rest : List (List UInt8)} (hwords : wordsOf line = first :: rest)
    (hfirst : l.lookup first = none) : resolvedWords l line = (wordsOf line).take 15 := by
  simp only [resolvedWords, hwords, List.take_succ_cons, hfirst]

/-- A name in the table fits its array. -/
theorem name_short {aliases : List AliasSlot} (h : Stores aliases l) : ∀ p ∈ l, p.1.length < 32 := by
  intro p hp
  obtain ⟨slot, hslot⟩ := exists_slot h hp
  have hlt := hslot.alias_.length_lt
  rwa [hslot.aliasSize] at hlt

/-- **When an alias keeps the arguments**: with any aliases, when there are no arguments to keep. -/
theorem expansion_iff (h : ShellArrays s l) (name : Word) (command : List UInt8)
    (hname : l.lookup name.bytes = some command) (first : List UInt8) (rest : List (List UInt8))
    (hcommand : wordsOf command = first :: rest) (hfirst : l.lookup first = none) (ws : List Word)
    (hfew : (wordsOf command).length + ws.length ≤ 15) (hfits : (withWords command ws).length ≤ 126) :
    SameDispatch s (withWords name.bytes ws) (withWords command ws) ↔ ws = [] := by
  obtain ⟨hc0, -⟩ := lookup_short h.aliases hname
  have halias := resolvedWords_alias hname ws
  have hplain : resolvedWords l (withWords command ws) = wordsOf command ++ ws.map Word.bytes := by
    have hwords : wordsOf (withWords command ws) = first :: (rest ++ ws.map Word.bytes) := by
      rw [wordsOf_withWords, hcommand]
      rfl
    rw [resolvedWords_plain hwords hfirst, wordsOf_withWords, List.take_of_length_le]
    rw [List.length_append, List.length_map]
    exact hfew
  rw [List.take_of_length_le (by omega)] at halias
  have hne : wordsOf command ≠ [] := by
    rw [hcommand]
    exact List.cons_ne_nil _ _
  by_cases hlong : 128 ≤ (withWords name.bytes ws).length
  · -- The line of the alias does not fit; an alias alone does.
    refine iff_of_false ?_ ?_
    · rintro ⟨words, s₁, s₂, hd, -⟩
      rw [dispatch_long h (withWords_noNul name.noNul ws) hlong] at hd
      cases hd
    · rintro rfl
      have hshort : name.bytes.length < 32 := name_short h.aliases _ (mem_of_lookup hname)
      have hname : withWords name.bytes [] = name.bytes := List.append_nil _
      rw [hname] at hlong
      omega
  · rw [sameDispatch_iff h (withWords_noNul name.noNul ws) (by omega) (withWords_noNul hc0 ws) (by omega)
      (by rw [halias]; exact hne) (by rw [hplain]; exact List.append_ne_nil_of_left_ne_nil hne _), halias, hplain]
    simp

/-- A word of one letter. -/
def letterWord (c : UInt8) (hblank : c ∉ blanks) (hnul : c ≠ 0) : Word where
  bytes := [c]
  nonempty := List.cons_ne_nil c []
  noBlank d hd := by
    rw [List.mem_singleton.mp hd]
    exact hblank
  noNul := by simpa using hnul.symm

/-- `a`. -/
def wordA : Word := letterWord 97 (by decide) (by decide)

/-- `b`. -/
def wordB : Word := letterWord 98 (by decide) (by decide)

/-- `a` is an alias for `ls -l`. -/
def smallSlot : AliasSlot where
  alias_ := 97 :: List.replicate 31 0
  command := ascii ['l', 's', ' ', '-', 'l'] ++ List.replicate 123 0

/-- The shell with this alias. -/
def aliasSystem : System Memfs := { smallSystem with aliases := [smallSlot] }

/-- What is in its table. -/
def smallAliases : List (List UInt8 × List UInt8) := [([97], ascii ['l', 's', ' ', '-', 'l'])]

theorem aliasSystem_arrays : ShellArrays aliasSystem smallAliases where
  history := smallSystem_inv.history
  nonneg := smallSystem_inv.nonneg
  le := smallSystem_inv.le
  aliases := .cons ⟨rfl, rfl, ⟨by decide, _, rfl⟩, ⟨by decide, _, rfl⟩⟩ .nil
  parse := smallSystem_inv.parse
  currentDirectory := smallSystem_inv.currentDirectory

/-- The words of its text. -/
theorem wordsOf_lsL : wordsOf (ascii ['l', 's', ' ', '-', 'l']) = [ascii ['l', 's'], ascii ['-', 'l']] := by
  decide +kernel

/-- `a` alone is dispatched as `ls -l`. -/
theorem expansion_small : SameDispatch aliasSystem (withWords wordA.bytes [])
    (withWords (ascii ['l', 's', ' ', '-', 'l']) []) := by
  apply (expansion_iff aliasSystem_arrays wordA _ rfl _ _ wordsOf_lsL rfl [] ?_ ?_).mpr rfl
  · rw [wordsOf_lsL]
    exact Nat.le_of_ble_eq_true rfl
  · exact Nat.le_of_ble_eq_true rfl

/-- `a b` is dispatched as `ls -l`, and `ls -l b` is not. -/
theorem not_forall_sameDispatch :
    ¬ ∀ (s : System Memfs) (l : List (List UInt8 × List UInt8)), ShellArrays s l →
      ∀ (name : Word) (command first : List UInt8) (rest : List (List UInt8)) (ws : List Word),
        l.lookup name.bytes = some command → wordsOf command = first :: rest → l.lookup first = none →
        (wordsOf command).length + ws.length ≤ 15 → (withWords command ws).length ≤ 126 →
        SameDispatch s (withWords name.bytes ws) (withWords command ws) := by
  intro h
  have hsame := h aliasSystem smallAliases aliasSystem_arrays wordA _ _ _ [wordB] rfl wordsOf_lsL rfl
    (by rw [wordsOf_lsL]; exact Nat.le_of_ble_eq_true rfl) (Nat.le_of_ble_eq_true rfl)
  have halias : resolvedWords smallAliases (withWords wordA.bytes [wordB]) = [ascii ['l', 's'], ascii ['-', 'l']] := by
    rw [resolvedWords_alias rfl, wordsOf_lsL]
    rfl
  have hwords : wordsOf (withWords (ascii ['l', 's', ' ', '-', 'l']) [wordB]) =
      [ascii ['l', 's'], ascii ['-', 'l'], wordB.bytes] := by
    rw [wordsOf_withWords, wordsOf_lsL]
    rfl
  have hplain : resolvedWords smallAliases (withWords (ascii ['l', 's', ' ', '-', 'l']) [wordB]) =
      [ascii ['l', 's'], ascii ['-', 'l'], wordB.bytes] := by
    rw [resolvedWords_plain hwords rfl, hwords]
    rfl
  have hnul : 0 ∉ ascii ['l', 's', ' ', '-', 'l'] := by decide
  rw [sameDispatch_iff aliasSystem_arrays (withWords_noNul wordA.noNul _) (Nat.le_of_ble_eq_true rfl)
    (withWords_noNul hnul _) (Nat.le_of_ble_eq_true rfl) (by rw [halias]; exact List.cons_ne_nil _ _)
    (by rw [hplain]; exact List.cons_ne_nil _ _), halias, hplain] at hsame
  exact absurd (congrArg List.length hsame) (Nat.ne_of_beq_eq_false rfl)

end Basedos.Kernel
