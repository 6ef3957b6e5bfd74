import Basedos.Kernel.ShellArrays

/-!
# Running lines

Lines of at most 126 characters are executed one after the other, from the state in which
`start_shell` begins its loop. The copies of the shell have no bounds; each string copied comes from
the line, cut into words, or from the table of aliases.

## What is proved

* `executeCommand_arrays` — **one line**: no array is overrun, and each has a NUL in it after, unless
  the line gives a name of 32 or more characters to a new alias.
* `shellBuffers_iff` — **exactly when** no array is overrun in a run of lines: when no line does that.
-/

namespace Basedos.Kernel

open Basedos.Lib Basedos.CLib Basedos.Fs

variable {D : Type} {K : DirDrivers D} {s s' : System D} {l : List (List UInt8 × List UInt8)} {line : List UInt8}

/-! ### The invariant -/

/-- The arrays, and commands of at most two words for the aliases: too few for the command `alias`. -/
structure ShellInv (s : System D) (l : List (List UInt8 × List UInt8)) : Prop extends ShellArrays s l where
  few : ∀ p ∈ l, (wordsOf p.2).length ≤ 2

theorem ShellInv.same (h : ShellInv s l) (hs : SameArrays s s') : ShellInv s' l := ⟨h.toShellArrays.same hs, h.few⟩

/-- **`add_alias`**, with a name that fits or a table that is full. -/
theorem addAlias_inv (h : ShellInv s l) {name command : List UInt8} (hn : 0 ∉ name) (hc : 0 ∉ command)
    (hlen : name.length < 32 ∨ 20 ≤ l.length) (hclen : command.length < 128) (hfew : (wordsOf command).length ≤ 2) :
    ∃ s' l', s.addAlias name command = some s' ∧ ShellInv s' l' ∧ l'.length ≤ l.length + 1 := by
  have hput : ∀ reply aliases l', Kernel.addAlias s.aliases name command = some (reply, aliases) →
      Stores aliases l' → (∀ p ∈ l', (wordsOf p.2).length ≤ 2) → l'.length ≤ l.length + 1 →
      ∃ s' l', s.addAlias name command = some s' ∧ ShellInv s' l' ∧ l'.length ≤ l.length + 1 := by
    intro reply aliases l' hadd hstores hfew' hlen'
    refine ⟨_, l', by rw [System.addAlias, hadd]; rfl, ?_, hlen'⟩
    exact ⟨⟨h.history, h.nonneg, h.le, hstores, h.parse, h.currentDirectory⟩, hfew'⟩
  by_cases hfull : 20 ≤ l.length
  · exact hput _ _ l (addAlias_full h.aliases hfull) h.aliases h.few (Nat.le_succ _)
  · obtain ⟨aliases, hadd, hstores⟩ := addAlias_stores h.aliases (Nat.not_le.mp hfull) hn hc hclen
      (.inr (hlen.resolve_right hfull))
    refine hput _ _ _ hadd hstores (fun p hp => ?_) ?_
    · rcases mem_assign hp with rfl | hp
      · exact hfew
      · exact h.few p hp
    · rw [length_assign]
      split <;> omega

section OneLine

variable {cmd : CStr} {args : List CStr}

/-- The branches keep the invariant, if a new alias has a name that fits. -/
theorem runCommand_inv (h : ShellInv s l) (hw : Words128 cmd args)
    (hfit : commandOf cmd.bytes = .alias_ → ∀ name command, args = [name, command] →
      name.bytes.length < 32 ∨ 20 ≤ l.length) :
    Avoids Stop.overrun (fun r => ∃ l', ShellInv r.2 l') (s.runCommand K cmd args) := by
  by_cases halias : commandOf cmd.bytes = .alias_
  · simp only [System.runCommand, halias]
    unfold System.alias_
    split
    · obtain ⟨s', hlist, hs'⟩ := listAliases_same h.toShellArrays
      rw [hlist]
      exact ⟨l, h.same hs'⟩
    · next name command =>
      obtain ⟨s', l', hadd, hs', -⟩ := addAlias_inv h name.noNul command.noNul (hfit halias name command rfl)
        (hw.short (by simp)) (by rw [hw.word command (by simp)]; exact Nat.le_succ 1)
      rw [hadd]
      exact ⟨l', hs'⟩
    · exact ⟨l, h.same ((SameArrays.refl s).act _)⟩
  · by_cases hcd : commandOf cmd.bytes = .cd
    · simp only [System.runCommand, hcd]
      refine (cd_arrays h.toShellArrays).bind fun s' hs' => ?_
      exact ⟨l, hs', h.few⟩
    · refine (runCommand_leaves h.toShellArrays hw.joined_lt halias hcd).mono fun r hr => ?_
      exact ⟨l, h.same hr⟩

/-- `"alias"`. -/
def aliasWord : List UInt8 := ascii ['a', 'l', 'i', 'a', 's']

theorem commandOf_alias {word : List UInt8} (h0 : 0 ∉ word) : commandOf word = .alias_ ↔ word = aliasWord :=
  commandOf_eq_iff (by decide) h0

/-- No name of 32 or more characters is given to a new alias: such a line is `alias`, the name and a word. -/
def AliasNameFits (s : System D) (line : List UInt8) : Prop :=
  ∀ name command, wordsOf line = [aliasWord, name, command] → findAlias aliasWord s.aliases = some none →
    s.aliases.length < 20 → name.length < 32

/-- The command of an alias has too few words to be one that adds an alias. -/
theorem resolvedWords_three (h : ShellInv s l) {a b c : List UInt8} (hws : resolvedWords l line = [a, b, c]) :
    wordsOf line = [a, b, c] ∧ l.lookup a = none := by
  unfold resolvedWords at hws
  split at hws
  · cases hws
  · next cmd args hcons =>
    split at hws
    · next hl =>
      have hlen : ((wordsOf line).take 15).length = 3 := by
        rw [hcons, hws]
        rfl
      rw [List.length_take] at hlen
      rw [List.take_of_length_le (by omega), hws] at hcons
      exact ⟨hcons, by cases hws; exact hl⟩
    · next command hl =>
      have hfew := h.few _ (mem_of_lookup hl)
      have hlen := congrArg List.length hws
      rw [List.length_take, List.length_cons, List.length_cons, List.length_singleton] at hlen
      simp only at hfew
      omega

/-- **One line.** -/
theorem executeCommand_arrays (h : ShellInv s l) (h0 : 0 ∉ line) (hlen : line.length ≤ 126)
    (hfits : AliasNameFits s line) :
    Avoids Stop.overrun (fun s' => ∃ l', ShellInv s' l') (executeCommand K s line) := by
  rcases dispatch_cases h.toShellArrays h0 (Nat.lt_of_le_of_lt hlen (by decide)) with
    ⟨-, s', hd, hn⟩ | ⟨-, -, hd⟩ | ⟨cmd, args, s', -, hws, hd, hn⟩ <;>
  simp only [executeCommand, hd, bind, Except.bind]
  · exact ⟨l, hn.arrays, h.few⟩
  · exact Stop.noConfusion
  · have hfit : commandOf cmd.bytes = .alias_ → ∀ name command, args = [name, command] →
        name.bytes.length < 32 ∨ 20 ≤ l.length := by
      rintro hc name command rfl
      rw [(commandOf_alias cmd.noNul).mp hc] at hws
      obtain ⟨hwords, hl⟩ := resolvedWords_three h hws
      by_cases hroom : l.length < 20
      · refine .inl (hfits _ _ hwords ?_ (h.aliases.length_eq ▸ hroom))
        rw [findAlias_stores h.aliases (by decide), hl]
      · exact .inr (Nat.not_lt.mp hroom)
    have hrun := runCommand_inv (K := K) (s := s') ⟨hn.arrays, h.few⟩
      (words128 h.aliases (Nat.lt_of_le_of_lt hlen (by decide)) hws) hfit
    refine hrun.bind fun r hr => ?_
    obtain ⟨flow, s''⟩ := r
    obtain ⟨l', hl'⟩ := hr
    cases flow with
    | returned => exact ⟨l', hl'⟩
    | next =>
      refine ⟨l', hl'.same ?_⟩
      unfold System.debugNote
      split
      · exact (SameArrays.refl _).act _
      · exact .refl _

/-- A name of 32 or more characters for a new alias. -/
theorem addAlias_long {aliases : List AliasSlot} (h : Stores aliases l) (hroom : l.length < 20)
    {name command : List UInt8} (hn : 0 ∉ name) (hlong : 32 ≤ name.length) :
    Kernel.addAlias aliases name command = none := by
  have hloop : addAliasLoop name command aliases = none := by
    clear hroom
    induction h with
    | nil =>
      have hcopy : strcpyAt AliasSlot.zero.alias_ 0 name = none := by
        refine if_neg ?_
        rintro ⟨-, hlt⟩
        have hsize : AliasSlot.zero.alias_.length = 32 := List.length_replicate
        omega
      rw [addAliasLoop, hcopy]
      rfl
    | @cons slot p aliases l hslot hrest ih =>
      have hp := hslot.alias_.length_lt
      rw [hslot.aliasSize] at hp
      have hne : ¬ strcmp p.1 name = 0 := by
        rw [strcmp_eq_zero_iff hslot.alias_.noNul hn]
        rintro rfl
        omega
      simp only [addAliasLoop, hslot.alias_.stringIn, Option.bind_eq_bind, Option.bind_some, if_neg hne, ih,
        Option.bind_none]
  rw [Kernel.addAlias, if_neg, hloop]
  rw [h.length_eq]
  exact Nat.not_le.mpr hroom

/-- **The line that overruns an array.** -/
theorem executeCommand_overrun (h : ShellInv s l) (h0 : 0 ∉ line) (hlen : line.length ≤ 126)
    (hno : ¬ AliasNameFits s line) : executeCommand K s line = .error .overrun := by
  unfold AliasNameFits at hno
  push Not at hno
  obtain ⟨name, command, hwords, hfind, hroom, hlong⟩ := hno
  rw [findAlias_stores h.aliases (by decide), Option.some.injEq] at hfind
  have hres : resolvedWords l line = [aliasWord, name, command] := by
    simp only [resolvedWords, hwords, List.take_succ_cons, List.take_nil, hfind]
  rcases dispatch_cases h.toShellArrays h0 (Nat.lt_of_le_of_lt hlen (by decide)) with
    ⟨hblank, -⟩ | ⟨-, hnil, -⟩ | ⟨cmd, args, s', -, hws, hd, hn⟩
  · rw [hblank] at hwords
    cases hwords
  · rw [hres] at hnil
    cases hnil
  · rw [hres] at hws
    obtain ⟨hcmd, hargs⟩ := List.cons.inj hws
    obtain ⟨a, rest, rfl, rfl, hrest⟩ := List.map_eq_cons_iff.mp hargs.symm
    obtain ⟨b, last, rfl, rfl, hlast⟩ := List.map_eq_cons_iff.mp hrest
    obtain rfl := List.map_eq_nil_iff.mp hlast
    have halias : commandOf cmd.bytes = .alias_ := (commandOf_alias cmd.noNul).mpr hcmd.symm
    have hadd : Kernel.addAlias _ a.bytes b.bytes = none :=
      addAlias_long hn.arrays.aliases (by rw [← h.aliases.length_eq]; exact hroom) a.noNul hlong
    simp only [executeCommand, hd, bind, Except.bind, System.runCommand, halias, System.alias_, System.addAlias, hadd]
    rfl

end OneLine

/-! ### Any lines -/

/-- A line as the editor delivers it. -/
structure Line where
  /-- The characters. -/
  bytes : List UInt8
  noNul : 0 ∉ bytes
  short : bytes.length ≤ 126

theorem Line.fits (line : Line) : line.bytes.length < 128 := Nat.lt_succ_of_le (Nat.le_succ_of_le line.short)

/-- One line, as long as every line has come back. -/
def lineStep (K : DirDrivers D) (s : Except Stop (System D)) (line : Line) : Unit × Except Stop (System D) :=
  ((), s >>= fun s => executeCommand K s line.bytes)

/-- Nothing was overrun, and each array has a NUL in it. -/
def BuffersSound (s : Except Stop (System D)) : Prop := Avoids Stop.overrun BuffersTerminated s

/-- The line gives no name of 32 or more characters to a new alias. -/
def NameFits (s : Except Stop (System D)) (line : Line) : Prop := ∀ s', s = .ok s' → AliasNameFits s' line.bytes

/-- The state in which `start_shell` begins its loop. -/
def shellStart (vfs : Vfs D) (totalMemory freeMemory uptimeSeconds : UInt32) (stack : Mem) : Except Stop (System D) :=
  inside (startShell (System.initial vfs totalMemory freeMemory uptimeSeconds stack))

theorem initial_inv (vfs : Vfs D) (totalMemory freeMemory uptimeSeconds : UInt32) (stack : Mem) :
    ShellInv (System.initial vfs totalMemory freeMemory uptimeSeconds stack) [] where
  history _ := ⟨List.length_replicate, show 0 ∈ List.replicate MAX_INPUT 0 by decide⟩
  nonneg := le_rfl
  le := Int.zero_le_ofNat 9
  aliases := .nil
  parse := ⟨List.length_replicate, show 0 ∈ List.replicate MAX_INPUT 0 by decide⟩
  currentDirectory := ⟨rfl, show 0 ∈ slash :: List.replicate 63 0 by decide⟩
  few _ hp := absurd hp List.not_mem_nil

/-- Some aliases added, that fit and for which there is room. -/
theorem addAliases_inv (ps : List (List UInt8 × List UInt8))
    (hps : ∀ p ∈ ps, 0 ∉ p.1 ∧ 0 ∉ p.2 ∧ p.1.length < 32 ∧ p.2.length < 128 ∧ (wordsOf p.2).length ≤ 2)
    (h : ShellInv s l) :
    ∃ s', ps.foldlM (fun s p => s.addAlias p.1 p.2) s = some s' ∧ ∃ l', ShellInv s' l' := by
  apply foldlM_inv (I := fun s => ∃ l, ShellInv s l)
  · rintro s p hp ⟨l, h⟩
    obtain ⟨hn, hc, hlen, hclen, hfew⟩ := hps p hp
    obtain ⟨s', l', hadd, h', -⟩ := addAlias_inv h hn hc (.inl hlen) hclen hfew
    exact ⟨s', hadd, l', h'⟩
  · exact ⟨l, h⟩

/-- **The state of the first line.** -/
theorem shellStart_inv (vfs : Vfs D) (totalMemory freeMemory uptimeSeconds : UInt32) (stack : Mem) :
    ∃ s l, shellStart vfs totalMemory freeMemory uptimeSeconds stack = .ok s ∧ ShellInv s l := by
  have hgreet : ShellInv (System.initial vfs totalMemory freeMemory uptimeSeconds stack).greet [] :=
    (initial_inv vfs totalMemory freeMemory uptimeSeconds stack).same ⟨rfl, rfl, rfl, rfl, rfl⟩
  obtain ⟨s, hstart, l, h⟩ := addAliases_inv defaultAliases (by decide +kernel) hgreet
  exact ⟨s, l, by rw [shellStart, startShell, hstart]; rfl, h⟩

/-- A line keeps the invariant where the run goes on. -/
theorem lineStep_inv {s : Except Stop (System D)} (h : ∀ s', s = .ok s' → ∃ l, ShellInv s' l) (line : Line) :
    ∀ s', (lineStep K s line).2 = .ok s' → ∃ l, ShellInv s' l := by
  intro s' hs'
  cases s with
  | error e => cases hs'
  | ok s =>
    obtain ⟨l, hl⟩ := h s rfl
    have hstep : executeCommand K s line.bytes = .ok s' := hs'
    by_cases hfits : AliasNameFits s line.bytes
    · exact (avoids_iff.mp (executeCommand_arrays hl line.noNul line.short hfits)).2 s' hstep
    · rw [executeCommand_overrun hl line.noNul line.short hfits] at hstep
      cases hstep

/-- **Each line decides**: what was sound stays sound just when the name fits. -/
theorem lineStep_sound {s : Except Stop (System D)} (h : ∀ s', s = .ok s' → ∃ l, ShellInv s' l) (line : Line)
    (hs : BuffersSound s) : BuffersSound (lineStep K s line).2 ↔ NameFits s line := by
  cases s with
  | error e =>
    refine iff_of_true hs fun s' hs' => ?_
    cases hs'
  | ok s =>
    obtain ⟨l, hl⟩ := h s rfl
    have hfits : NameFits (.ok s) line ↔ AliasNameFits s line.bytes :=
      ⟨fun hfits => hfits s rfl, by rintro hfits s' ⟨⟩; exact hfits⟩
    rw [hfits]
    show Avoids Stop.overrun BuffersTerminated (executeCommand K s line.bytes) ↔ AliasNameFits s line.bytes
    constructor
    · intro hsound
      by_contra hno
      rw [executeCommand_overrun hl line.noNul line.short hno] at hsound
      exact hsound rfl
    · intro hfits
      refine (executeCommand_arrays hl line.noNul line.short hfits).mono ?_
      rintro s' ⟨l', hl'⟩
      exact hl'.buffers

/-- **When the arrays of the shell are safe**: when no line of the run gives a name of 32 or more characters
to a new alias. -/
theorem shellBuffers_iff (K : DirDrivers D) (vfs : Vfs D) (totalMemory freeMemory uptimeSeconds : UInt32)
    (stack : Mem) (lines : List Line) :
    (∀ n, BuffersSound (run (lineStep K) (shellStart vfs totalMemory freeMemory uptimeSeconds stack)
        (lines.take n)).2) ↔
      Along (lineStep K) NameFits (shellStart vfs totalMemory freeMemory uptimeSeconds stack) lines := by
  obtain ⟨s₀, l₀, hstart, h₀⟩ := shellStart_inv vfs totalMemory freeMemory uptimeSeconds stack
  rw [hstart]
  refine always_iff_along (J := fun s => ∀ s', s = .ok s' → ∃ l, ShellInv s' l) ?_ ?_ ?_ ?_ lines
  · intro s line h
    exact lineStep_inv h line
  · intro s line h hs
    exact lineStep_sound h line hs
  · rintro s' ⟨⟩
    exact ⟨l₀, h₀⟩
  · exact h₀.toShellArrays.buffers

/-- `alias`, a name of 32 characters, and a command. -/
def longAlias : Line where
  bytes := aliasWord ++ 32 :: (List.replicate 32 97 ++ [32, 120])
  noNul := by decide
  short := by decide

/-- The shell on the small tree. -/
def smallShell : Except Stop (System Memfs) := shellStart smallVfs 0x1000000 0xF00000 0 fun _ => 0

/-- The same before it has aliases. -/
def smallSystem : System Memfs := .initial smallVfs 0x1000000 0xF00000 0 fun _ => 0

theorem smallSystem_inv : ShellInv smallSystem [] := initial_inv smallVfs 0x1000000 0xF00000 0 fun _ => 0

/-- The line overruns the name of the first alias not used yet. -/
theorem not_forall_buffersSound :
    ¬ ∀ (lines : List Line) (n : ℕ), BuffersSound (run (lineStep memfsDirDrivers) smallShell (lines.take n)).2 := by
  intro h
  obtain ⟨s, l, hstart, hl⟩ := shellStart_inv smallVfs 0x1000000 0xF00000 0 fun _ => 0
  have hsmall : smallShell = .ok s := hstart
  have hsound := h [longAlias] 1
  rw [hsmall] at hsound
  have hinv : ∀ s', (.ok s : Except Stop (System Memfs)) = .ok s' → ∃ l, ShellInv s' l := by
    rintro s' ⟨⟩
    exact ⟨l, hl⟩
  have hstart : BuffersSound (.ok s : Except Stop (System Memfs)) := hl.toShellArrays.buffers
  have hfits := (lineStep_sound hinv longAlias hstart).mp hsound
  have haliases : smallShell.map (fun s => (findAlias aliasWord s.aliases, decide (s.aliases.length < 20))) =
      .ok (some none, true) := by decide +kernel
  rw [hsmall] at haliases
  injection haliases with haliases
  obtain ⟨hfind, hroom⟩ := Prod.mk.inj haliases
  have hshort := hfits s rfl (List.replicate 32 97) [120] (by decide +kernel) hfind (of_decide_eq_true hroom)
  exact absurd hshort (by decide)

end Basedos.Kernel
