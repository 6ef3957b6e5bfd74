import Basedos.Kernel.CommandWord
import Basedos.Kernel.PlainShell

/-!
# What the records of the aliases hold

The table of aliases as it lies in memory (`Basedos.Kernel.AliasRecords`), against the list of the plain shell:
each record holds the first 32 characters of a name, and a command behind them.

## What is proved

* `RecordHolds.alias_` — **the name that is read** is the plain shell's, also where it runs on into the command.
* `addRecordLoop_holds`, `findRecord_holds` — what `add_alias` stores and `resolve_alias` finds.
* `recordWords_holds` — so a line stands for the same words in both.
-/

namespace Basedos.Kernel

open Basedos.Lib Basedos.CLib

/-- The record holds the alias, with a word in its command. -/
structure RecordHolds (record : AliasRecord) (p : PlainAlias) : Prop where
  size : record.length = RECORD_SIZE
  stem : Holds (record.take 32 ++ [0]) p.stem
  command : Holds (record.drop 32) p.command
  word : wordsOf p.command ≠ []

variable {record : AliasRecord} {p : PlainAlias} {records : List AliasRecord} {ps : List PlainAlias}
  {name command cmd : List UInt8}

theorem RecordHolds.ok (h : RecordHolds record p) : RecordOk record := ⟨h.size, p.command, h.command, h.word⟩

/-- **The name.** -/
theorem RecordHolds.holds_name (h : RecordHolds record p) : Holds record p.name := holds_runsOn h.stem h.command

theorem RecordHolds.alias_ (h : RecordHolds record p) : AliasRecord.alias_ record = some p.name := h.holds_name.stringIn

theorem RecordHolds.command_ (h : RecordHolds record p) : AliasRecord.command record = some p.command :=
  h.command.stringIn

/-- Another command stored behind the name. -/
theorem RecordHolds.store (hsize : record.length = RECORD_SIZE) (hstem : Holds (record.take 32 ++ [0]) p.stem)
    (h0 : 0 ∉ command) (hlen : command.length < MAX_INPUT) (hne : wordsOf command ≠ []) :
    ∃ record', strcpyAt record 32 command = some record' ∧ RecordHolds record' (p.setCommand command) := by
  obtain ⟨record', hcopy, hsize', hholds, htake⟩ :=
    strcpyAt_inside (b := record) (i := 32) h0 (by rw [hsize, RECORD_SIZE]; omega)
  exact ⟨record', hcopy, hsize'.trans hsize, by rw [htake]; exact hstem, hholds, hne⟩

/-- A new record. -/
theorem RecordHolds.fresh (hn : 0 ∉ name) (hnlen : name.length < RECORD_SIZE) (h0 : 0 ∉ command)
    (hlen : command.length < MAX_INPUT) (hne : wordsOf command ≠ []) :
    ∃ record record', strcpyAt AliasRecord.zero 0 name = some record ∧ strcpyAt record 32 command = some record' ∧
      RecordHolds record' (.named name command) := by
  have hzero : AliasRecord.zero.length = RECORD_SIZE := List.length_replicate
  obtain ⟨record, hcopy, hholds, hsize⟩ := strcpyAt_zero (b := AliasRecord.zero) hn (by rw [hzero]; exact hnlen)
  obtain ⟨record', hcopy', hrecord⟩ :=
    RecordHolds.store (p := .named name command) (hsize.trans hzero) (hholds.take 32) h0 hlen hne
  exact ⟨record, record', hcopy, hcopy', hrecord⟩

/-- **What `add_alias` stores.** -/
theorem addRecordLoop_holds (h : List.Forall₂ RecordHolds records ps) (hn : 0 ∉ name)
    (hnlen : name.length < RECORD_SIZE) (h0 : 0 ∉ command) (hlen : command.length < MAX_INPUT)
    (hne : wordsOf command ≠ []) :
    ∃ records', addRecordLoop name command records =
        some (if name ∈ keys (tableOf ps) then .updated else .added, records') ∧
      List.Forall₂ RecordHolds records' (putAlias name command ps) := by
  induction h with
  | nil =>
    obtain ⟨record, record', hcopy, hcopy', hrecord⟩ := RecordHolds.fresh hn hnlen h0 hlen hne
    refine ⟨[record'], ?_, .cons hrecord .nil⟩
    simp only [addRecordLoop, hcopy, hcopy', Option.bind_eq_bind, Option.bind_some]
    rfl
  | @cons record p records ps hrecord hrest ih =>
    have hkeys : name ∈ keys (tableOf (p :: ps)) ↔ name = p.name ∨ name ∈ keys (tableOf ps) := List.mem_cons
    simp only [addRecordLoop, hrecord.alias_, Option.bind_eq_bind, Option.bind_some,
      strcmp_eq_zero_iff hrecord.holds_name.noNul hn, putAlias, hkeys]
    by_cases hname : p.name = name
    · obtain ⟨record', hcopy, hrecord'⟩ := RecordHolds.store hrecord.size hrecord.stem h0 hlen hne
      rw [if_pos hname, if_pos hname, if_pos (.inl hname.symm), hcopy]
      exact ⟨record' :: records, rfl, .cons hrecord' hrest⟩
    · obtain ⟨records', hloop, hrest'⟩ := ih
      rw [if_neg hname, if_neg hname, hloop]
      refine ⟨record :: records', ?_, .cons hrecord hrest'⟩
      simp only [Ne.symm hname, false_or]
      rfl

/-- **What `resolve_alias` finds.** -/
theorem findRecord_holds (h : List.Forall₂ RecordHolds records ps) (hcmd : 0 ∉ cmd) :
    findRecord cmd records = some ((tableOf ps).lookup cmd) := by
  induction h with
  | nil => rfl
  | @cons record p records ps hrecord hrest ih =>
    have hlookup : (tableOf (p :: ps)).lookup cmd = if cmd = p.name then some p.command else (tableOf ps).lookup cmd :=
      lookup_cons_pair (p.name, p.command)
    simp only [findRecord, hrecord.alias_, Option.bind_eq_bind, Option.bind_some,
      strcmp_eq_zero_iff hrecord.holds_name.noNul hcmd, hlookup]
    by_cases hname : p.name = cmd
    · rw [if_pos hname, if_pos hname.symm, hrecord.command_]
      rfl
    · rw [if_neg hname, if_neg (Ne.symm hname)]
      exact ih

/-- **A line stands for the same words.** -/
theorem recordWords_holds (h : List.Forall₂ RecordHolds records ps) (line : List UInt8) (h0 : 0 ∉ line) :
    recordWords records line = resolvedWords (tableOf ps) line := by
  unfold recordWords resolvedWords
  cases hwords : (wordsOf line).take 15 with
  | nil => rfl
  | cons cmd args =>
    have hmem : cmd ∈ wordsOf line := List.mem_of_mem_take (hwords ▸ List.mem_cons_self)
    have hcmd : 0 ∉ cmd := fun hnul => h0 ((mem_words hmem).2.2 0 hnul)
    simp only [findRecord_holds h hcmd]
    cases (tableOf ps).lookup cmd with
    | none => rfl
    | some command => rfl

end Basedos.Kernel
