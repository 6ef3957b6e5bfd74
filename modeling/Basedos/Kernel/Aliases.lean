import Basedos.CLib.String
import Basedos.Kernel.LineEditor
import Basedos.Lib.Assoc
import Basedos.Lib.Run

/-!
# The alias table

`add_alias` and `resolve_alias` of `kernel/shell.c`.

## The model

`aliases[0..alias_count)` is a list of slots, each with its two character arrays; the slot
after them has never been written. A copy that does not fit its array is `none`.

## What is proved

* `addAlias_stores` — a call updates the entry of that name or makes a new one, unless the
  table is full.
* `aliasMap_iff` — **exactly when** the table is a map of at most twenty names over a sequence
  of calls: no call is for a name already stored when twenty are. The test for a full table
  comes before the search for the name, so such a call is refused too.
-/

namespace Basedos.Kernel

open Basedos.Lib Basedos.CLib

/-- `MAX_ALIASES`. -/
def MAX_ALIASES : ℕ := 20

/-- `alias_t`. -/
structure AliasSlot where
  /-- `alias`, of 32 bytes. -/
  alias_ : List UInt8
  /-- `command`, of `MAX_INPUT` bytes. -/
  command : List UInt8
  deriving DecidableEq

/-- A slot never written. -/
def AliasSlot.zero : AliasSlot := ⟨List.replicate 32 0, List.replicate MAX_INPUT 0⟩

/-- How `add_alias` ends. -/
inductive AliasReply where
  /-- There are as many as there can be. -/
  | full
  /-- The alias was there. -/
  | updated
  /-- It was not. -/
  | added
  deriving DecidableEq

/-- What it prints. -/
def AliasReply.text : AliasReply → String
  | full => "Maximum aliases reached\n"
  | updated => "Alias updated\n"
  | added => "Alias added\n"

/-- The loop of `add_alias`, from a slot on, and the slot after the last. -/
def addAliasLoop (aliasName command : List UInt8) : List AliasSlot → Option (AliasReply × List AliasSlot)
  | [] => do
    let a ← strcpyAt AliasSlot.zero.alias_ 0 aliasName
    let c ← strcpyAt AliasSlot.zero.command 0 command
    some (.added, [⟨a, c⟩])
  | slot :: aliases => do
    let name ← stringIn slot.alias_
    if strcmp name aliasName = 0 then
      let c ← strcpyAt slot.command 0 command
      some (.updated, { slot with command := c } :: aliases)
    else
      let r ← addAliasLoop aliasName command aliases
      some (r.1, slot :: r.2)

/-- `add_alias`. -/
def addAlias (aliases : List AliasSlot) (aliasName command : List UInt8) :
    Option (AliasReply × List AliasSlot) :=
  if aliases.length ≥ MAX_ALIASES then some (.full, aliases) else addAliasLoop aliasName command aliases

/-- The loop of `resolve_alias`: the command of the first alias of that name, if there is one. -/
def findAlias (cmd : List UInt8) : List AliasSlot → Option (Option (List UInt8))
  | [] => some none
  | slot :: aliases => do
    let name ← stringIn slot.alias_
    if strcmp name cmd = 0 then (stringIn slot.command).map some else findAlias cmd aliases

/-- `resolve_alias`: the command of the alias, or the word itself. -/
def resolveAlias (cmd : List UInt8) (aliases : List AliasSlot) : Option (List UInt8) :=
  (findAlias cmd aliases).map fun command => command.getD cmd

/-! ### What is stored -/

/-- The slot holds an alias and its command. -/
structure SlotHolds (slot : AliasSlot) (p : List UInt8 × List UInt8) : Prop where
  aliasSize : slot.alias_.length = 32
  commandSize : slot.command.length = MAX_INPUT
  alias_ : Holds slot.alias_ p.1
  command : Holds slot.command p.2

/-- The slots hold the aliases of the list, in this order. -/
abbrev Stores (aliases : List AliasSlot) (l : List (List UInt8 × List UInt8)) : Prop :=
  List.Forall₂ SlotHolds aliases l

variable {aliases : List AliasSlot} {l : List (List UInt8 × List UInt8)} {aliasName command cmd : List UInt8}

/-- A new slot. -/
theorem zero_holds (hn : 0 ∉ aliasName) (hlen : aliasName.length < 32) (hc : 0 ∉ command)
    (hclen : command.length < MAX_INPUT) :
    ∃ a c, strcpyAt AliasSlot.zero.alias_ 0 aliasName = some a ∧
      strcpyAt AliasSlot.zero.command 0 command = some c ∧ SlotHolds ⟨a, c⟩ (aliasName, command) := by
  have hsize : AliasSlot.zero.alias_.length = 32 := List.length_replicate
  have hcsize : AliasSlot.zero.command.length = MAX_INPUT := List.length_replicate
  obtain ⟨a, ha, hheld, halen⟩ := strcpyAt_zero hn (hsize.symm ▸ hlen)
  obtain ⟨c, hc, hcheld, hclen⟩ := strcpyAt_zero hc (hcsize.symm ▸ hclen)
  exact ⟨a, c, ha, hc, halen.trans hsize, hclen.trans hcsize, hheld, hcheld⟩

/-- **What the loop stores**: a name already there gets the command, and another a slot of its own. -/
theorem addAliasLoop_stores (h : Stores aliases l) (hn : 0 ∉ aliasName) (hc : 0 ∉ command)
    (hclen : command.length < MAX_INPUT) (hlen : aliasName ∈ keys l ∨ aliasName.length < 32) :
    ∃ aliases', addAliasLoop aliasName command aliases =
        some (if aliasName ∈ keys l then .updated else .added, aliases') ∧
      Stores aliases' (assign l aliasName command) := by
  induction h with
  | nil =>
    obtain ⟨a, c, ha, hc, hslot⟩ := zero_holds hn (hlen.resolve_left List.not_mem_nil) hc hclen
    refine ⟨[⟨a, c⟩], ?_, .cons hslot .nil⟩
    simp only [addAliasLoop, ha, hc, Option.bind_eq_bind, Option.bind_some]
    rfl
  | @cons slot p aliases l hslot hrest ih =>
    simp only [addAliasLoop, hslot.alias_.stringIn, Option.bind_eq_bind, Option.bind_some,
      strcmp_eq_zero_iff hslot.alias_.noNul hn]
    by_cases hp : p.1 = aliasName
    · obtain ⟨c, hcopy, hheld, hsize⟩ := strcpyAt_zero (b := slot.command) hc (hslot.commandSize.symm ▸ hclen)
      have hmem : aliasName ∈ keys (p :: l) := hp ▸ List.mem_cons_self
      simp only [if_pos hp, hcopy, Option.bind_some, if_pos hmem, assign]
      exact ⟨_, rfl, .cons ⟨hslot.aliasSize, hsize.trans hslot.commandSize, hp ▸ hslot.alias_, hheld⟩ hrest⟩
    · have hmem : aliasName ∈ keys (p :: l) ↔ aliasName ∈ keys l := by simp [keys, Ne.symm hp]
      obtain ⟨aliases', hloop, hstores⟩ := ih (hlen.imp_left hmem.mp)
      simp only [if_neg hp, hloop, Option.bind_some, hmem, assign]
      exact ⟨_, rfl, .cons hslot hstores⟩

/-- A full table refuses any call. -/
theorem addAlias_full (h : Stores aliases l) (hfull : 20 ≤ l.length) :
    addAlias aliases aliasName command = some (.full, aliases) := by
  rw [addAlias, if_pos]
  rw [h.length_eq]
  exact hfull

/-- **What `add_alias` stores**, in a table that is not full. -/
theorem addAlias_stores (h : Stores aliases l) (hroom : l.length < 20) (hn : 0 ∉ aliasName) (hc : 0 ∉ command)
    (hclen : command.length < MAX_INPUT) (hlen : aliasName ∈ keys l ∨ aliasName.length < 32) :
    ∃ aliases', addAlias aliases aliasName command =
        some (if aliasName ∈ keys l then .updated else .added, aliases') ∧
      Stores aliases' (assign l aliasName command) := by
  rw [addAlias, if_neg]
  · exact addAliasLoop_stores h hn hc hclen hlen
  · rw [h.length_eq]
    exact Nat.not_le.mpr hroom

/-- The slot of an alias. -/
theorem exists_slot (h : Stores aliases l) {p : List UInt8 × List UInt8} (hp : p ∈ l) : ∃ slot, SlotHolds slot p := by
  obtain ⟨slot, -, hslot⟩ := exists_mem_of_forall₂ (R := flip SlotHolds) h.flip hp
  exact ⟨slot, hslot⟩

/-- The command of an alias. -/
theorem findAlias_stores (h : Stores aliases l) (hcmd : 0 ∉ cmd) : findAlias cmd aliases = some (l.lookup cmd) := by
  induction h with
  | nil => rfl
  | @cons slot p aliases l hslot hrest ih =>
    simp only [findAlias, hslot.alias_.stringIn, Option.bind_eq_bind, Option.bind_some,
      strcmp_eq_zero_iff hslot.alias_.noNul hcmd, lookup_cons_pair]
    by_cases hp : p.1 = cmd
    · rw [if_pos hp, if_pos hp.symm, hslot.command.stringIn]
      rfl
    · rw [if_neg hp, if_neg (Ne.symm hp)]
      exact ih

theorem resolveAlias_stores (h : Stores aliases l) (hcmd : 0 ∉ cmd) :
    resolveAlias cmd aliases = some ((l.lookup cmd).getD cmd) := by
  rw [resolveAlias, findAlias_stores h hcmd]
  rfl

/-! ### Sequences of calls -/

/-- A call of `add_alias`. -/
structure AliasCall where
  /-- The alias. -/
  name : CStr
  /-- Its command. -/
  command : CStr
  nameNonempty : 1 ≤ name.bytes.length
  nameShort : name.bytes.length ≤ 31
  commandShort : command.bytes.length ≤ 127

/-- One call; `none` once a call has left the arrays. -/
def aliasStep (aliases : Option (List AliasSlot)) (call : AliasCall) :
    Option AliasReply × Option (List AliasSlot) :=
  match aliases with
  | none => (none, none)
  | some aliases =>
    match addAlias aliases call.name.bytes call.command.bytes with
    | none => (none, none)
    | some (reply, aliases) => (some reply, some aliases)

/-- The calls accepted, the last first. -/
def noteAccepted (accepted : List (List UInt8 × List UInt8)) (call : AliasCall) (reply : Option AliasReply) :
    List (List UInt8 × List UInt8) :=
  if reply = some .updated ∨ reply = some .added then (call.name.bytes, call.command.bytes) :: accepted
  else accepted

/-- The table, with the calls accepted so far. -/
abbrev AliasState := List (List UInt8 × List UInt8) × Option (List AliasSlot)

/-- One call, its acceptance noted. -/
def aliasCall : AliasState → AliasCall → Option AliasReply × AliasState := remember noteAccepted aliasStep

/-- What is asked of the table between calls. -/
structure AliasMap (s : AliasState) : Prop where
  /-- A word resolves to the last command accepted for it, or to itself. -/
  resolves : ∀ x : CStr, s.2.bind (resolveAlias x.bytes) = some ((s.1.lookup x.bytes).getD x.bytes)
  /-- No name is in the table twice. -/
  distinct : ∃ aliases names, s.2 = some aliases ∧ aliases.mapM (fun slot => stringIn slot.alias_) = some names ∧
    names.Nodup

/-- What is asked of a call. -/
structure AliasCallLaw (s : AliasState) (call : AliasCall) : Prop where
  /-- A name already stored gets the new command. -/
  replaces : call.name.bytes ∈ keys s.1 → (aliasCall s call).1 = some .updated
  /-- Another is refused when twenty are stored, and only then. -/
  refuses : call.name.bytes ∉ keys s.1 → ((aliasCall s call).1 = some .full ↔ (keys s.1).toFinset.card = 20)
  /-- And is added when it is not. -/
  adds : call.name.bytes ∉ keys s.1 → (keys s.1).toFinset.card ≠ 20 → (aliasCall s call).1 = some .added
  /-- Other names keep their commands. -/
  others : ∀ x : CStr, x ≠ call.name →
    (aliasCall s call).2.2.bind (resolveAlias x.bytes) = s.2.bind (resolveAlias x.bytes)

/-- The call is not for a name stored when twenty are. -/
def NotFullUpdate (s : AliasState) (call : AliasCall) : Prop :=
  ¬ (call.name.bytes ∈ keys s.1 ∧ (keys s.1).toFinset.card = 20)

/-- The table holds the list of aliases that the calls accepted leave. -/
structure AliasInv (s : AliasState) (l : List (List UInt8 × List UInt8)) : Prop where
  stores : ∃ aliases, s.2 = some aliases ∧ Stores aliases l
  nodup : (keys l).Nodup
  length : l.length ≤ 20
  lookup : ∀ x, l.lookup x = s.1.lookup x

variable {s : AliasState}

theorem AliasInv.card (h : AliasInv s l) : (keys s.1).toFinset.card = l.length := card_keys h.nodup h.lookup

theorem AliasInv.aliasMap (h : AliasInv s l) : AliasMap s := by
  obtain ⟨aliases, hs, hstores⟩ := h.stores
  refine ⟨?_, aliases, keys l, hs, ?_, h.nodup⟩
  · intro x
    rw [hs, Option.bind_some, resolveAlias_stores hstores x.noNul, h.lookup]
  · clear hs h
    induction hstores with
    | nil => rfl
    | cons hslot hrest ih =>
      rw [List.mapM_cons, hslot.alias_.stringIn, ih]
      rfl

/-- **One call**, in a table with room or not. -/
theorem AliasInv.call (h : AliasInv s l) (call : AliasCall) :
    l.length = 20 ∧ aliasCall s call = (some .full, s) ∨
    l.length < 20 ∧ ∃ s', aliasCall s call = (some (if call.name.bytes ∈ keys l then .updated else .added), s') ∧
      AliasInv s' (assign l call.name.bytes call.command.bytes) := by
  obtain ⟨accepted, table⟩ := s
  obtain ⟨aliases, rfl, hstores⟩ := h.stores
  have hle := h.length
  simp only [aliasCall, remember, aliasStep]
  by_cases hfull : l.length = 20
  · rw [addAlias_full hstores hfull.ge]
    exact .inl ⟨hfull, rfl⟩
  · obtain ⟨aliases', hadd, hstores'⟩ := addAlias_stores hstores (by omega) call.name.noNul call.command.noNul
      (Nat.lt_of_le_of_lt call.commandShort (by decide)) (.inr (Nat.lt_of_le_of_lt call.nameShort (by decide)))
    rw [hadd]
    refine .inr ⟨by omega, _, rfl, ⟨aliases', rfl, hstores'⟩, nodup_keys_assign h.nodup _ _, ?_, fun x => ?_⟩
    · rw [length_assign]
      split <;> omega
    · have hnote : noteAccepted accepted call
          (some (if call.name.bytes ∈ keys l then AliasReply.updated else .added)) =
          (call.name.bytes, call.command.bytes) :: accepted := by
        by_cases hmem : call.name.bytes ∈ keys l
        · simp only [noteAccepted, if_pos hmem, true_or, if_true]
        · simp only [noteAccepted, if_neg hmem, or_true, if_true]
      simp only [hnote, lookup_assign, lookup_cons_pair, h.lookup]

/-- No call, so far, has left the arrays or broken the map. -/
theorem AliasInv.step (h : AliasInv s l) (call : AliasCall) : ∃ l', AliasInv (aliasCall s call).2 l' := by
  rcases h.call call with ⟨-, heq⟩ | ⟨-, s', heq, h'⟩ <;> rw [heq]
  · exact ⟨l, h⟩
  · exact ⟨_, h'⟩

/-- A call keeps to the law unless it is for a name stored in a full table. -/
theorem AliasInv.law (h : AliasInv s l) (call : AliasCall) : AliasCallLaw s call ↔ NotFullUpdate s call := by
  have hkeys : call.name.bytes ∈ keys s.1 ↔ call.name.bytes ∈ keys l := (mem_keys_congr h.lookup).symm
  unfold NotFullUpdate
  rw [hkeys, h.card]
  rcases h.call call with ⟨hfull, heq⟩ | ⟨hroom, s', heq, h'⟩
  · constructor
    · rintro hlaw ⟨hmem, -⟩
      have hreplaces := hlaw.replaces (hkeys.mpr hmem)
      rw [heq] at hreplaces
      cases hreplaces
    · intro hno
      have hmem : call.name.bytes ∉ keys s.1 := fun hmem => hno ⟨hkeys.mp hmem, hfull⟩
      refine ⟨fun h => absurd h hmem, fun _ => ?_, fun _ hcard => absurd (h.card.trans hfull) hcard, ?_⟩
      · rw [heq, h.card]
        exact iff_of_true rfl hfull
      · intro x _
        rw [heq]
  · refine iff_of_true ⟨fun hmem => ?_, fun hmem => ?_, fun hmem _ => ?_, fun x hx => ?_⟩ fun hno => by omega
    · rw [heq, if_pos (hkeys.mp hmem)]
    · rw [heq, if_neg (mt hkeys.mpr hmem), h.card]
      exact iff_of_false nofun (by omega)
    · rw [heq, if_neg (mt hkeys.mpr hmem)]
    · obtain ⟨aliases, hs, hstores⟩ := h.stores
      obtain ⟨aliases', hs', hstores'⟩ := h'.stores
      have hne : x.bytes ≠ call.name.bytes := fun he => hx (by cases x; cases hn : call.name; simp_all)
      rw [heq, hs, hs', Option.bind_some, Option.bind_some, resolveAlias_stores hstores x.noNul,
        resolveAlias_stores hstores' x.noNul, lookup_assign, if_neg hne]

theorem initial_aliasInv : AliasInv ([], some []) [] :=
  ⟨⟨[], rfl, .nil⟩, List.nodup_nil, Nat.zero_le 20, fun _ => rfl⟩

/-- The calls of a sequence keep to the law when none of them is for a name stored in a full table. -/
theorem along_aliasCallLaw (calls : List AliasCall) :
    Along aliasCall AliasCallLaw ([], some []) calls ↔ Along aliasCall NotFullUpdate ([], some []) calls := by
  refine along_congr (J := fun s => ∃ l, AliasInv s l) ?_ ?_ ⟨[], initial_aliasInv⟩ calls
  · rintro s call ⟨l, hl⟩
    exact hl.step call
  · rintro s call ⟨l, hl⟩
    exact hl.law call

/-- **When the table is a map** of at most twenty names: when no call is for a name stored while twenty are. -/
theorem aliasMap_iff (calls : List AliasCall) :
    ((∀ n, AliasMap (run aliasCall ([], some []) (calls.take n)).2) ∧
        Along aliasCall AliasCallLaw ([], some []) calls) ↔
      Along aliasCall NotFullUpdate ([], some []) calls := by
  rw [along_aliasCallLaw]
  refine and_iff_right ?_
  intro n
  have hinv : ∃ l, AliasInv (run aliasCall ([], some []) (calls.take n)).2 l := by
    refine run_inv' (I := fun s => ∃ l, AliasInv s l) ?_ ⟨[], initial_aliasInv⟩ _
    rintro s call ⟨l, hl⟩
    exact hl.step call
  obtain ⟨l, hl⟩ := hinv
  exact hl.aliasMap

instance (s : AliasState) (call : AliasCall) : Decidable (NotFullUpdate s call) :=
  inferInstanceAs (Decidable (¬ (_ ∧ _)))

/-- A name of one letter, and a command of one. -/
def letterCall (i j : Fin 26) : AliasCall where
  name := ⟨[97 + UInt8.ofNat i.val], by revert i; decide⟩
  command := ⟨[97 + UInt8.ofNat j.val], by revert j; decide⟩
  nameNonempty := le_rfl
  nameShort := Nat.le_add_right 1 30
  commandShort := Nat.le_add_right 1 126

/-- The twenty names from `a` on, and then another command for `a`: the last call is refused. -/
theorem not_forall_aliasCallLaw : ¬ ∀ calls, Along aliasCall AliasCallLaw ([], some []) calls := by
  intro h
  have hlaw := (along_aliasCallLaw _).mp (h (((List.finRange 26).take 20).map (fun i => letterCall i i) ++
    [letterCall 0 1]))
  revert hlaw
  decide +kernel

end Basedos.Kernel
