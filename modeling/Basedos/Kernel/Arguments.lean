import Basedos.Kernel.Parse

/-!
# The arguments of a line

What `parse_command` of `kernel/shell.c` leaves in the array of pointers it is given, and in its own array of
characters.

## The model

`parseArgs` is `parse_command` with its stores to `args`, an array of `MAX_ARGS` pointers with anything
in it (`ArgArray`). A pointer is an index in the static array, or `NULL`. The calls of `strtok` are those of
`parseCommand`, which has the pointers in a list.

## What is proved

* `parseArgs_eq` — the array of pointers holds that list, and a `NULL` after it.
* `LoopDone.laidOut` — the words lie in the static array one after the other, each up to a NUL of its own.
* `parseArgs_tokenised` — **the tokens are the words**, for every line that fits and whatever an earlier call
  left behind.
-/

namespace Basedos.Kernel

open Basedos.Lib Basedos.CLib

/-! ### The function -/

/-- `args`. -/
structure ArgArray where
  /-- The pointers. -/
  cells : List (Option ℕ)
  size : cells.length = MAX_ARGS

/-- `args[i] = p`. -/
def ArgArray.store (args : ArgArray) (i : ℕ) (p : Option ℕ) : Option ArgArray :=
  if i < MAX_ARGS then some ⟨args.cells.set i p, List.length_set.trans args.size⟩ else none

/-- The loop of `parse_command`. -/
def parseArgsLoop (t : Tokenizer) (token : Option ℕ) (argc : ℕ) (args : ArgArray) :
    Option (ℕ × ArgArray × Tokenizer) :=
  match token with
  | none => some (argc, args, t)
  | some p =>
    if argc < MAX_ARGS - 1 then do
      let args ← args.store argc (some p)
      let (next, t) ← strtok t none blanks
      parseArgsLoop t next (argc + 1) args
    else some (argc, args, t)
termination_by MAX_ARGS - argc

/-- `parse_command`: `argc`, and what is in the arrays. -/
def parseArgs (t : Tokenizer) (input : List UInt8) (args : ArgArray) : Option (ℕ × ArgArray × Tokenizer) := do
  let buffer ← strcpyAt t.buffer 0 input
  let (token, t) ← strtok { t with buffer } (some 0) blanks
  let (argc, args, t) ← parseArgsLoop t token 0 args
  let args ← args.store argc none
  some (argc, args, t)

/-! ### What is asked for -/

/-- **The line is cut into its words**: `argc` is their number, up to fifteen, and each pointer is to the word
in its place, which ends in a NUL of its own; the words do not overlap, and a `NULL` follows the pointers. -/
structure Tokenised (line b : List UInt8) (argc : ℕ) (args : ArgArray) : Prop where
  count : argc = min 15 (wordsOf line).length
  word : ∀ i < argc, ∃ p w, args.cells[i]? = some (some p) ∧ (wordsOf line)[i]? = some w ∧ w ≠ [] ∧
    Holds (b.drop p) w ∧ p + w.length < b.length
  apart : ∀ i j p q w, i < j → j < argc → args.cells[i]? = some (some p) → args.cells[j]? = some (some q) →
    (wordsOf line)[i]? = some w → p + w.length < q
  null : args.cells[argc]? = some none

/-! ### The array of pointers -/

/-- The array of pointers after some of them. -/
theorem parseArgsLoop_eq (n argc : ℕ) {t t' : Tokenizer} {token : Option ℕ} {ps : List ℕ}
    (hn : n + argc = MAX_ARGS - 1) (h : parseLoop n t token = some (ps, t')) (args : ArgArray) :
    ∃ args', parseArgsLoop t token argc args = some (argc + ps.length, args', t') ∧ ps.length ≤ n ∧
      args'.cells = args.cells.take argc ++ ps.map some ++ args.cells.drop (argc + ps.length) := by
  induction n generalizing t token ps argc args with
  | zero =>
    have hnone : parseLoop 0 t token = some ([], t) := by cases token <;> rfl
    rw [hnone] at h
    cases h
    refine ⟨args, ?_, le_rfl, by simp⟩
    cases token with
    | none => rw [parseArgsLoop]; rfl
    | some p =>
      rw [parseArgsLoop, if_neg (by omega)]
      rfl
  | succ n ih =>
    cases token with
    | none =>
      cases h
      exact ⟨args, by rw [parseArgsLoop]; rfl, Nat.zero_le _, by simp⟩
    | some p =>
      simp only [parseLoop, Option.bind_eq_bind, Option.bind_eq_some_iff] at h
      obtain ⟨⟨next, t₁⟩, hnext, ⟨ps₁, t₂⟩, hloop, heq⟩ := h
      obtain ⟨rfl, rfl⟩ := Prod.mk.inj (Option.some.inj heq)
      have hroom : argc < args.cells.length := by rw [args.size]; omega
      obtain ⟨args', hargs, hle, hcells⟩ := ih (argc + 1) (by omega) hloop
        ⟨args.cells.set argc (some p), List.length_set.trans args.size⟩
      refine ⟨args', ?_, Nat.succ_le_succ hle, ?_⟩
      · rw [parseArgsLoop, if_pos (by omega), ArgArray.store, if_pos (by omega)]
        simp only [Option.bind_eq_bind, Option.bind_some, hnext, hargs, List.length_cons]
        rw [Nat.add_assoc, Nat.add_comm 1]
      · have hset : args.cells.set argc (some p) = args.cells.take argc ++ some p :: args.cells.drop (argc + 1) :=
          by rw [List.set_eq_take_append_cons_drop, if_pos hroom]
        have htake : (args.cells.take argc).length = argc := List.length_take_of_le (Nat.le_of_lt hroom)
        have hfront : (args.cells.set argc (some p)).take (argc + 1) = args.cells.take argc ++ [some p] := by
          rw [hset, List.append_cons]
          exact List.take_left' (by rw [List.length_append, htake, List.length_singleton])
        have hback : (args.cells.set argc (some p)).drop (argc + 1 + ps₁.length) =
            args.cells.drop (argc + (p :: ps₁).length) := by
          rw [List.drop_set_of_lt (by omega), List.length_cons]
          congr 1
          omega
        rw [hcells, hfront, hback, List.map_cons, List.append_assoc _ [_]]
        rfl

/-- **What is in the array**: the arguments, and a `NULL` after them. -/
theorem parseArgs_eq {t t' : Tokenizer} {line : List UInt8} {ps : List ℕ} (h : parseCommand t line = some (ps, t'))
    (args : ArgArray) :
    ∃ args', parseArgs t line args = some (ps.length, args', t') ∧ ps.length ≤ 15 ∧
      args'.cells[ps.length]? = some none ∧ ∀ i, i < ps.length → args'.cells[i]? = some ps[i]? := by
  simp only [parseCommand, Option.bind_eq_bind, Option.bind_eq_some_iff] at h
  obtain ⟨buffer, hcopy, ⟨token, t₁⟩, htok, hloop⟩ := h
  obtain ⟨args', hargs, hle, hcells⟩ := parseArgsLoop_eq 15 0 rfl hloop args
  rw [Nat.zero_add, List.take_zero, List.nil_append] at hcells
  rw [Nat.zero_add] at hargs
  have hmax : ps.length < MAX_ARGS := Nat.lt_succ_of_le hle
  have hroom : ps.length < args'.cells.length := by rwa [args'.size]
  refine ⟨⟨args'.cells.set ps.length none, List.length_set.trans args'.size⟩, ?_, hle, ?_, fun i hi => ?_⟩
  · simp only [parseArgs, hcopy, htok, hargs, Option.bind_eq_bind, Option.bind_some]
    rw [ArgArray.store, if_pos hmax]
    rfl
  · exact List.getElem?_set_self hroom
  · have hcell : args'.cells[i]? = (ps.map some)[i]? := by
      rw [hcells]
      exact List.getElem?_append_left (by rwa [List.length_map])
    rw [List.getElem?_set_ne (Nat.ne_of_gt hi), hcell, List.getElem?_map, List.getElem?_eq_getElem hi, Option.map_some]

/-! ### The array of characters -/

/-- The words lie in the array one after the other from place `a` on, each from its pointer to a NUL. -/
def LaidOut (b : List UInt8) : ℕ → List ℕ → List (List UInt8) → Prop
  | _, [], [] => True
  | a, p :: ps, w :: ws => a ≤ p ∧ Holds (b.drop p) w ∧ LaidOut b (p + w.length + 1) ps ws
  | _, _, _ => False

theorem LaidOut.mono {b : List UInt8} {a a' : ℕ} {ps : List ℕ} {ws : List (List UInt8)} (h : LaidOut b a ps ws)
    (hle : ps ≠ [] → a' ≤ a) : LaidOut b a' ps ws := by
  cases ps with
  | nil => cases ws <;> exact h
  | cons p ps =>
    cases ws with
    | nil => exact h
    | cons w ws => exact ⟨(hle (List.cons_ne_nil p ps)).trans h.1, h.2⟩

theorem holds_of_read {b : List UInt8} {s : CStr} (h : CStr.read b = some s) : Holds b s.bytes := by
  rw [CStr.read] at h
  split at h
  · next h0 =>
    cases h
    obtain ⟨w, rest, hb, hw⟩ := List.eq_append_cons_of_mem h0
    have hholds : Holds b w := ⟨hw, rest, hb⟩
    have hread := hholds.stringIn
    rw [stringIn, if_pos h0, Option.some.injEq] at hread
    show Holds b (b.takeWhile (· ≠ 0))
    rw [hread]
    exact hholds
  · cases h

/-- A token, and what the loop does from there. -/
theorem parseLoop_succ (n : ℕ) (t : Tokenizer) (p : ℕ) :
    parseLoop (n + 1) t (some p) =
      ((strtok t none blanks).bind fun r => parseLoop n r.2 r.1).map fun r => (p :: r.1, r.2) := by
  simp only [parseLoop, Option.bind_eq_bind, Option.map_bind]
  congr 1
  funext r
  show _ = (parseLoop n r.2 r.1).map fun r => (p :: r.1, r.2)
  cases parseLoop n r.2 r.1 <;> rfl

/-- **The words in the static array**: where the loop has been, the words lie one after the other. -/
theorem LoopDone.laidOut (n : ℕ) {t t' : Tokenizer} {pre l : List UInt8} {args : List ℕ} {ws : List CStr}
    (h : Left t pre l) (hdone : LoopDone t pre l n args t' ws) :
    LaidOut t'.buffer pre.length args (ws.map CStr.bytes) := by
  induction n generalizing t pre l args ws with
  | zero =>
    have hws : ws.map CStr.bytes = [] := hdone.words.trans List.take_zero
    obtain ⟨⟨token, t₁⟩, -, hloop⟩ := Option.bind_eq_some_iff.mp hdone.result
    have hargs : args = [] := by
      cases token <;> cases hloop <;> rfl
    rw [hargs, hws]
    exact trivial
  | succ n ih =>
    rcases strtok_left h with ⟨last, htok, hwords⟩ | ⟨s, w, r, t₁, pre₁, -, -, htok, hleft, -, hpre, hwords⟩
    · have hws : ws.map CStr.bytes = [] := by rw [hdone.words, hwords, List.take_nil]
      have hresult := hdone.result
      rw [htok, Option.bind_some] at hresult
      cases hresult
      rw [hws]
      exact trivial
    · obtain ⟨args₁, t₂, ws₁, hdone₁⟩ := parseLoop_left n hleft
      have hresult := hdone.result
      rw [htok, Option.bind_some, parseLoop_succ, hdone₁.result, Option.map_some] at hresult
      obtain ⟨rfl, rfl⟩ := Prod.mk.inj (Option.some.inj hresult)
      have hws : ws.map CStr.bytes = w :: ws₁.map CStr.bytes := by
        rw [hdone.words, hwords, List.take_succ_cons, hdone₁.words]
      obtain ⟨v, ws', rfl, rfl, hws'⟩ := List.map_eq_cons_iff.mp hws
      have hread := hdone.read
      simp only [readArgs, List.mapM_cons, Option.bind_eq_bind, Option.bind_eq_some_iff] at hread
      obtain ⟨v', hv, vs, -, hvs⟩ := hread
      obtain ⟨rfl, rfl⟩ := List.cons.inj (Option.some.inj hvs)
      have hrest := ih hleft hdone₁
      rw [List.map_cons, hws']
      refine ⟨?_, holds_of_read hv, hrest.mono fun hne => ?_⟩
      · rw [List.length_append]
        exact Nat.le_add_right _ _
      · rcases hpre with rfl | ⟨rfl, rfl⟩
        · simp [Nat.add_assoc]
        · have hnone : ws₁.map CStr.bytes = [] := by
            rw [hdone₁.words]
            exact List.take_nil
          rw [hnone] at hrest
          cases args₁ with
          | nil => exact absurd rfl hne
          | cons p ps => exact hrest.elim

/-- The words that lie in the array, by their places in the list. -/
theorem LaidOut.getElem? {b : List UInt8} {a : ℕ} {ps : List ℕ} {ws : List (List UInt8)} (h : LaidOut b a ps ws) :
    ps.length = ws.length ∧
    ∀ (i p : ℕ) (w : List UInt8), ps[i]? = some p → ws[i]? = some w → a ≤ p ∧ Holds (b.drop p) w ∧
      ∀ j q : ℕ, i < j → ps[j]? = some q → p + w.length < q := by
  induction ps generalizing a ws with
  | nil =>
    cases ws with
    | nil => exact ⟨rfl, fun i p w hp => by cases hp⟩
    | cons w ws => exact h.elim
  | cons p ps ih =>
    cases ws with
    | nil => exact h.elim
    | cons w ws =>
      obtain ⟨hle, hholds, hrest⟩ := h
      obtain ⟨hlen, hcells⟩ := ih hrest
      have hlater : ∀ j q : ℕ, ps[j]? = some q → p + w.length < q := by
        intro j q hq
        obtain ⟨v, hv⟩ : ∃ v, ws[j]? = some v := by
          have hj := (List.getElem?_eq_some_iff.mp hq).1
          exact ⟨ws[j], List.getElem?_eq_getElem (hlen ▸ hj)⟩
        exact (hcells j q v hq hv).1
      refine ⟨congrArg Nat.succ hlen, fun i p' w' hp' hw' => ?_⟩
      cases i with
      | zero =>
        cases hp'
        cases hw'
        refine ⟨hle, hholds, fun j q hj hq => ?_⟩
        obtain ⟨j, rfl⟩ := Nat.exists_eq_succ_of_ne_zero (Nat.ne_of_gt hj)
        exact hlater j q hq
      | succ i =>
        obtain ⟨hle', hholds', hnext⟩ := hcells i p' w' hp' hw'
        refine ⟨by omega, hholds', fun j q hj hq => ?_⟩
        obtain ⟨j, rfl⟩ := Nat.exists_eq_succ_of_ne_zero (Nat.ne_of_gt (Nat.zero_lt_of_lt hj))
        exact hnext j q (Nat.lt_of_succ_lt_succ hj) hq

/-- What the arrays hold of a line that fits. -/
theorem parseArgs_holds {t : Tokenizer} {line : List UInt8} (h0 : 0 ∉ line) (hlen : line.length < t.buffer.length)
    (args : ArgArray) :
    ∃ argc args' t', parseArgs t line args = some (argc, args', t') ∧ t'.buffer.length = t.buffer.length ∧
      0 ∈ t'.buffer ∧ Tokenised line t'.buffer argc args' := by
  obtain ⟨buffer, ps, t', ws, hcopied, hleft, hparse, hdone⟩ := parseCommand_done h0 hlen
  obtain ⟨hcount, hcells⟩ := (hdone.laidOut 15 hleft).getElem?
  obtain ⟨args', hargs, -, hnull, hget⟩ := parseArgs_eq hparse args
  rw [hdone.words] at hcount hcells
  have hpointer : ∀ i p, i < ps.length → args'.cells[i]? = some (some p) → ps[i]? = some p := by
    intro i p hi hp
    rw [hget i hi] at hp
    exact Option.some.inj hp
  have hword : ∀ i, i < ps.length → ∀ w, (wordsOf line)[i]? = some w →
      ((wordsOf line).take 15)[i]? = some w := by
    intro i hi w hw
    rw [hcount, List.length_take] at hi
    rw [List.getElem?_take_of_lt (by omega), hw]
  refine ⟨ps.length, args', t', hargs, hdone.size.trans hcopied, hdone.terminated, ?_, ?_, ?_,
    hnull⟩
  · rw [hcount, List.length_take]
  · intro i hi
    have hiw : i < ((wordsOf line).take 15).length := hcount ▸ hi
    have hw := List.getElem?_eq_getElem hiw
    have hw' := hw
    rw [List.getElem?_take_of_lt (by rw [List.length_take] at hiw; omega)] at hw'
    have hp : ps[i]? = some ps[i] := List.getElem?_eq_getElem hi
    have hheld := (hcells i _ _ hp hw).2.1
    refine ⟨ps[i], _, by rw [hget i hi, hp], hw', (mem_wordsOf (List.mem_of_getElem? hw')).1, hheld, ?_⟩
    have hlt := hheld.length_lt
    rw [List.length_drop] at hlt
    omega
  · intro i j p q w hij hj hp hq hw
    have hi := Nat.lt_trans hij hj
    exact (hcells i p w (hpointer i p hi hp) (hword i hi w hw)).2.2 j q hij (hpointer j q hj hq)

/-- A line of which there are pointers was copied, and so fits. -/
theorem length_of_parseArgs {t : Tokenizer} {line : List UInt8} {args : ArgArray} {r : ℕ × ArgArray × Tokenizer}
    (h : parseArgs t line args = some r) : line.length < t.buffer.length := by
  obtain ⟨buffer, hcopy, -⟩ := Option.bind_eq_some_iff.mp h
  unfold strcpyAt at hcopy
  split at hcopy
  · next hroom =>
    have := hroom.2
    omega
  · cases hcopy

/-- **The tokeniser**: for every line that fits the static array, whatever is in that array and in `args`, and
wherever an earlier call of `strtok` stopped. -/
theorem parseArgs_tokenised {t : Tokenizer} (hsize : t.buffer.length = 128) (line : CStr)
    (hlen : line.bytes.length ≤ 127) (args : ArgArray) :
    ∃ argc args' t', parseArgs t line.bytes args = some (argc, args', t') ∧ t'.buffer.length = 128 ∧
      Tokenised line.bytes t'.buffer argc args' := by
  obtain ⟨argc, args', t', hparse, hsize', -, htok⟩ := parseArgs_holds (t := t) line.noNul (by omega) args
  exact ⟨argc, args', t', hparse, hsize'.trans hsize, htok⟩

theorem listed_noNul : 0 ∉ ascii [' ', ' ', 'l', 's', ' ', '\t', '-', 'l', '\t'] := by decide

/-- Blanks around two words, with `strtok` stopped behind the array. -/
theorem parseArgs_tokenised_listed :
    ∃ argc args' t', parseArgs ⟨List.replicate 128 7, some 200⟩
        (ascii [' ', ' ', 'l', 's', ' ', '\t', '-', 'l', '\t']) ⟨List.replicate 16 (some 3), rfl⟩ =
        some (argc, args', t') ∧ t'.buffer.length = 128 ∧
      Tokenised (ascii [' ', ' ', 'l', 's', ' ', '\t', '-', 'l', '\t']) t'.buffer argc args' :=
  parseArgs_tokenised (t := ⟨List.replicate 128 7, some 200⟩) List.length_replicate ⟨_, listed_noNul⟩ (by decide) _

end Basedos.Kernel
