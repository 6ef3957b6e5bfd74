import Basedos.Kernel.Editing
import Basedos.Kernel.Interrupts
import Mathlib.Data.List.GetD

/-!
# The arrow keys

The keyboard and the line editor put together: what `keyboard_getchar` returns is the next
character of `start_shell`. The editor takes the characters `0x48` and `0x50` for the arrow
keys, which are the scancodes of those keys; but what it is given has been through
`scancode_to_ascii`, in which both scancodes are `0`, and a character that is `0` is not
stored. The table gives no other scancode the characters `0x48` and `0x50` either: they are
the letters `H` and `P`, and it has small letters only.

## What is proved

* `typed_step` — no character that is stored, moved or returned is taken for an arrow.
* `arrowKeys_never` — so in no session is an entry of the history **ever recalled**, by these
  keys or by any other, and wherever there is an entry to recall the arrow keys do not do
  what they are to do.
-/

namespace Basedos.Kernel

open Basedos.Lib Basedos.CLib

variable {ρ : Type} (K : Commands ρ) {k : Keyboard} {e e' : Shell ρ} {c : UInt8}

/-- The keyboard and the shell; `none` for a shell that has left its arrays. -/
structure Console (ρ : Type) where
  /-- The keyboard. -/
  keyboard : Keyboard
  /-- The shell. -/
  shell : Option (Shell ρ)

/-- The shell begins its first line, with no key pressed yet. -/
def Console.start (rest : ρ) (stack : Fin 127 → UInt8) : Console ρ := ⟨.initial, some (Shell.start rest stack)⟩

/-- A step of the keyboard, and of the shell when a character is returned. -/
def consoleStep (s : Console ρ) (event : Event) : Output × Console ρ :=
  let r := keyboardStep s.keyboard event
  (r.1, ⟨r.2, match r.1 with
    | .returned c => s.shell.bind fun e => shellStep K e c
    | _ => s.shell⟩)

/-- The key is pressed, and `keyboard_getchar` takes `n` steps. -/
def press (scancode : UInt8) (n : ℕ) (s : Console ρ) : Console ρ :=
  (run (consoleStep K) s (.interrupt scancode :: List.replicate n .getchar)).2

/-! ### What the arrow keys are to do -/

/-- The shell shows the entry `k` of the history, or no entry and an empty line. -/
def ShowsEntry (s : Console ρ) (stored : List (List UInt8)) (k : ℤ) : Prop :=
  ∃ e, s.shell = some e ∧ e.currentHistory = k ∧ stringIn e.input = if k = -1 then some [] else stored[k.toNat]?

/-- What is asked of a shell that has stored fewer than ten lines. -/
structure ArrowLaw (s : Console ρ) (e : Shell ρ) : Prop where
  /-- Up shows the entry before, and the last one first; it stays at the oldest. -/
  up : ∃ n, ShowsEntry (press K 0x48 n s) e.stored
    (if e.currentHistory = -1 then e.stored.length - 1 else max (e.currentHistory - 1) 0)
  /-- Down shows the entry after, or none and an empty line. -/
  down : ∃ n, ShowsEntry (press K 0x50 n s) e.stored
    (if e.currentHistory = -1 ∨ e.stored.length ≤ e.currentHistory + 1 then -1 else e.currentHistory + 1)
  /-- No other key recalls an entry. -/
  others : ∀ events : List Event, .interrupt 0x48 ∉ events → .interrupt 0x50 ∉ events →
    ∀ e', (run (consoleStep K) s events).2.shell = some e' → e'.recalls = e.recalls

/-! ### No arrow is returned -/

/-- The editor does not take the character for an arrow. -/
def NoArrow (c : UInt8) : Prop := c ≠ 0x48 ∧ c ≠ 0x50

/-- No character of the keyboard's is an arrow. -/
structure Typed (k : Keyboard) : Prop where
  buffer : ∀ i, NoArrow (k.keyBuffer i)
  loop : ∀ c i, k.pc = .loop c i → NoArrow c
  dec : ∀ c, k.pc = .dec c → NoArrow c

/-- Outside the loop of `keyboard_getchar` only the buffer holds characters. -/
theorem typed_idle (hbuffer : ∀ j, NoArrow (k.keyBuffer j)) (hpc : k.pc = .wait ∨ k.pc = .head) : Typed k := by
  refine ⟨hbuffer, fun c i hloop => ?_, fun c hdec => ?_⟩
  · rcases hpc with hpc | hpc <;> rw [hpc] at hloop <;> cases hloop
  · rcases hpc with hpc | hpc <;> rw [hpc] at hdec <;> cases hdec

theorem typed_loop {i : ℤ} (hbuffer : ∀ j, NoArrow (k.keyBuffer j)) (hpc : k.pc = .loop c i) (hc : NoArrow c) :
    Typed k := by
  refine ⟨hbuffer, fun d j hloop => ?_, fun d hdec => ?_⟩
  · rw [hpc] at hloop
    cases hloop
    exact hc
  · rw [hpc] at hdec
    cases hdec

theorem typed_dec (hbuffer : ∀ j, NoArrow (k.keyBuffer j)) (hpc : k.pc = .dec c) (hc : NoArrow c) : Typed k := by
  refine ⟨hbuffer, fun d j hloop => ?_, fun d hdec => ?_⟩
  · rw [hpc] at hloop
    cases hloop
  · rw [hpc] at hdec
    cases hdec
    exact hc

theorem initial_typed : Typed .initial := by
  apply typed_idle
  · intro i
    show (0 : UInt8) ≠ 0x48 ∧ (0 : UInt8) ≠ 0x50
    decide
  · exact .inl rfl

/-- The table has neither letter. -/
theorem scancodeToAscii_noArrow : ∀ c ∈ scancodeToAscii, c ≠ 0x48 ∧ c ≠ 0x50 := by decide +kernel

theorem accepts_noArrow {scancode : UInt8} (h : k.accepts scancode = some c) : NoArrow c := by
  unfold Keyboard.accepts at h
  split at h
  · cases h
  · split at h
    · next hlt =>
      simp only at h
      split at h
      · cases h
        apply scancodeToAscii_noArrow
        rw [List.getD_eq_getElem _ _ hlt]
        exact List.getElem_mem hlt
      · cases h
    · cases h

/-- **A step of the keyboard** keeps this, and returns no arrow. -/
theorem typed_step (h : Typed k) (event : Event) :
    Typed (keyboardStep k event).2 ∧ ∀ c, (keyboardStep k event).1 = .returned c → NoArrow c := by
  have hupdate : ∀ (i : ℤ) (c : UInt8), NoArrow c → ∀ j, NoArrow (Function.update k.keyBuffer i c j) := by
    intro i c hc j
    by_cases hj : j = i
    · rw [hj, Function.update_self]
      exact hc
    · rw [Function.update_of_ne hj]
      exact h.buffer j
  cases event with
  | interrupt scancode =>
    simp only [keyboardStep, handlerInternal]
    cases hc : k.accepts scancode with
    | none =>
      refine ⟨h, ?_⟩
      rintro d ⟨⟩
    | some c =>
      refine ⟨⟨hupdate _ c (accepts_noArrow hc), h.loop, h.dec⟩, ?_⟩
      rintro d ⟨⟩
  | getchar =>
    simp only [keyboardStep, getcharStep]
    cases hpc : k.pc with
    | wait =>
      simp only
      split
      · refine ⟨h, ?_⟩
        rintro d ⟨⟩
      · refine ⟨typed_idle h.buffer (.inr rfl), ?_⟩
        rintro d ⟨⟩
    | head =>
      refine ⟨typed_loop h.buffer rfl (h.buffer 0), ?_⟩
      rintro d ⟨⟩
    | loop c i =>
      have hc := h.loop c i hpc
      simp only
      split
      · refine ⟨typed_loop (hupdate i _ (h.buffer (i + 1))) rfl hc, ?_⟩
        rintro d ⟨⟩
      · refine ⟨typed_dec h.buffer rfl hc, ?_⟩
        rintro d ⟨⟩
    | dec c =>
      refine ⟨typed_idle h.buffer (.inl rfl), ?_⟩
      rintro d ⟨⟩
      exact h.dec c hpc

/-! ### No entry is recalled -/

/-- No entry has been recalled. -/
structure Unrecalled (e : Shell ρ) : Prop where
  current : e.currentHistory = -1
  recalls : e.recalls = []

theorem storeHistory_recalls {cmd : List UInt8} (h : storeHistory e cmd = some e') : e'.recalls = e.recalls := by
  simp only [storeHistory, Option.bind_eq_bind, Option.bind_eq_some_iff] at h
  obtain ⟨j, -, row, -, h⟩ := h
  cases h
  rfl

theorem addToHistory_recalls {cmd : List UInt8} (h : addToHistory e cmd = some e') : e'.recalls = e.recalls := by
  unfold addToHistory at h
  split at h
  · cases h
    rfl
  · split at h
    · simp only [Option.bind_eq_bind, Option.bind_eq_some_iff] at h
      obtain ⟨j, -, last, -, h⟩ := h
      split at h
      · cases h
        rfl
      · exact storeHistory_recalls h
    · exact storeHistory_recalls h

theorem Unrecalled.enter (h : Unrecalled e) (he : enter K e = some e') : Unrecalled e' := by
  simp only [Kernel.enter, Option.bind_eq_bind, Option.bind_eq_some_iff] at he
  obtain ⟨input, -, line, -, e₁, hadd, he⟩ := he
  have hrecalls : e₁.recalls = [] := (addToHistory_recalls hadd).trans h.recalls
  split at he
  · cases he
    exact ⟨rfl, hrecalls⟩
  · simp only [newLine, Option.bind_eq_bind, Option.bind_eq_some_iff] at he
    obtain ⟨input, -, he⟩ := he
    cases he
    exact ⟨rfl, hrecalls⟩

theorem Unrecalled.complete (h : Unrecalled e) (he : complete e = some e') : Unrecalled e' := by
  unfold Kernel.complete at he
  split at he
  · simp only [Option.bind_eq_bind, Option.bind_eq_some_iff] at he
    obtain ⟨line, -, he⟩ := he
    split at he
    · cases he
      exact h
    · unfold completeWith at he
      split at he
      · cases he
      · simp only [Option.bind_eq_bind, Option.bind_eq_some_iff] at he
        obtain ⟨input, -, new, -, he⟩ := he
        cases he
        exact ⟨h.current, h.recalls⟩
  · cases he
    exact h

/-- **A character that is not an arrow** recalls no entry. -/
theorem Unrecalled.step (h : Unrecalled e) (hc : NoArrow c) (he : shellStep K e c = some e') : Unrecalled e' := by
  unfold shellStep at he
  split_ifs at he with hrun h13 h8 hup hdown h9 hins
  · cases he
    exact h
  · exact h.enter K he
  · simp only [Option.bind_eq_bind, Option.bind_eq_some_iff] at he
    obtain ⟨input, -, he⟩ := he
    cases he
    exact ⟨h.current, h.recalls⟩
  · exact absurd hup.1 hc.1
  · exact absurd hdown.1 hc.2
  · exact h.complete he
  · simp only [insert, Option.bind_eq_bind, Option.bind_eq_some_iff] at he
    obtain ⟨input, -, input', -, he⟩ := he
    cases he
    exact ⟨h.current, h.recalls⟩
  · cases he
    exact h

/-! ### Any session -/

/-- What holds of the two together. -/
structure Quiet (s : Console ρ) : Prop where
  typed : Typed s.keyboard
  shell : ∃ e line, s.shell = some e ∧ Editing e line ∧ Unrecalled e

theorem start_quiet (rest : ρ) (stack : Fin 127 → UInt8) : Quiet (Console.start rest stack) :=
  ⟨initial_typed, _, [], rfl, start_editing rest stack, rfl, rfl⟩

theorem Quiet.step {s : Console ρ} (h : Quiet s) (event : Event) : Quiet (consoleStep K s event).2 := by
  obtain ⟨htyped, hreturned⟩ := typed_step h.typed event
  obtain ⟨e, line, hshell, hediting, hquiet⟩ := h.shell
  refine ⟨htyped, ?_⟩
  simp only [consoleStep]
  cases hout : (keyboardStep s.keyboard event).1 with
  | quiet => exact ⟨e, line, hshell, hediting, hquiet⟩
  | accepted c => exact ⟨e, line, hshell, hediting, hquiet⟩
  | returned c =>
    obtain ⟨e', line', he', hediting'⟩ := hediting.step (K := K) c
    refine ⟨e', line', ?_, hediting', hquiet.step K (hreturned c hout) he'⟩
    simp only [hshell, Option.bind_some, he']

theorem Quiet.run {s : Console ρ} (h : Quiet s) (events : List Event) : Quiet (run (consoleStep K) s events).2 :=
  run_inv' (fun _ event hs => hs.step K event) h events

/-- The arrow keys do not do what they are to do where there is an entry to recall: Up leaves the shell
showing no entry. -/
theorem Quiet.not_arrowLaw {s : Console ρ} (h : Quiet s) {e : Shell ρ} (hshell : s.shell = some e)
    (hstored : e.stored ≠ []) : ¬ ArrowLaw K s e := by
  intro hlaw
  obtain ⟨e₀, -, hshell₀, -, hquiet₀⟩ := h.shell
  rw [hshell] at hshell₀
  cases hshell₀
  obtain ⟨n, e', hshell', hcurrent, -⟩ := hlaw.up
  obtain ⟨e₁, -, hshell₁, -, hquiet₁⟩ := (h.run K (.interrupt 0x48 :: List.replicate n .getchar)).shell
  rw [press, hshell₁] at hshell'
  cases hshell'
  have hpos := List.length_pos_iff.mpr hstored
  rw [hquiet₁.current, if_pos hquiet₀.current] at hcurrent
  omega

/-- **The arrow keys never reach the history**: in any session, whatever the keys and however the
interrupts fall, no entry is recalled, and once a line is stored the law of the arrow keys is false. -/
theorem arrowKeys_never (rest : ρ) (stack : Fin 127 → UInt8) (events : List Event) :
    ∃ e, (run (consoleStep K) (Console.start rest stack) events).2.shell = some e ∧ e.recalls = [] ∧
      (e.stored ≠ [] → ¬ ArrowLaw K (run (consoleStep K) (Console.start rest stack) events).2 e) := by
  have hquiet := (start_quiet rest stack).run K events
  obtain ⟨e, line, hshell, -, hrecalls⟩ := hquiet.shell
  exact ⟨e, hshell, hrecalls.recalls, hquiet.not_arrowLaw K hshell⟩

/-- `l`, `s` and Enter, each consumed. -/
def lsKeys : List Event :=
  [0x26, 0x1F, 0x1C].flatMap fun scancode => .interrupt scancode :: List.replicate 4 .getchar

/-- Up after `ls`. -/
theorem not_forall_arrowLaw : ¬ ∀ (K : Commands Unit) (events : List Event) (e : Shell Unit),
    (run (consoleStep K) (Console.start () fun _ => 0) events).2.shell = some e →
      0 < e.stored.length → e.stored.length < 10 →
      ArrowLaw K (run (consoleStep K) (Console.start () fun _ => 0) events).2 e := by
  intro h
  let K : Commands Unit := ⟨fun _ _ => (), fun _ => true⟩
  have hquiet := (start_quiet () fun _ => 0).run K lsKeys
  have hstored : ((run (consoleStep K) (Console.start () fun _ => 0) lsKeys).2.shell.map Shell.stored) =
      some [ascii ['l', 's']] := by decide +kernel
  obtain ⟨e, hshell, hlines⟩ := Option.map_eq_some_iff.mp hstored
  exact hquiet.not_arrowLaw K hshell (by rw [hlines]; nofun)
    (h K lsKeys e hshell (by rw [hlines]; decide) (by rw [hlines]; decide))

end Basedos.Kernel
