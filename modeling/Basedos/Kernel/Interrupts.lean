import Basedos.Lib.Run
import Basedos.Lib.Slice
import Basedos.CLib.String
import Mathlib.Logic.Function.Basic
import Mathlib.Data.List.Infix

/-!
# The keyboard queue

`kernel/interrupts.c`: the interrupt handler puts characters into `key_buffer`, and
`keyboard_getchar` takes the first one out and moves the others down.

## The model

`keyboard_getchar` is run over and over; where it stands is a value of `Pc`, and each of
its steps (the test of the wait, reading the head, one round of the loop, the
decrement) is a step of its own. Between any two of them the handler may run, as one
step, with any scancode. The step that ends a call gives the character returned, and
the handler's step the character it stored, if it stored one. `key_buffer_pos` is an
integer; that it stays in `0..255` is proved (`keyBufferPos_bounds`).

## What is proved

* `run_pending` — **the queue's law**: what was pending and what has been accepted since
  are what has been returned and what is pending now, as long as no character arrives
  between the end of the loop and the decrement.
* `keyboard_queue` — so the characters returned are a prefix of those accepted.
* `not_forall_keyboard_queue` — a character that does arrive there is counted and then
  not: it is lost, and the one before it is returned twice.
-/

namespace Basedos.Kernel

open Basedos.Lib Basedos.CLib

/-! ### The handler -/

/-- `scancode_to_ascii`, for 146 scancodes. -/
def scancodeToAscii : List UInt8 :=
  [0, 0] ++ ascii ['1', '2', '3', '4', '5', '6', '7', '8', '9', '0', '-', '='] ++ [8, 9] ++
    ascii ['q', 'w', 'e', 'r', 't', 'y', 'u', 'i', 'o', 'p', '[', ']'] ++ [13, 0] ++
    ascii ['a', 's', 'd', 'f', 'g', 'h', 'j', 'k', 'l', ';'] ++ [39, 96, 0, 92] ++
    ascii ['z', 'x', 'c', 'v', 'b', 'n', 'm', ',', '.', '/'] ++ [0] ++ ascii ['*'] ++ [0, 32] ++
    List.replicate 88 0

/-- Where `keyboard_getchar` stands. -/
inductive Pc where
  /-- At the test of the wait, or not called. -/
  | wait
  /-- Past the wait. -/
  | head
  /-- At the test of the loop, with `c` and `i`. -/
  | loop (c : UInt8) (i : ℤ)
  /-- Past the loop. -/
  | dec (c : UInt8)
  deriving DecidableEq

/-- The static variables, and where `keyboard_getchar` stands. -/
structure Keyboard where
  /-- `key_buffer`. -/
  keyBuffer : ℤ → UInt8
  /-- `key_buffer_pos`. -/
  keyBufferPos : ℤ
  /-- Where `keyboard_getchar` stands. -/
  pc : Pc

/-- As the kernel is loaded. -/
def Keyboard.initial : Keyboard := ⟨fun _ => 0, 0, .wait⟩

/-- The character the handler stores for a scancode, if it does. -/
def Keyboard.accepts (k : Keyboard) (scancode : UInt8) : Option UInt8 :=
  if scancode &&& 0x80 ≠ 0 then none
  else if scancode.toNat < scancodeToAscii.length then
    let ascii := scancodeToAscii.getD scancode.toNat 0
    if ascii ≠ 0 ∧ k.keyBufferPos < 256 - 1 then some ascii else none
  else none

/-- `keyboard_handler_internal`. -/
def handlerInternal (k : Keyboard) (scancode : UInt8) : Option UInt8 × Keyboard :=
  match k.accepts scancode with
  | none => (none, k)
  | some ascii =>
    (some ascii, { k with
      keyBuffer := Function.update k.keyBuffer k.keyBufferPos ascii
      keyBufferPos := k.keyBufferPos + 1 })

/-- One step of `keyboard_getchar`; the last of them gives the character returned. -/
def getcharStep (k : Keyboard) : Option UInt8 × Keyboard :=
  match k.pc with
  | .wait => (none, if k.keyBufferPos = 0 then k else { k with pc := .head })
  | .head => (none, { k with pc := .loop (k.keyBuffer 0) 0 })
  | .loop c i =>
    if i < k.keyBufferPos - 1 then
      (none, { k with
        keyBuffer := Function.update k.keyBuffer i (k.keyBuffer (i + 1)), pc := .loop c (i + 1) })
    else (none, { k with pc := .dec c })
  | .dec c => (some c, { k with keyBufferPos := k.keyBufferPos - 1, pc := .wait })

/-! ### Interleavings -/

/-- What happens next. -/
inductive Event where
  /-- A step of `keyboard_getchar`. -/
  | getchar
  /-- An interrupt, with the scancode read. -/
  | interrupt (scancode : UInt8)
  deriving DecidableEq

/-- What can be seen of a step. -/
inductive Output where
  /-- Nothing. -/
  | quiet
  /-- The handler has stored a character. -/
  | accepted (c : UInt8)
  /-- A call of `keyboard_getchar` has returned. -/
  | returned (c : UInt8)
  deriving DecidableEq

/-- One step. -/
def keyboardStep (k : Keyboard) : Event → Output × Keyboard
  | .getchar => let r := getcharStep k; (r.1.elim .quiet .returned, r.2)
  | .interrupt scancode => let r := handlerInternal k scancode; (r.1.elim .quiet .accepted, r.2)

/-- The characters accepted, in order. -/
def accepted (os : List Output) : List UInt8 := os.filterMap fun | .accepted c => some c | _ => none

/-- The characters returned, in order. -/
def returned (os : List Output) : List UInt8 := os.filterMap fun | .returned c => some c | _ => none

/-- No character arrives between the end of the loop and the decrement. -/
def Undisturbed (k : Keyboard) : Event → Prop
  | .getchar => True
  | .interrupt scancode => (∃ c, k.pc = .dec c) → k.accepts scancode = none

instance (k : Keyboard) : ∀ e, Decidable (Undisturbed k e)
  | .getchar => inferInstanceAs (Decidable True)
  | .interrupt scancode =>
    match h : k.pc with
    | .dec c => decidable_of_iff (k.accepts scancode = none) (by simp [Undisturbed, h])
    | .wait | .head | .loop _ _ => isTrue (by simp [Undisturbed, h])

/-! ### The invariant -/

/-- A call that is past its wait has a character to take, and its loop stays below the position. -/
structure Keyboard.Ok (k : Keyboard) : Prop where
  nonneg : 0 ≤ k.keyBufferPos
  le : k.keyBufferPos ≤ 255
  pos : k.pc ≠ .wait → 0 < k.keyBufferPos
  loop : ∀ c i, k.pc = .loop c i → 0 ≤ i ∧ i ≤ k.keyBufferPos - 1

theorem Keyboard.initial_ok : Keyboard.initial.Ok := ⟨by decide, by decide, fun h => absurd rfl h, nofun⟩

theorem accepts_lt {k : Keyboard} {scancode c : UInt8} (h : k.accepts scancode = some c) :
    k.keyBufferPos < 255 := by
  unfold Keyboard.accepts at h
  split at h
  · cases h
  · split at h
    · simp only at h
      split at h
      · next hlt => exact hlt.2
      · cases h
    · cases h

/-- Every step keeps the invariant. -/
theorem Keyboard.Ok.step {k : Keyboard} (h : k.Ok) (e : Event) : (keyboardStep k e).2.Ok := by
  have hnonneg := h.nonneg
  have hle := h.le
  cases e with
  | interrupt scancode =>
    simp only [keyboardStep, handlerInternal]
    cases hc : k.accepts scancode with
    | none => exact h
    | some c =>
      have hlt := accepts_lt hc
      refine ⟨by simp only; omega, by simp only; omega, fun _ => by simp only; omega, fun c i hi => ?_⟩
      obtain ⟨h₀, h₁⟩ := h.loop c i hi
      exact ⟨h₀, by simp only; omega⟩
  | getchar =>
    simp only [keyboardStep, getcharStep]
    cases hpc : k.pc with
    | wait =>
      simp only
      split
      · exact h
      · next hne => exact ⟨hnonneg, hle, fun _ => by simp only; omega, nofun⟩
    | head =>
      have hpos := h.pos (by rw [hpc]; nofun)
      refine ⟨hnonneg, hle, fun _ => hpos, fun c i hi => ?_⟩
      cases hi
      exact ⟨le_rfl, by simp only; omega⟩
    | loop c i =>
      have hpos := h.pos (by rw [hpc]; nofun)
      obtain ⟨h₀, h₁⟩ := h.loop c i hpc
      simp only
      split
      · refine ⟨hnonneg, hle, fun _ => hpos, fun c' j hj => ?_⟩
        cases hj
        exact ⟨by omega, by simp only; omega⟩
      · exact ⟨hnonneg, hle, fun _ => hpos, nofun⟩
    | dec c =>
      have hpos := h.pos (by rw [hpc]; nofun)
      exact ⟨by simp only; omega, by simp only; omega, fun hne => absurd rfl hne, nofun⟩

/-- **The position stays in `0..255`**, whatever the interleaving. -/
theorem keyBufferPos_bounds (events : List Event) :
    0 ≤ (run keyboardStep .initial events).2.keyBufferPos ∧
      (run keyboardStep .initial events).2.keyBufferPos ≤ 255 := by
  have h := run_inv' (I := Keyboard.Ok) (fun _ e hk => hk.step e) Keyboard.initial_ok events
  exact ⟨h.nonneg, h.le⟩

/-! ### What is pending -/

/-- The characters waiting to be returned, where no character has arrived past the loop. -/
def Keyboard.pending (k : Keyboard) : List UInt8 :=
  match k.pc with
  | .wait | .head => slice k.keyBuffer 0 k.keyBufferPos
  | .loop c i => c :: (slice k.keyBuffer 0 i ++ slice k.keyBuffer (i + 1) k.keyBufferPos)
  | .dec c => c :: slice k.keyBuffer 0 (k.keyBufferPos - 1)

/-- A store leaves a slice that ends before it. -/
theorem slice_update {f : ℤ → UInt8} {a b p : ℤ} (h : p < a ∨ b ≤ p) (c : UInt8) :
    slice (Function.update f p c) a b = slice f a b :=
  slice_congr fun i h₁ h₂ => Function.update_of_ne (by omega) c f

/-- **One step**: what is accepted joins the end of what is pending, what is returned leaves its
head. -/
theorem step_pending {k : Keyboard} (h : k.Ok) {e : Event} (he : Undisturbed k e) :
    k.pending ++ accepted [(keyboardStep k e).1] =
      returned [(keyboardStep k e).1] ++ (keyboardStep k e).2.pending := by
  have hnonneg := h.nonneg
  cases e with
  | interrupt scancode =>
    simp only [keyboardStep, handlerInternal]
    cases hc : k.accepts scancode with
    | none => simp [accepted, returned]
    | some c =>
      have hstore : slice (Function.update k.keyBuffer k.keyBufferPos c) 0 (k.keyBufferPos + 1) =
          slice k.keyBuffer 0 k.keyBufferPos ++ [c] := by
        rw [slice_succ hnonneg, slice_update (.inr le_rfl), Function.update_self]
      cases hpc : k.pc with
      | wait => simp [Keyboard.pending, hpc, accepted, returned, hstore]
      | head => simp [Keyboard.pending, hpc, accepted, returned, hstore]
      | loop d i =>
        obtain ⟨h₀, h₁⟩ := h.loop d i hpc
        have hrest : slice (Function.update k.keyBuffer k.keyBufferPos c) (i + 1) (k.keyBufferPos + 1) =
            slice k.keyBuffer (i + 1) k.keyBufferPos ++ [c] := by
          rw [slice_succ (by omega), slice_update (.inr le_rfl), Function.update_self]
        have hfirst : slice (Function.update k.keyBuffer k.keyBufferPos c) 0 i = slice k.keyBuffer 0 i :=
          slice_update (.inr (by omega)) c
        simp [Keyboard.pending, hpc, accepted, returned, hrest, hfirst]
      | dec d =>
        have hnone := he ⟨d, hpc⟩
        rw [hc] at hnone
        cases hnone
  | getchar =>
    simp only [keyboardStep, getcharStep]
    cases hpc : k.pc with
    | wait =>
      simp only [Option.elim_none]
      split <;> simp [Keyboard.pending, hpc, accepted, returned]
    | head =>
      have hpos := h.pos (by rw [hpc]; nofun)
      simp [Keyboard.pending, hpc, accepted, returned, slice_eq_cons hpos, slice_of_le]
    | loop c i =>
      obtain ⟨h₀, h₁⟩ := h.loop c i hpc
      simp only
      split
      · next hlt =>
        -- the element moved down leaves the slice above and joins the one below
        have hfirst : slice (Function.update k.keyBuffer i (k.keyBuffer (i + 1))) 0 (i + 1) =
            slice k.keyBuffer 0 i ++ [k.keyBuffer (i + 1)] := by
          rw [slice_succ h₀, slice_update (.inr le_rfl), Function.update_self]
        have hrest : slice (Function.update k.keyBuffer i (k.keyBuffer (i + 1))) (i + 1 + 1) k.keyBufferPos =
            slice k.keyBuffer (i + 1 + 1) k.keyBufferPos := slice_update (.inl (by omega)) _
        simp [Keyboard.pending, hpc, accepted, returned, hfirst, hrest,
          slice_eq_cons (show i + 1 < k.keyBufferPos by omega)]
      · next hge =>
        have hi : i = k.keyBufferPos - 1 := by omega
        subst hi
        simp [Keyboard.pending, hpc, accepted, returned, slice_of_le]
    | dec c => simp [Keyboard.pending, hpc, accepted, returned]

/-- **Any run**: what was pending and has been accepted is what has been returned and is pending. -/
theorem run_pending {k : Keyboard} (h : k.Ok) {events : List Event}
    (hu : Along keyboardStep Undisturbed k events) :
    k.pending ++ accepted (run keyboardStep k events).1 =
      returned (run keyboardStep k events).1 ++ (run keyboardStep k events).2.pending := by
  induction events generalizing k with
  | nil => simp [accepted, returned]
  | cons e es ih =>
    have hstep := step_pending h hu.1
    have hrun := ih (h.step e) hu.2
    have hacc : ∀ o os, accepted (o :: os) = accepted [o] ++ accepted os := fun o os =>
      List.filterMap_append (l := [o])
    have hret : ∀ o os, returned (o :: os) = returned [o] ++ returned os := fun o os =>
      List.filterMap_append (l := [o])
    rw [run_cons, hacc, hret, ← List.append_assoc, hstep, List.append_assoc, hrun, List.append_assoc]

/-- **The keyboard queue**: when no character arrives between the end of a loop and the decrement,
the characters returned are a prefix of those accepted, and the position stays in `0..255`. -/
theorem keyboard_queue (events : List Event) (hu : Along keyboardStep Undisturbed .initial events) :
    returned (run keyboardStep .initial events).1 <+: accepted (run keyboardStep .initial events).1 ∧
      0 ≤ (run keyboardStep .initial events).2.keyBufferPos ∧
      (run keyboardStep .initial events).2.keyBufferPos ≤ 255 := by
  have h := run_pending Keyboard.initial_ok hu
  have hnil : Keyboard.initial.pending = [] := slice_of_le le_rfl
  rw [hnil, List.nil_append] at h
  exact ⟨⟨_, h.symm⟩, keyBufferPos_bounds events⟩

/-- Two keys, the second pressed after so many steps, and two calls. -/
def twoKeys (n : ℕ) : List Event :=
  .interrupt 30 :: List.replicate n .getchar ++ .interrupt 48 :: List.replicate (9 - n) .getchar

/-- The second key pressed during the loop of the call that returns the first. -/
theorem keyboard_queue_two :
    returned (run keyboardStep .initial (twoKeys 2)).1 <+: accepted (run keyboardStep .initial (twoKeys 2)).1 :=
  (keyboard_queue (twoKeys 2) (by decide +kernel)).1

/-- The second key pressed after the end of the loop: `a` is returned twice, `b` is lost. -/
theorem not_forall_keyboard_queue : ¬ ∀ events : List Event,
    returned (run keyboardStep .initial events).1 <+: accepted (run keyboardStep .initial events).1 :=
  fun h => absurd (h (twoKeys 3)) (by decide +kernel)

end Basedos.Kernel
