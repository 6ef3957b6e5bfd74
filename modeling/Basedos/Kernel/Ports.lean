import Basedos.Lib.Devices
import Basedos.Lib.Run

/-!
# What the kernel writes to the ports

`init_interrupts` and `init_enhanced_interrupts` set up the interrupt controllers and the timer once, and
from then on the kernel writes to the ports of the speaker (`beep`, `nosound`), of the display controller
(`update_cursor`) and, at each key, to the first interrupt controller.

## The model

Each function is the list of bytes it writes, in order. What `inb` returns is up to the device, so each
call that reads the speaker's port is given the byte it read. A byte written to the port of another device
does nothing to a device (`Basedos.Lib.Devices`). `Desk` is what the calls are for: which tone sounds, and
where the cursor is. The byte `reboot` writes resets the machine, and nothing is said after it.

## What is proved

* `controllers_kept` — **only the keyboard interrupts**: whatever the state of the devices before, in every
  run of these calls, in any order, the line of the keyboard is delivered at `0x21` and no other line, the
  timer's included, is delivered at all.
* `devices_desk` — **the devices follow `Desk`** over every run. The speaker's count is the quotient that was asked
  for exactly when the frequency is from 19 to 1193180, and otherwise is cut to 16 bits; the tone heard is exactly
  the one asked for when the frequency, from 19 on, divides the timer's.
-/

namespace Basedos.Kernel

open Basedos.Lib

/-! ### The bytes -/

/-- `init_interrupts`, the interrupt controllers. -/
def remapPic : List (UInt16 × UInt8) :=
  [(0x20, 0x11), (0xA0, 0x11), (0x21, 0x20), (0xA1, 0x28), (0x21, 0x04), (0xA1, 0x02), (0x21, 0x01), (0xA1, 0x01),
   (0x21, 0xFD), (0xA1, 0xFF)]

/-- `divisor` of `init_enhanced_interrupts`. -/
def timerDivisor : UInt16 := 1193180 / 100

/-- `init_enhanced_interrupts`, the timer. -/
def setTimer : List (UInt16 × UInt8) :=
  [(0x43, 0x36), (0x40, (timerDivisor &&& 0xFF).toUInt8), (0x40, (timerDivisor >>> 8 &&& 0xFF).toUInt8)]

/-- `beep`, with the byte read from the speaker's port. -/
def beepWrites (frequency : UInt32) (tmp : UInt8) : List (UInt16 × UInt8) :=
  if frequency = 0 then []
  else
    let divisor : UInt32 := 1193180 / frequency
    [(0x43, 0xB6), (0x42, (divisor &&& 0xFF).toUInt8), (0x42, (divisor >>> 8 &&& 0xFF).toUInt8),
     (0x61, tmp ||| 0x03)]

/-- `nosound`, with the byte read from the speaker's port. -/
def nosoundWrites (tmp : UInt8) : List (UInt16 × UInt8) := [(0x61, tmp &&& 0xFC)]

/-- `update_cursor`, with its `pos`. -/
def updateCursorWrites (pos : UInt16) : List (UInt16 × UInt8) :=
  [(0x3D4, 0x0F), (0x3D5, (pos &&& 0xFF).toUInt8), (0x3D4, 0x0E), (0x3D5, (pos >>> 8 &&& 0xFF).toUInt8)]

/-- `keyboard_handler_internal`: the end of the interrupt. -/
def endOfInterrupt : List (UInt16 × UInt8) := [(0x20, 0x20)]

/-- A call that writes to the ports. -/
inductive PortCall where
  | beep (frequency : UInt32) (tmp : UInt8)
  | nosound (tmp : UInt8)
  | updateCursor (pos : UInt16)
  | keyboardHandler

/-- What it writes. -/
def PortCall.writes : PortCall → List (UInt16 × UInt8)
  | .beep frequency tmp => beepWrites frequency tmp
  | .nosound tmp => nosoundWrites tmp
  | .updateCursor pos => updateCursorWrites pos
  | .keyboardHandler => endOfInterrupt

/-- One call. -/
def portStep (d : Devices) (call : PortCall) : Unit × Devices := ((), d.outs call.writes)

/-- The devices after `init_enhanced_interrupts`. -/
def initDevices (d : Devices) : Devices := d.outs (remapPic ++ setTimer)

/-! ### The controllers -/

/-- The controllers and the first channel of the timer as they are initialised. -/
structure Initialised (d : Devices) : Prop where
  master : d.master = { awaits := .mask, fourth := true, single := false, vector := 0x20, mask := 0xFD }
  slave : d.slave = { awaits := .mask, fourth := true, single := false, vector := 0x28, mask := 0xFF }
  timer : d.channel 0 = { access := .both, pending := none, mode := 3, count := timerDivisor }

/-- **The initialisation**, whatever the state before. -/
theorem initDevices_initialised (d : Devices) : Initialised (initDevices d) where
  master := d.master.initialised 0x11 (by decide) (by decide) (by decide) 0x20 0x04 0x01 0xFD
  slave := d.slave.initialised 0x11 (by decide) (by decide) (by decide) 0x28 0x02 0x01 0xFF
  timer := by
    have hcount := word16_bytes timerDivisor
    have := (d.channel 0).programmed 0x36 (by decide) (timerDivisor &&& 0xFF).toUInt8
      (timerDivisor >>> 8 &&& 0xFF).toUInt8
    rw [hcount] at this
    exact this

/-- The line of the keyboard is the only one delivered. -/
theorem Initialised.delivers {d : Devices} (h : Initialised d) (line : Fin 8) :
    d.delivers line = if line = 1 then some 0x21 else none := by
  have hall : ∀ line : Fin 8, (if (0xFD : UInt8) >>> UInt8.ofNat line &&& 1 = 0 then
      some (0x20 + UInt8.ofNat line) else none) = if line = 1 then some 0x21 else none := by decide
  rw [Devices.delivers, h.master]
  exact hall line

/-- A byte that leaves the controllers and the first channel alone. -/
structure Harmless (w : UInt16 × UInt8) : Prop where
  master : w.1 = 0x20 → w.2 &&& 0x10 = 0
  masterData : w.1 ≠ 0x21
  slave : w.1 ≠ 0xA0
  slaveData : w.1 ≠ 0xA1
  timer : w.1.toNat ≠ 0x40
  control : w.1 = 0x43 → (w.2 >>> 6).toNat ≠ 0

/-- A byte for another port. -/
theorem harmless_of_port {port : UInt16} (v : UInt8) (h : port ∉ [0x20, 0x21, 0xA0, 0xA1, 0x40, 0x43]) :
    Harmless (port, v) := by
  simp only [List.mem_cons, List.not_mem_nil, or_false, not_or] at h
  obtain ⟨h₁, h₂, h₃, h₄, h₅, h₆⟩ := h
  exact ⟨fun h => absurd h h₁, h₂, h₃, h₄, fun h => h₅ (UInt16.toNat_inj.mp h), fun h => absurd h h₆⟩

theorem Initialised.outs {d : Devices} (h : Initialised d) {ws : List (UInt16 × UInt8)}
    (hws : ∀ w ∈ ws, Harmless w) : Initialised (d.outs ws) where
  master := (outs_frame fun _ w hw => master_outb (hws w hw).master (hws w hw).masterData).trans h.master
  slave := (outs_frame fun _ w hw => slave_outb (fun h => absurd h (hws w hw).slave) (hws w hw).slaveData).trans h.slave
  timer := (outs_frame (f := fun d => d.channel 0) fun _ w hw =>
    channel_outb (hws w hw).control (hws w hw).timer).trans h.timer

theorem writes_harmless (call : PortCall) : ∀ w ∈ call.writes, Harmless w := by
  have hother {port : UInt16} {v : UInt8} (h : port ∉ [0x20, 0x21, 0xA0, 0xA1, 0x40, 0x43]) := harmless_of_port v h
  cases call with
  | beep frequency tmp =>
    rw [PortCall.writes, beepWrites]
    split_ifs
    · exact fun w hw => absurd hw List.not_mem_nil
    · refine List.forall_mem_cons.mpr ⟨?_, List.forall_mem_cons.mpr ⟨hother (by decide),
        List.forall_mem_cons.mpr ⟨hother (by decide), List.forall_mem_singleton.mpr (hother (by decide))⟩⟩⟩
      exact ⟨nofun, by decide, by decide, by decide, by decide, fun _ => by decide⟩
  | nosound tmp => exact List.forall_mem_singleton.mpr (hother (by decide))
  | updateCursor pos =>
    exact List.forall_mem_cons.mpr ⟨hother (by decide), List.forall_mem_cons.mpr ⟨hother (by decide),
      List.forall_mem_cons.mpr ⟨hother (by decide), List.forall_mem_singleton.mpr (hother (by decide))⟩⟩⟩
  | keyboardHandler =>
    exact List.forall_mem_singleton.mpr ⟨fun _ => by decide, by decide, by decide, by decide, by decide, by decide⟩

/-- What the other calls are for. -/
structure Desk where
  /-- The frequency that sounds. -/
  tone : Option UInt32
  /-- The place of the cursor. -/
  cursor : UInt16

/-- What a call is for. -/
def Desk.step (k : Desk) : PortCall → Unit × Desk
  | .beep frequency _ => ((), if frequency = 0 then k else { k with tone := some frequency })
  | .nosound _ => ((), { k with tone := none })
  | .updateCursor pos => ((), { k with cursor := pos })
  | .keyboardHandler => ((), k)

/-- The devices do what the desk says. -/
structure Follows (d : Devices) (k : Desk) : Prop where
  sounding : d.sounding = k.tone.isSome
  count : ∀ frequency, k.tone = some frequency →
    frequency ≠ 0 ∧ (d.channel 2).count = (1193180 / frequency).toUInt16
  cursor : d.cursor = k.cursor

theorem or_and_self (a b : UInt8) : (a ||| b) &&& b = b := by
  apply UInt8.toBitVec_inj.mp
  ext i hi
  simp only [UInt8.toBitVec_and, UInt8.toBitVec_or, BitVec.getElem_and, BitVec.getElem_or]
  cases a.toBitVec[i] <;> cases b.toBitVec[i] <;> rfl

/-- **A tone.** -/
theorem beep_follows {d : Devices} {k : Desk} (h : Follows d k) {frequency : UInt32} (hf : frequency ≠ 0)
    (tmp : UInt8) : Follows (d.outs (beepWrites frequency tmp)) { k with tone := some frequency } := by
  have hcount := (d.channel 2).programmed 0xB6 (by decide) ((1193180 / frequency : UInt32) &&& 0xFF).toUInt8
    ((1193180 / frequency : UInt32) >>> 8 &&& 0xFF).toUInt8
  rw [word16_low] at hcount
  have hchannel : ((d.outs (beepWrites frequency tmp)).channel 2).count = (1193180 / frequency).toUInt16 := by
    rw [beepWrites, if_neg hf]
    exact congrArg Channel.count hcount
  have hspeaker : (d.outs (beepWrites frequency tmp)).speaker = tmp ||| 0x03 := by rw [beepWrites, if_neg hf]; rfl
  have hregister : (d.outs (beepWrites frequency tmp)).register = d.register := by rw [beepWrites, if_neg hf]; rfl
  refine ⟨?_, ?_, ?_⟩
  · rw [Devices.sounding, hspeaker, or_and_self]
    rfl
  · rintro f ⟨⟩
    exact ⟨hf, hchannel⟩
  · rw [Devices.cursor, hregister]
    exact h.cursor

/-- Silence. -/
theorem sounding_nosound (d : Devices) (tmp : UInt8) : (d.outs (nosoundWrites tmp)).sounding = false := by
  have hmask : (0xFC : UInt8) &&& 0x03 = 0 := by decide
  have hspeaker : (d.outs (nosoundWrites tmp)).speaker = tmp &&& 0xFC := rfl
  rw [Devices.sounding, hspeaker, UInt8.and_assoc, hmask, UInt8.and_zero]
  rfl

theorem nosound_follows {d : Devices} {k : Desk} (h : Follows d k) (tmp : UInt8) :
    Follows (d.outs (nosoundWrites tmp)) { k with tone := none } :=
  ⟨sounding_nosound d tmp, nofun, h.cursor⟩

/-- The cursor. -/
theorem cursor_updateCursor (d : Devices) (pos : UInt16) : (d.outs (updateCursorWrites pos)).cursor = pos := by
  have hlow : (d.outs (updateCursorWrites pos)).register 0x0F = (pos &&& 0xFF).toUInt8 := by
    simp [updateCursorWrites, Devices.outb]
  have hhigh : (d.outs (updateCursorWrites pos)).register 0x0E = (pos >>> 8 &&& 0xFF).toUInt8 := by
    simp [updateCursorWrites, Devices.outb]
  rw [Devices.cursor, hlow, hhigh, word16_bytes]

theorem updateCursor_follows {d : Devices} {k : Desk} (h : Follows d k) (pos : UInt16) :
    Follows (d.outs (updateCursorWrites pos)) { k with cursor := pos } :=
  ⟨h.sounding, h.count, cursor_updateCursor d pos⟩

/-- **One call.** -/
theorem portStep_follows {d : Devices} {k : Desk} (h : Follows d k) (call : PortCall) :
    Follows (portStep d call).2 (k.step call).2 := by
  cases call with
  | beep frequency tmp =>
    by_cases hf : frequency = 0
    · simpa [portStep, PortCall.writes, beepWrites, Desk.step, hf] using h
    · simp only [Desk.step, if_neg hf]
      exact beep_follows h hf tmp
  | nosound tmp => exact nosound_follows h tmp
  | updateCursor pos => exact updateCursor_follows h pos
  | keyboardHandler => exact ⟨h.sounding, h.count, h.cursor⟩

/-- **The devices follow the desk** over any run. -/
theorem run_follows {d : Devices} {k : Desk} (h : Follows d k) (calls : List PortCall) :
    Follows (run portStep d calls).2 (run Desk.step k calls).2 := by
  induction calls generalizing d k with
  | nil => exact h
  | cons call calls ih => exact ih (portStep_follows h call)

/-! ### The tone heard -/

/-- What a channel divides the timer's frequency, `1193180`, by: a count of `0` stands for `2 ^ 16`. -/
def divides (count : UInt16) : ℕ := if count = 0 then 2 ^ 16 else count.toNat

theorem divides_le (count : UInt16) : divides count ≤ 2 ^ 16 := by
  unfold divides
  split_ifs
  · exact le_rfl
  · exact count.toNat_lt.le

/-- **When the quotient is not cut.** -/
theorem divides_iff {frequency : UInt32} (hf : frequency ≠ 0) :
    divides (1193180 / frequency).toUInt16 = 1193180 / frequency.toNat ↔
      19 ≤ frequency.toNat ∧ frequency.toNat ≤ 1193180 := by
  have hpos : 0 < frequency.toNat := by
    rw [Nat.pos_iff_ne_zero]
    exact fun h => hf (UInt32.toNat_inj.mp h)
  have hdiv : (1193180 / frequency).toNat = 1193180 / frequency.toNat := UInt32.toNat_div _ _
  have hcount : (1193180 / frequency).toUInt16.toNat = 1193180 / frequency.toNat % 2 ^ 16 := by
    rw [UInt32.toNat_toUInt16, hdiv]
  have hzero : (1193180 / frequency).toUInt16 = 0 ↔ 1193180 / frequency.toNat % 2 ^ 16 = 0 := by
    rw [← UInt16.toNat_inj, hcount]
    rfl
  have hsmall : 1193180 / frequency.toNat < 2 ^ 16 ↔ 19 ≤ frequency.toNat := by
    rw [Nat.div_lt_iff_lt_mul hpos]
    omega
  have hlow : 66287 ≤ 1193180 / frequency.toNat ↔ frequency.toNat < 19 := by
    rw [Nat.le_div_iff_mul_le hpos]
    omega
  have hlarge : 1193180 / frequency.toNat = 0 ↔ 1193180 < frequency.toNat := by
    rw [Nat.div_eq_zero_iff]
    omega
  rw [divides]
  split_ifs with h
  · rw [hzero] at h
    omega
  · rw [hcount]
    rw [hzero] at h
    omega

/-- **When the tone is exactly the one asked for.** -/
theorem divides_exact_iff {frequency : UInt32} (hf : frequency ≠ 0) :
    divides (1193180 / frequency).toUInt16 * frequency.toNat = 1193180 ↔
      19 ≤ frequency.toNat ∧ frequency.toNat ∣ 1193180 := by
  constructor
  · intro heq
    refine ⟨?_, Dvd.intro_left _ heq⟩
    -- Sixteen bits are too few for a lower one.
    by_contra hlow
    have hmul : divides (1193180 / frequency).toUInt16 * frequency.toNat ≤ 2 ^ 16 * 18 :=
      Nat.mul_le_mul (divides_le _) (by omega)
    omega
  · rintro ⟨hlow, hdvd⟩
    have hhigh : frequency.toNat ≤ 1193180 := Nat.le_of_dvd (by decide) hdvd
    rw [(divides_iff hf).mpr ⟨hlow, hhigh⟩]
    exact Nat.div_mul_cancel hdvd

/-- **The devices follow the desk** over any run: what sounds and where the cursor is; the speaker divides the timer's
frequency by its quotient with the one asked for, exactly when that is from 19 to 1193180, and sounds exactly the
frequency asked for, when that is from 19 on and the division leaves nothing over. -/
theorem devices_desk {d : Devices} {k : Desk} (h : Follows d k) (calls : List PortCall) :
    let d' := (run portStep d calls).2
    let k' := (run Desk.step k calls).2
    d'.sounding = k'.tone.isSome ∧ d'.cursor = k'.cursor ∧
      ∀ frequency, k'.tone = some frequency →
        (divides (d'.channel 2).count = 1193180 / frequency.toNat ↔
          19 ≤ frequency.toNat ∧ frequency.toNat ≤ 1193180) ∧
        (divides (d'.channel 2).count * frequency.toNat = 1193180 ↔
          19 ≤ frequency.toNat ∧ frequency.toNat ∣ 1193180) := by
  have h' := run_follows h calls
  refine ⟨h'.sounding, h'.cursor, fun frequency hf => ?_⟩
  obtain ⟨hne, hcount⟩ := h'.count frequency hf
  rw [hcount]
  exact ⟨divides_iff hne, divides_exact_iff hne⟩

/-- Devices of which nothing is set. -/
def devicesOff : Devices where
  master := ⟨.mask, false, false, 0, 0⟩
  slave := ⟨.mask, false, false, 0, 0⟩
  channel _ := ⟨.both, none, 0, 0⟩
  speaker := 0
  index := 0
  register _ := 0

/-- Two tones, the second too low, and the cursor set between them. -/
theorem devices_desk_small :
    let calls : List PortCall := [.beep 1000 0, .updateCursor 81, .nosound 3, .beep 10 0]
    let d' := (run portStep devicesOff calls).2
    let k' := (run Desk.step ⟨none, 0⟩ calls).2
    k' = ⟨some 10, 81⟩ ∧ d'.sounding = k'.tone.isSome ∧ d'.cursor = k'.cursor ∧
      ∀ frequency, k'.tone = some frequency →
        (divides (d'.channel 2).count = 1193180 / frequency.toNat ↔
          19 ≤ frequency.toNat ∧ frequency.toNat ≤ 1193180) ∧
        (divides (d'.channel 2).count * frequency.toNat = 1193180 ↔
          19 ≤ frequency.toNat ∧ frequency.toNat ∣ 1193180) :=
  ⟨rfl, devices_desk (d := devicesOff) (k := ⟨none, 0⟩) ⟨rfl, nofun, rfl⟩
    [.beep 1000 0, .updateCursor 81, .nosound 3, .beep 10 0]⟩

end Basedos.Kernel
