import Mathlib.Data.Nat.Bitwise
import Mathlib.Data.UInt
import Mathlib.Logic.Function.Basic

/-!
# The devices of a PC, behind their ports

What bytes written to its ports do to a device, as its data sheet describes them: the two
interrupt controllers (8259A), the interval timer (8254), the speaker's gate and the cursor of the
display controller (6845). A program is seen only through the bytes it writes (`Devices.outb`,
`Devices.outs`), so its properties follow from those of the devices.

A controller takes two to four initialisation words, the first at its command port and the others at
its data port, and after them every byte at the data port is a mask. A channel of the timer set to
take both bytes of its count takes the low one first, and loads the count with the high one. The
display controller writes the register its index was last set to.

## What is proved

* `Pic.initialised`, `Channel.programmed` — the words that initialise a controller, and those that give a
  channel its count, leave it so **whatever the state before**.
* `outs_frame` — what no byte of a program changes is as it was.
-/

namespace Basedos.Lib

/-! ### The interrupt controller -/

/-- What a byte at the data port of a controller is taken for. -/
inductive Awaits where
  | vector | cascade | mode | mask
  deriving DecidableEq

/-- An interrupt controller. -/
structure Pic where
  /-- What it awaits at its data port. -/
  awaits : Awaits
  /-- Is a fourth word to come? -/
  fourth : Bool
  /-- Is there only one controller, and so no third word? -/
  single : Bool
  /-- The vector of its first line. -/
  vector : UInt8
  /-- The masked lines. -/
  mask : UInt8
  deriving DecidableEq

/-- A byte at the command port: with bit 4 set, the first word of an initialisation, which clears the
mask. Without it, a command that changes none of this. -/
def Pic.command (p : Pic) (v : UInt8) : Pic :=
  if v &&& 0x10 ≠ 0 then
    { p with awaits := .vector, fourth := v &&& 0x01 ≠ 0, single := v &&& 0x02 ≠ 0, mask := 0 }
  else p

/-- A byte at the data port. -/
def Pic.data (p : Pic) (v : UInt8) : Pic :=
  match p.awaits with
  | .vector =>
    { p with vector := v &&& 0xF8, awaits := if ¬ p.single then .cascade else if p.fourth then .mode else .mask }
  | .cascade => { p with awaits := if p.fourth then .mode else .mask }
  | .mode => { p with awaits := .mask }
  | .mask => { p with mask := v }

/-! ### The interval timer -/

/-- Which bytes of a count a channel takes. -/
inductive Access where
  | low | high | both
  deriving DecidableEq

/-- A channel of the timer. -/
structure Channel where
  /-- Which bytes of a count it takes. -/
  access : Access
  /-- The low byte, when the high one is still to come. -/
  pending : Option UInt8
  /-- How it counts. -/
  mode : UInt8
  /-- The count it has been given; `0` stands for `2 ^ 16`. -/
  count : UInt16
  deriving DecidableEq

/-- A word from its bytes. -/
def word16 (low high : UInt8) : UInt16 := low.toUInt16 + high.toUInt16 <<< 8

/-- A byte of a count. -/
def Channel.data (c : Channel) (v : UInt8) : Channel :=
  match c.access with
  | .low => { c with count := word16 v 0 }
  | .high => { c with count := word16 0 v }
  | .both =>
    match c.pending with
    | none => { c with pending := some v }
    | some low => { c with pending := none, count := word16 low v }

/-- The control word for a channel: how its count is given, and how it counts. With neither byte asked for it
latches the count for reading, and changes nothing. -/
def Channel.control (c : Channel) (v : UInt8) : Channel :=
  let mode := v >>> 1 &&& 7
  if v >>> 4 &&& 3 = 1 then { c with access := .low, pending := none, mode }
  else if v >>> 4 &&& 3 = 2 then { c with access := .high, pending := none, mode }
  else if v >>> 4 &&& 3 = 3 then { c with access := .both, pending := none, mode }
  else c

/-! ### All of them -/

/-- The devices. -/
structure Devices where
  /-- The first interrupt controller. -/
  master : Pic
  /-- The second. -/
  slave : Pic
  /-- The channels of the timer. -/
  channel : Fin 3 → Channel
  /-- The speaker's port: bit 0 lets channel 2 count, bit 1 lets the speaker follow it. -/
  speaker : UInt8
  /-- The index of the display controller. -/
  index : UInt8
  /-- Its registers. -/
  register : UInt8 → UInt8

/-- A byte written to a port: each device answers to its own. -/
def Devices.outb (d : Devices) (port : UInt16) (v : UInt8) : Devices where
  master := if port = 0x20 then d.master.command v else if port = 0x21 then d.master.data v else d.master
  slave := if port = 0xA0 then d.slave.command v else if port = 0xA1 then d.slave.data v else d.slave
  channel k :=
    if port.toNat = 0x40 + k.val then (d.channel k).data v
    else if port = 0x43 ∧ (v >>> 6).toNat = k.val then (d.channel k).control v
    else d.channel k
  speaker := if port = 0x61 then v else d.speaker
  index := if port = 0x3D4 then v else d.index
  register := if port = 0x3D5 then Function.update d.register d.index v else d.register

/-- Bytes written one after the other. -/
def Devices.outs (d : Devices) (writes : List (UInt16 × UInt8)) : Devices :=
  writes.foldl (fun d w => d.outb w.1 w.2) d

@[simp] theorem Devices.outs_nil (d : Devices) : d.outs [] = d := rfl

@[simp] theorem Devices.outs_cons (d : Devices) (w : UInt16 × UInt8) (ws : List (UInt16 × UInt8)) :
    d.outs (w :: ws) = (d.outb w.1 w.2).outs ws := rfl

/-- Does the speaker sound? -/
def Devices.sounding (d : Devices) : Bool := d.speaker &&& 0x03 = 0x03

/-- The vector of a line of the first controller, if its interrupts are delivered. -/
def Devices.delivers (d : Devices) (line : Fin 8) : Option UInt8 :=
  if d.master.mask >>> UInt8.ofNat line &&& 1 = 0 then some (d.master.vector + UInt8.ofNat line) else none

/-- The place of the cursor. -/
def Devices.cursor (d : Devices) : UInt16 := word16 (d.register 0x0F) (d.register 0x0E)

/-! ### Programs for one device -/

/-- **A controller initialised** in a cascade, with a fourth word, and then masked. -/
theorem Pic.initialised (p : Pic) (first : UInt8) (h : first &&& 0x10 ≠ 0) (hfourth : first &&& 0x01 ≠ 0)
    (hcascade : first &&& 0x02 = 0) (vector cascade mode mask : UInt8) :
    (((((p.command first).data vector).data cascade).data mode).data mask) =
      { awaits := .mask, fourth := true, single := false, vector := vector &&& 0xF8, mask } := by
  simp [Pic.command, Pic.data, h, hfourth, hcascade]

/-- A byte at the command port that is not the first word of an initialisation. -/
theorem Pic.command_of_clear (p : Pic) {v : UInt8} (h : v &&& 0x10 = 0) : p.command v = p := by
  simp [Pic.command, h]

/-- **A channel given its count**, low byte first. -/
theorem Channel.programmed (c : Channel) (control : UInt8) (h : control >>> 4 &&& 3 = 3) (low high : UInt8) :
    ((c.control control).data low).data high =
      { access := .both, pending := none, mode := control >>> 1 &&& 7, count := word16 low high } := by
  simp [Channel.control, Channel.data, h]

/-- A word from its two bytes. -/
theorem word16_bytes (x : UInt16) : word16 (x &&& 0xFF).toUInt8 (x >>> 8 &&& 0xFF).toUInt8 = x := by
  have hx := x.toNat_lt
  have hmask : ∀ n : ℕ, n &&& 255 = n % 256 := fun n => Nat.and_two_pow_sub_one_eq_mod n 8
  apply UInt16.toNat_inj.mp
  simp only [word16, UInt16.toNat_add, UInt8.toNat_toUInt16, UInt16.toNat_toUInt8, UInt16.toNat_shiftLeft,
    UInt16.toNat_and, UInt16.toNat_shiftRight, UInt16.reduceToNat, Nat.reduceMod, hmask, Nat.shiftLeft_eq,
    Nat.shiftRight_eq_div_pow]
  omega

/-- The low two bytes of a word. -/
theorem word16_low (x : UInt32) : word16 (x &&& 0xFF).toUInt8 (x >>> 8 &&& 0xFF).toUInt8 = x.toUInt16 := by
  have hx := x.toNat_lt
  have hmask : ∀ n : ℕ, n &&& 255 = n % 256 := fun n => Nat.and_two_pow_sub_one_eq_mod n 8
  apply UInt16.toNat_inj.mp
  simp only [word16, UInt16.toNat_add, UInt8.toNat_toUInt16, UInt32.toNat_toUInt8, UInt16.toNat_shiftLeft,
    UInt32.toNat_and, UInt32.toNat_shiftRight, UInt32.toNat_toUInt16, UInt16.reduceToNat, UInt32.reduceToNat,
    Nat.reduceMod, hmask, Nat.shiftLeft_eq, Nat.shiftRight_eq_div_pow]
  omega

/-! ### What the other devices are left as -/

variable {d : Devices} {port : UInt16} {v : UInt8} {ws : List (UInt16 × UInt8)}

theorem master_outb (hcommand : port = 0x20 → v &&& 0x10 = 0) (hdata : port ≠ 0x21) :
    (d.outb port v).master = d.master := by
  simp only [Devices.outb, if_neg hdata, ite_eq_right_iff]
  exact fun h => d.master.command_of_clear (hcommand h)

theorem slave_outb (hcommand : port = 0xA0 → v &&& 0x10 = 0) (hdata : port ≠ 0xA1) :
    (d.outb port v).slave = d.slave := by
  simp only [Devices.outb, if_neg hdata, ite_eq_right_iff]
  exact fun h => d.slave.command_of_clear (hcommand h)

theorem channel_outb {k : Fin 3} (hcontrol : port = 0x43 → (v >>> 6).toNat ≠ k) (hdata : port.toNat ≠ 0x40 + k) :
    (d.outb port v).channel k = d.channel k := by
  simp only [Devices.outb, if_neg hdata, ite_eq_right_iff]
  exact fun h => absurd h.2 (hcontrol h.1)

/-- **What no byte of a program changes.** -/
theorem outs_frame {β : Type*} {f : Devices → β} (h : ∀ d, ∀ w ∈ ws, f (d.outb w.1 w.2) = f d) :
    f (d.outs ws) = f d := by
  induction ws generalizing d with
  | nil => rfl
  | cons w ws ih =>
    rw [Devices.outs_cons, ih fun d w' hw' => h d w' (List.mem_cons_of_mem w hw')]
    exact h d w List.mem_cons_self

end Basedos.Lib
