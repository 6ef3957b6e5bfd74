import Basedos.Lib.Assoc
import Basedos.Lib.Memory
import Basedos.Lib.Run
import Mathlib.Logic.Function.Basic
import Mathlib.Tactic.IntervalCases

/-!
# The interrupt descriptor table

`idt` of `kernel/interrupts.c`: 256 packed entries of eight bytes, in which the address of a handler is
cut in two, stored by `init_interrupts` for the keyboard and by `register_interrupt_handler`; and `idtp`, from
which the processor takes its size and its address.

## The model

Both are where the linker puts them, in the memory of the machine, and each field is a store of its own. `lidt`
reads the six bytes of `idtp` into a register (`Idtr`). The processor reads the eight bytes of an entry when an
interrupt comes (`Gate.decode`), in the table of its register and within its limit, and delivers it only if the entry
is present (`gateAt`).

## What is proved

* `setGate_eq` — the five stores of an entry are one of its eight bytes.
* `gateAt_setGate` — **an entry is read back** as the handler it was made of, and no other entry changes.
* `lidt_initInterrupts` — the register holds the limit and the address of the table.
* `registered_run` — **over any run of registrations**, in any order, the processor finds for a vector the
  handler registered last, the keyboard's for `0x21` if there was none, and none for the others; nothing
  changes but the table and the six bytes of `idtp`.
-/

namespace Basedos.Kernel

open Basedos.Lib

/-! ### The entries -/

/-- `idt[n]`. -/
def gateAddress (idt : UInt32) (n : UInt8) : UInt32 := idt + UInt32.ofNat (8 * n.toNat)

/-- The assignments to the fields of an entry, `base_lo`, `base_hi`, `sel`, `always0` and `flags`. -/
def setGate (m : Mem) (idt : UInt32) (n : UInt8) (handlerAddr : UInt32) : Mem :=
  let gate := gateAddress idt n
  let m := m.put gate (le2 (handlerAddr &&& 0xFFFF).toUInt16)
  let m := m.put (gate + 6) (le2 (handlerAddr >>> 16 &&& 0xFFFF).toUInt16)
  let m := m.put (gate + 2) (le2 0x08)
  let m := m.put (gate + 4) [0]
  m.put (gate + 5) [0x8E]

/-- What the processor knows of its table. -/
structure Idtr where
  /-- The last byte of the table that may be read. -/
  limit : UInt16
  /-- Where the table begins. -/
  base : UInt32
  deriving DecidableEq

/-- `lidt`: the register from six bytes in memory. -/
def lidt (m : Mem) (idtp : UInt32) : Idtr := ⟨m.half idtp, m.word (idtp + 2)⟩

/-- `sizeof(idt) - 1`. -/
def idtLimit : UInt16 := 256 * 8 - 1

/-- `init_interrupts`, the table: the entry of the keyboard, `idtp.limit`, `idtp.base`, and `lidt`. -/
def initInterrupts (m : Mem) (idt idtp keyboardHandler : UInt32) : Mem × Idtr :=
  let m := setGate m idt 0x21 keyboardHandler
  let m := m.put idtp (le2 idtLimit)
  let m := m.put (idtp + 2) (le4 idt)
  (m, lidt m idtp)

/-- `register_interrupt_handler`. -/
def registerInterruptHandler (m : Mem) (idt : UInt32) (n : UInt8) (handler : UInt32) : Mem := setGate m idt n handler

/-- An entry, as the processor takes it. -/
structure Gate where
  /-- The address of the handler. -/
  offset : UInt32
  /-- The segment its code is in. -/
  selector : UInt16
  /-- What kind of entry it is. -/
  kind : UInt8
  /-- The privilege that a program needs to call it. -/
  privilege : UInt8
  /-- Is there an entry at all? -/
  present : Bool
  deriving DecidableEq

/-- An entry from its eight bytes. -/
def Gate.decode : List UInt8 → Option Gate
  | [base0, base1, sel0, sel1, _, flags, base2, base3] => some
      { offset := (base0.toUInt16 + base1.toUInt16 <<< 8).toUInt32 +
          (base2.toUInt16 + base3.toUInt16 <<< 8).toUInt32 <<< 16
        selector := sel0.toUInt16 + sel1.toUInt16 <<< 8
        kind := flags &&& 0x1F
        privilege := flags >>> 5 &&& 3
        present := flags &&& 0x80 ≠ 0 }
  | _ => none

/-- The entry of a 32-bit interrupt gate in the kernel's code, which no program may call. -/
def Gate.kernel (handler : UInt32) : Gate := ⟨handler, 0x08, 0x0E, 0, true⟩

/-- The entry of a vector, if it is present. The processor reads none past the limit. -/
def gateAt (m : Mem) (r : Idtr) (n : UInt8) : Option Gate :=
  if 8 * n.toNat + 7 ≤ r.limit.toNat then (Gate.decode (m.bytes (gateAddress r.base n) 8)).filter Gate.present
  else none

/-- The eight bytes of an entry. -/
def gateBytes (handler : UInt32) : List UInt8 :=
  le2 (handler &&& 0xFFFF).toUInt16 ++ le2 0x08 ++ [(0 : UInt8), 0x8E] ++ le2 (handler >>> 16 &&& 0xFFFF).toUInt16

variable {m : Mem} {idt handler : UInt32} {n : UInt8}

/-- A store some bytes after an address, byte by byte. -/
theorem put_add (m : Mem) (a k x : UInt32) (bs : List UInt8) :
    m.put (a + k) bs x = bs.getD (((x - a).toNat + 2 ^ 32 - k.toNat) % 2 ^ 32) (m x) := by
  have hsub : (x - (a + k)).toNat = ((x - a).toNat + 2 ^ 32 - k.toNat) % 2 ^ 32 := by
    rw [← sub_sub, UInt32.toNat_sub]
    have := k.toNat_lt
    congr 1
    omega
  rw [Mem.put, hsub]

/-- **The five stores are one.** -/
theorem setGate_eq (m : Mem) (idt : UInt32) (n : UInt8) (handler : UInt32) :
    setGate m idt n handler = m.put (gateAddress idt n) (gateBytes handler) := by
  funext x
  have hx := (x - gateAddress idt n).toNat_lt
  simp only [setGate, put_add]
  simp only [Mem.put, UInt32.reduceToNat]
  generalize (x - gateAddress idt n).toNat = d at hx
  by_cases hd : d < 8
  · interval_cases d <;> rfl
  · have hfar (k : ℕ) (bs : List UInt8) (y : UInt8) (hk : k + bs.length ≤ 8) :
        bs.getD ((d + 2 ^ 32 - k) % 2 ^ 32) y = y := List.getD_eq_default _ _ (by omega)
    rw [List.getD_eq_default (gateBytes handler) _ (Nat.not_lt.mp hd), hfar 5 _ _ (by decide), hfar 4 _ _ (by decide),
      hfar 2 _ _ (by rw [length_le2]; decide), hfar 6 _ _ (by rw [length_le2]),
      List.getD_eq_default _ _ (by rw [length_le2]; omega)]

/-! ### Reading them back -/

/-- The table does not run past the last address. -/
abbrev TableFits (idt : UInt32) : Prop := Fits idt 2048

/-- Where an entry lies. -/
theorem toNat_gateAddress (h : TableFits idt) (n : UInt8) : (gateAddress idt n).toNat = idt.toNat + 8 * n.toNat := by
  have := n.toNat_lt
  have := h.le
  exact toNat_add_ofNat (by omega)

theorem fits_gate (h : TableFits idt) (n : UInt8) : Fits (gateAddress idt n) 8 := by
  have := n.toNat_lt
  have := h.le
  exact .of_le (by rw [toNat_gateAddress h]; omega)

/-- Two entries have no byte in common. -/
theorem gates_apart (h : TableFits idt) {n k : UInt8} (hne : n ≠ k) :
    Apart (gateAddress idt n) 8 (gateAddress idt k) 8 := by
  have : n.toNat ≠ k.toNat := fun heq => hne (UInt8.toNat_inj.mp heq)
  unfold Apart
  rw [toNat_gateAddress h, toNat_gateAddress h]
  omega

/-- Every entry is within the limit. -/
theorem gateAt_eq (m : Mem) (idt : UInt32) (n : UInt8) :
    gateAt m ⟨idtLimit, idt⟩ n = (Gate.decode (m.bytes (gateAddress idt n) 8)).filter Gate.present := by
  have hn := n.toNat_lt
  have hlimit : 8 * n.toNat + 7 ≤ idtLimit.toNat := by
    show _ ≤ 2047
    omega
  exact if_pos hlimit

/-- **The eight bytes of an entry** say what it was made of. -/
theorem decode_gateBytes (handler : UInt32) : Gate.decode (gateBytes handler) = some (.kernel handler) := by
  simp only [gateBytes, le2, List.cons_append, List.nil_append, Gate.decode, le2_half, halves]
  rfl

/-- **An entry is read back**, and no other is changed. -/
theorem gateAt_setGate (h : TableFits idt) (m : Mem) (n : UInt8) (handler : UInt32) :
    gateAt (setGate m idt n handler) ⟨idtLimit, idt⟩ =
      Function.update (gateAt m ⟨idtLimit, idt⟩) n (some (.kernel handler)) := by
  have hlen : (gateBytes handler).length = 8 := rfl
  have hfits : Fits (gateAddress idt n) (gateBytes handler).length := fits_gate h n
  funext k
  rw [setGate_eq]
  by_cases hk : k = n
  · subst hk
    have hself := Mem.bytes_put_self (m := m) hfits
    rw [hlen] at hself
    rw [Function.update_self, gateAt_eq, hself, decode_gateBytes]
    rfl
  · rw [Function.update_of_ne hk, gateAt_eq, Mem.bytes_put_of_disjoint hfits (fits_gate h k), gateAt_eq]
    exact gates_apart h (Ne.symm hk)

/-- An entry lies in the table. -/
theorem setGate_frame (h : TableFits idt) (m : Mem) (n : UInt8) (handler : UInt32) {b : UInt32} {k : ℕ}
    (hb : Fits b k) (hapart : Apart idt 2048 b k) : (setGate m idt n handler).bytes b k = m.bytes b k := by
  have hn := n.toNat_lt
  have hlen : (gateBytes handler).length = 8 := rfl
  have hgate := toNat_gateAddress h n
  rw [setGate_eq]
  refine Mem.bytes_put_of_disjoint (fits_gate h n) hb ?_
  unfold Apart at hapart ⊢
  omega

/-! ### The processor's register -/

/-- Where `idt` and `idtp` lie: each in one piece, with no byte in common. -/
structure Placed (idt idtp : UInt32) : Prop where
  table : TableFits idt
  pointer : Fits idtp 6
  apart : Apart idt 2048 idtp 6

variable {idtp : UInt32}

theorem Placed.limit (h : Placed idt idtp) : Fits idtp 2 := by
  have := h.pointer.le
  exact .of_le (by omega)

theorem Placed.base (h : Placed idt idtp) : (idtp + 2).toNat = idtp.toNat + 2 ∧ Fits (idtp + 2) 4 := by
  have := h.pointer.le
  have hadd : (idtp + 2).toNat = idtp.toNat + 2 := toNat_add_of_lt (b := 2) (show idtp.toNat + 2 < 2 ^ 32 by omega)
  exact ⟨hadd, .of_le (by omega)⟩

/-- **What `lidt` reads**: the limit and the address of the table. -/
theorem lidt_initInterrupts (h : Placed idt idtp) (m : Mem) (keyboardHandler : UInt32) :
    (initInterrupts m idt idtp keyboardHandler).2 = ⟨idtLimit, idt⟩ := by
  obtain ⟨hadd, hbase⟩ := h.base
  have hapart : Apart (idtp + 2) (le4 idt).length idtp 2 := .inr (by rw [hadd])
  rw [initInterrupts, lidt, Mem.half_put_of_disjoint hbase h.limit hapart, Mem.half_put_self _ h.limit,
    Mem.word_put_self _ hbase]

/-- What lies outside `idtp`, and what lies outside the table as well. -/
theorem initInterrupts_frame (h : Placed idt idtp) (m : Mem) (keyboardHandler : UInt32) {b : UInt32} {k : ℕ}
    (hb : Fits b k) (hapart : Apart idtp 6 b k) :
    (initInterrupts m idt idtp keyboardHandler).1.bytes b k = (setGate m idt 0x21 keyboardHandler).bytes b k := by
  obtain ⟨hadd, hbase⟩ := h.base
  have hlimit : Apart idtp (le2 idtLimit).length b k := hapart.mono (by decide) le_rfl
  have hrest : Apart (idtp + 2) (le4 idt).length b k := by
    unfold Apart at hapart ⊢
    rw [hadd, length_le4]
    omega
  rw [initInterrupts, Mem.bytes_put_of_disjoint hbase hb hrest, Mem.bytes_put_of_disjoint h.limit hb hlimit]

/-- The entries that `init_interrupts` leaves: the keyboard's, and those of before. -/
theorem gateAt_initInterrupts (h : Placed idt idtp) (m : Mem) (keyboardHandler : UInt32) :
    gateAt (initInterrupts m idt idtp keyboardHandler).1 ⟨idtLimit, idt⟩ =
      Function.update (gateAt m ⟨idtLimit, idt⟩) 0x21 (some (.kernel keyboardHandler)) := by
  rw [← gateAt_setGate h.table]
  funext n
  have hn := n.toNat_lt
  have hgate := toNat_gateAddress h.table n
  have hapart : Apart idtp 6 (gateAddress idt n) 8 := by
    have := h.apart
    unfold Apart at this ⊢
    omega
  rw [gateAt_eq, gateAt_eq, initInterrupts_frame h m keyboardHandler (fits_gate h.table n) hapart]

/-! ### Any registrations -/

/-- A registration. -/
abbrev Registration := UInt8 × UInt32

/-- One registration. -/
def registerStep (idt : UInt32) (m : Mem) (r : Registration) : Unit × Mem :=
  ((), registerInterruptHandler m idt r.1 r.2)

/-- The handlers registered: the last for each vector. -/
def lastRegistered (rs : List Registration) (n : UInt8) : Option UInt32 := rs.reverse.lookup n

/-- One more before the others. -/
theorem lastRegistered_cons (r : Registration) (rs : List Registration) (n : UInt8) :
    lastRegistered (r :: rs) n = (lastRegistered rs n).or (if n = r.1 then some r.2 else none) := by
  have hone : List.lookup n [r] = if n = r.1 then some r.2 else none := lookup_cons_pair r
  rw [lastRegistered, List.reverse_cons, List.lookup_append, hone, lastRegistered]

/-- In a table of zeros there is no entry. -/
theorem gateAt_zero {m : Mem} (hzero : m.bytes idt 2048 = List.replicate 2048 0) (n : UInt8) :
    gateAt m ⟨idtLimit, idt⟩ n = none := by
  have hn := n.toNat_lt
  have hbytes : m.bytes (gateAddress idt n) 8 = List.replicate 8 0 := by
    rw [gateAddress, ← Mem.take_drop_bytes m idt (show 8 * n.toNat + 8 ≤ 2048 by omega), hzero, List.drop_replicate,
      List.take_replicate]
    exact congrArg (List.replicate · 0) (by omega)
  rw [gateAt_eq, hbytes]
  rfl

/-- The entries after a run, from any table. -/
theorem gateAt_run (h : TableFits idt) (m : Mem) (rs : List Registration) (n : UInt8) :
    gateAt (run (registerStep idt) m rs).2 ⟨idtLimit, idt⟩ n =
      ((lastRegistered rs n).map Gate.kernel).or (gateAt m ⟨idtLimit, idt⟩ n) := by
  induction rs generalizing m with
  | nil => rfl
  | cons r rs ih =>
    have hstep : gateAt (registerStep idt m r).2 ⟨idtLimit, idt⟩ =
        Function.update (gateAt m ⟨idtLimit, idt⟩) r.1 (some (.kernel r.2)) := gateAt_setGate h m r.1 r.2
    rw [run_cons, ih, hstep, lastRegistered_cons]
    by_cases hn : n = r.1
    · subst hn
      rw [Function.update_self, if_pos rfl]
      cases lastRegistered rs r.1 <;> rfl
    · rw [Function.update_of_ne hn, if_neg hn, Option.or_none]

/-- What lies outside the table, after a run. -/
theorem run_frame (h : TableFits idt) (m : Mem) (rs : List Registration) {b : UInt32} {k : ℕ} (hb : Fits b k)
    (hapart : Apart idt 2048 b k) : (run (registerStep idt) m rs).2.bytes b k = m.bytes b k :=
  run_inv' (I := fun m' => m'.bytes b k = m.bytes b k)
    (fun m' r hm' => (setGate_frame h m' r.1 r.2 hb hapart).trans hm') rfl rs

/-- **Any run of registrations** after `init_interrupts`, from a table of zeros: the processor's register holds the
limit and the address of the table, and in it the processor finds the handler registered last. -/
theorem registered_run (h : Placed idt idtp) (m : Mem) (hzero : m.bytes idt 2048 = List.replicate 2048 0)
    (keyboardHandler : UInt32) (rs : List Registration) :
    let r := initInterrupts m idt idtp keyboardHandler
    let m' := (run (registerStep idt) r.1 rs).2
    r.2 = ⟨2047, idt⟩ ∧
      (∀ n, gateAt m' r.2 n =
        ((lastRegistered rs n).or (if n = 0x21 then some keyboardHandler else none)).map Gate.kernel) ∧
      ∀ b k, Fits b k → Apart idt 2048 b k → Apart idtp 6 b k → m'.bytes b k = m.bytes b k := by
  intro r m'
  have hregister : r.2 = ⟨idtLimit, idt⟩ := lidt_initInterrupts h m keyboardHandler
  refine ⟨hregister, fun n => ?_, fun b k hb hapart hpointer => ?_⟩
  · rw [hregister, gateAt_run h.table, gateAt_initInterrupts h]
    by_cases hn : n = 0x21
    · subst hn
      rw [Function.update_self, if_pos rfl]
      cases lastRegistered rs 0x21 <;> rfl
    · rw [Function.update_of_ne hn, if_neg hn, gateAt_zero hzero, Option.or_none, Option.or_none]
  · rw [run_frame h.table _ rs hb hapart, initInterrupts_frame h m keyboardHandler hb hpointer]
    exact setGate_frame h.table m 0x21 keyboardHandler hb hapart

/-- The table at `0x8000`, and `idtp` behind it. -/
theorem placed_small : Placed 0x8000 0x8800 :=
  ⟨.of_le (by decide), .of_le (by decide), .inl (by decide)⟩

/-- The timer's handler, registered twice. -/
theorem registered_run_small :
    let r := initInterrupts (fun _ => 0) 0x8000 0x8800 0x1234
    let m' := (run (registerStep 0x8000) r.1 [(0x20, 1), (0x20, 0x10002)]).2
    r.2 = ⟨2047, 0x8000⟩ ∧
      (∀ n, gateAt m' r.2 n =
        ((lastRegistered [(0x20, 1), (0x20, 0x10002)] n).or (if n = 0x21 then some 0x1234 else none)).map
          Gate.kernel) ∧
      ∀ b k, Fits b k → Apart 0x8000 2048 b k → Apart 0x8800 6 b k → m'.bytes b k = Mem.bytes (fun _ => 0) b k :=
  registered_run placed_small (fun _ => 0) (Mem.bytes_const 0 0x8000 2048) 0x1234 [(0x20, 1), (0x20, 0x10002)]

end Basedos.Kernel
