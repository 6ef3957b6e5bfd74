import Basedos.Kernel.Decimal

/-!
# The hexadecimal printers

A number is printed in base 16 by two functions of `kernel/terminal.c`: `printk` with `%x`, through `itoa`, and
`terminal_write_hex`, which fills an array of its own from the back with eight digits.

## What is proved

* `hexPrinters_agree` — **they print the same number**, for every number: `%x` sends its numeral in small letters,
  and `terminal_write_hex` `0x` and the same numeral in capital letters, with zeros in front up to eight digits. No
  store misses the array.
-/

namespace Basedos.Kernel

open Basedos.Lib Basedos.CLib

/-! ### The functions -/

/-- `digits` of `terminal_write_hex`. -/
def hexCharacters : List UInt8 :=
  ascii ['0', '1', '2', '3', '4', '5', '6', '7', '8', '9', 'A', 'B', 'C', 'D', 'E', 'F']

/-- The loop of `terminal_write_hex`, with `i` counted down from one less than this to 0. -/
def writeHexLoop (buffer : List UInt8) : ℕ → UInt32 → Option (List UInt8)
  | 0, _ => some buffer
  | i + 1, value =>
    (store buffer i (hexCharacters.getD (value &&& 0xF).toNat 0)).bind fun buffer => writeHexLoop buffer i (value >>> 4)

/-- `terminal_write_hex`: what is sent to `putchar`, with these bytes in `buffer` at first. -/
def terminalWriteHex (buffer : Fin 9 → UInt8) (value : UInt32) : Option (List UInt8) :=
  (store (List.ofFn buffer) 8 0).bind fun buffer =>
    (writeHexLoop buffer 8 value).bind fun buffer => (stringIn buffer).map (ascii ['0', 'x'] ++ ·)

theorem hexFormat_noNul : 0 ∉ [percent, 120] := by decide

/-- `"%x"` -/
def hexFormat : CStr := ⟨[percent, 120], hexFormat_noNul⟩

/-- The character of a digit, in capital letters. -/
def capital (d : ℕ) : UInt8 := hexCharacters.getD d 0

/-! ### From the back of the array -/

theorem toNat_and_15 (value : UInt32) : (value &&& 0xF).toNat = value.toNat % 16 := by
  rw [UInt32.toNat_and]
  exact Nat.and_two_pow_sub_one_eq_mod value.toNat 4

theorem toNat_shiftRight_4 (value : UInt32) : (value >>> 4).toNat = value.toNat / 16 := by
  rw [UInt32.toNat_shiftRight]
  exact Nat.shiftRight_eq_div_pow value.toNat 4

/-- The last digits are stored in front of what is there. -/
theorem writeHexLoop_eq (a c : List UInt8) (value : UInt32) :
    writeHexLoop (a ++ c) a.length value = some ((fixedDigits 16 a.length value.toNat).map capital ++ c) := by
  induction a using List.reverseRecOn generalizing c value with
  | nil => rfl
  | append_singleton a x ih =>
    have hlen : (a ++ [x]).length = a.length + 1 := List.length_append
    rw [hlen, writeHexLoop, toNat_and_15, List.append_assoc, List.singleton_append, store_append, Option.bind_some, ih,
      toNat_shiftRight_4, fixedDigits, List.map_append, List.append_assoc]
    rfl

/-- No digit is a NUL. -/
theorem zero_not_mem_capitals {ds : List ℕ} (h : ∀ d ∈ ds, d < 16) : 0 ∉ ds.map capital := by
  have hne : ∀ d < 16, capital d ≠ 0 := by decide
  intro h0
  obtain ⟨d, hd, hzero⟩ := List.mem_map.mp h0
  exact hne d (h d hd) hzero

theorem lt_of_mem_fixedDigits {k n d : ℕ} (h : d ∈ fixedDigits 16 k n) : d < 16 := by
  induction k generalizing n with
  | zero => cases h
  | succ k ih =>
    rw [fixedDigits, List.mem_append, List.mem_singleton] at h
    rcases h with h | rfl
    · exact ih h
    · exact Nat.mod_lt _ (by omega)

/-- **What `terminal_write_hex` sends**: eight digits, and no store misses its array. -/
theorem terminalWriteHex_eq (buffer : Fin 9 → UInt8) (value : UInt32) :
    terminalWriteHex buffer value = some (ascii ['0', 'x'] ++ (fixedDigits 16 8 value.toNat).map capital) := by
  have hlen : (List.ofFn buffer).length = 9 := List.length_ofFn
  obtain ⟨a, x, hbuffer⟩ : ∃ a x, List.ofFn buffer = a ++ [x] := by
    rcases List.eq_nil_or_concat (List.ofFn buffer) with hnil | ⟨a, x, hconcat⟩
    · rw [hnil] at hlen
      cases hlen
    · exact ⟨a, x, by rw [hconcat, List.concat_eq_append]⟩
  have ha : a.length = 8 := by
    rw [hbuffer] at hlen
    simpa using hlen
  have hstore := store_append a [] x 0
  have hloop := writeHexLoop_eq a [0] value
  rw [ha] at hstore hloop
  have hstore' : store (a ++ [x]) 8 0 = some (a ++ [0]) := hstore
  have htext : Holds ((fixedDigits 16 8 value.toNat).map capital ++ [0]) ((fixedDigits 16 8 value.toNat).map capital) :=
    ⟨zero_not_mem_capitals fun _ hd => lt_of_mem_fixedDigits hd, [], rfl⟩
  rw [terminalWriteHex, hbuffer, hstore', Option.bind_some, hloop, Option.bind_some, htext.stringIn]
  rfl

/-! ### What `%x` sends -/

/-- What `printk` sends for `%x`. -/
theorem respects_hex {format : ℕ → UInt8} (h : StoredAt format 0 hexFormat.bytes) (n : UInt32) :
    Respects format [.word n] hexFormat.bytes.length (itoa n.toInt32 .sixteen) := by
  have htext : formatText hexFormat.bytes [.word n] = some (itoa n.toInt32 .sixteen) := by
    rw [hexFormat, formatText_percent]
    simp [printkSwitch, vaWord, formatText]
  obtain ⟨t, hloop, hsent, hreads⟩ := printkLoop_text h hexFormat.noNul (by decide) htext
  exact ⟨t, hloop, hsent, fun j hj => by have := hreads j hj; omega⟩

/-- In base 16 a number is taken as unsigned. -/
theorem itoa_sixteen (n : UInt32) : ∃ ds, IsNumeral 16 n.toNat ds ∧ itoa n.toInt32 .sixteen = ds.map digit := by
  have hbase : ¬ Base.sixteen.val = 10 := by decide
  obtain ⟨ds, htext, hds⟩ := itoa_writes n.toInt32 .sixteen
  rw [if_neg fun h => hbase h.1] at htext
  have hnat : (n.toInt32.toInt % 2 ^ 32).toNat = n.toNat := by
    have := n.toNat_lt
    rw [toInt_toInt32]
    split_ifs <;> omega
  rw [if_neg hbase, hnat] at hds
  exact ⟨ds, hds, htext⟩

/-- **The printers agree** for every number, whatever is in the array and behind the format. -/
theorem hexPrinters_agree {format : ℕ → UInt8} (h : StoredAt format 0 hexFormat.bytes) (buffer : Fin 9 → UInt8)
    (n : UInt32) : ∃ ds, IsNumeral 16 n.toNat ds ∧ ds.length ≤ 8 ∧
      Respects format [.word n] hexFormat.bytes.length (ds.map digit) ∧
      terminalWriteHex buffer n =
        some (ascii ['0', 'x'] ++ (List.replicate (8 - ds.length) 0 ++ ds).map capital) := by
  obtain ⟨ds, hds, htext⟩ := itoa_sixteen n
  have hsent := respects_hex h n
  rw [htext] at hsent
  have hlt : n.toNat < 16 ^ (7 + 1) := n.toNat_lt
  obtain ⟨hlen, hfixed⟩ := fixedDigits_eq (by omega) hlt
  rw [← hds.eq (by omega)] at hlen hfixed
  exact ⟨ds, hds, hlen, hsent, by rw [terminalWriteHex_eq, hfixed]⟩

theorem hexPrinters_agree_small : ∃ ds, IsNumeral 16 (0xBA5ED05 : UInt32).toNat ds ∧ ds.length ≤ 8 ∧
    Respects (inMemory hexFormat []) [.word 0xBA5ED05] hexFormat.bytes.length (ds.map digit) ∧
    terminalWriteHex (fun _ => 0) 0xBA5ED05 =
      some (ascii ['0', 'x'] ++ (List.replicate (8 - ds.length) 0 ++ ds).map capital) :=
  hexPrinters_agree (storedAt_inMemory hexFormat []) (fun _ => 0) 0xBA5ED05

example : terminalWriteHex (fun _ => 0) 0xBA5ED05 =
    some (ascii ['0', 'x', '0', 'B', 'A', '5', 'E', 'D', '0', '5']) := by decide +kernel

end Basedos.Kernel
