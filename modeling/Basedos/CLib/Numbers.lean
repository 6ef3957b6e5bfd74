import Basedos.CLib.String
import Mathlib.Data.Nat.Digits.Lemmas
import Mathlib.Data.UInt

/-!
# Numbers as text

`itoa` of `lib/string.c`, which writes a number in a base from 2 to 36.

## The model

`int` and `unsigned long` have 32 bits. The text is the characters written before the terminating
NUL; the digits are written with the least significant first and then reversed where they lie, by
two pointers that meet (`reverseLoop`).

## What is proved

* `itoaDigits_eq` — the digits are those of Mathlib's `Nat.digits`.
* `itoa_eq` — the reversal, so **what is written**: the sign, and the digits from the most
  significant on.
* `length_itoaDigits_le` — there are at most ten of them in a base from 10 on.
-/

namespace Basedos.CLib

/-- A base that `itoa` has digits for. -/
structure Base where
  /-- The base, as it is divided by. -/
  val : UInt32
  two_le : 2 ≤ val.toNat
  le : val.toNat ≤ 36

theorem two_le_ten : 2 ≤ (10 : UInt32).toNat := by decide

theorem ten_le : (10 : UInt32).toNat ≤ 36 := by decide

theorem two_le_sixteen : 2 ≤ (16 : UInt32).toNat := by decide

theorem sixteen_le : (16 : UInt32).toNat ≤ 36 := by decide

/-- Base 10. -/
def Base.ten : Base := ⟨10, two_le_ten, ten_le⟩

/-- Base 16. -/
def Base.sixteen : Base := ⟨16, two_le_sixteen, sixteen_le⟩

/-- `(rem > 9) ? (rem - 10) + 'a' : rem + '0'`. -/
def digitChar (rem : UInt32) : UInt8 := if rem > 9 then (rem - 10).toUInt8 + 97 else rem.toUInt8 + 48

theorem div_lt_of_ne_zero (base : Base) {tmp : UInt32} (h : tmp ≠ 0) : (tmp / base.val).toNat < tmp.toNat := by
  have hpos : 0 < tmp.toNat := Nat.pos_of_ne_zero fun h0 => h (UInt32.toNat_inj.mp (h0.trans UInt32.toNat_zero.symm))
  rw [UInt32.toNat_div]
  exact Nat.div_lt_self hpos base.two_le

/-- The loop of `itoa`: the digits, least significant first. -/
def itoaDigits (base : Base) (tmp : UInt32) : List UInt8 :=
  if _h : tmp = 0 then [] else digitChar (tmp % base.val) :: itoaDigits base (tmp / base.val)
termination_by tmp.toNat
decreasing_by exact div_lt_of_ne_zero base _h

/-- `tmp = *p1; *p1 = *p2; *p2 = tmp;` -/
def swap (buf : List UInt8) (p1 p2 : ℕ) : List UInt8 := (buf.set p1 (buf.getD p2 0)).set p2 (buf.getD p1 0)

/-- The reversal: `while (p1 < p2)`, with a step of both. -/
def reverseLoop (buf : List UInt8) (p1 p2 : ℕ) : List UInt8 :=
  if p1 < p2 then reverseLoop (swap buf p1 p2) (p1 + 1) (p2 - 1) else buf
termination_by p2 - p1

/-- `itoa`. -/
def itoa (value : Int32) (base : Base) : List UInt8 :=
  if value = 0 then [48]
  else
    let negative := value < 0 ∧ base.val = 10
    let sign := if negative then [45] else []
    let tmp := if negative then (-value).toUInt32 else value.toUInt32
    let digits := itoaDigits base tmp
    sign ++ reverseLoop digits 0 (digits.length - 1)

/-! ### The digits -/

/-- **The digits** of the number, each with its character. -/
theorem itoaDigits_eq (base : Base) (tmp : UInt32) :
    itoaDigits base tmp = (Nat.digits base.val.toNat tmp.toNat).map fun n => digitChar (UInt32.ofNat n) := by
  rw [itoaDigits]
  split
  · next h =>
    rw [h, UInt32.toNat_zero, Nat.digits_zero, List.map_nil]
  · next h =>
    have hpos : 0 < tmp.toNat := Nat.pos_of_ne_zero fun h0 => h (UInt32.toNat_inj.mp (h0.trans UInt32.toNat_zero.symm))
    have hrem : UInt32.ofNat (tmp.toNat % base.val.toNat) = tmp % base.val := by
      rw [← UInt32.toNat_mod, UInt32.ofNat_toNat]
    rw [Nat.digits_def' base.two_le hpos, List.map_cons, hrem, itoaDigits_eq base (tmp / base.val),
      UInt32.toNat_div]
termination_by tmp.toNat
decreasing_by exact div_lt_of_ne_zero base ‹_›

/-! ### The reversal -/

/-- The ends of the part still to be reversed are swapped. -/
theorem swap_ends (a c : List UInt8) (x y : UInt8) (m : List UInt8) :
    swap (a ++ x :: m ++ y :: c) a.length (a.length + 1 + m.length) = a ++ y :: m ++ x :: c := by
  have hx : (a ++ x :: m ++ y :: c).getD a.length 0 = x := by
    simp [List.getD_eq_getElem?_getD, List.append_assoc]
  have hy : (a ++ x :: m ++ y :: c).getD (a.length + 1 + m.length) 0 = y := by
    have hlen : a.length + 1 + m.length = (a ++ x :: m).length := by simp; omega
    rw [hlen, List.getD_eq_getElem?_getD, List.getElem?_append_right le_rfl, Nat.sub_self]
    rfl
  rw [swap, hx, hy]
  have hset : (a ++ x :: m ++ y :: c).set a.length y = a ++ y :: m ++ y :: c := by
    rw [List.append_assoc, List.set_append_right _ _ le_rfl, Nat.sub_self, List.append_assoc]
    rfl
  have hlen : a.length + 1 + m.length = (a ++ y :: m).length := by simp; omega
  rw [hset, hlen, List.set_append_right _ _ le_rfl, Nat.sub_self]
  rfl

/-- What lies between the pointers is reversed. -/
theorem reverseLoop_eq (a m c : List UInt8) :
    reverseLoop (a ++ m ++ c) a.length (a.length + m.length - 1) = a ++ m.reverse ++ c := by
  induction m using List.bidirectionalRec generalizing a c with
  | nil =>
    rw [reverseLoop, if_neg (by simp)]
    rfl
  | singleton x =>
    rw [reverseLoop, if_neg (by simp)]
    rfl
  | cons_append x m y ih =>
    have hlast : a.length + (x :: (m ++ [y])).length - 1 = a.length + 1 + m.length := by
      simp only [List.length_cons, List.length_append, List.length_nil]
      omega
    have hsplit : a ++ x :: (m ++ [y]) ++ c = a ++ x :: m ++ y :: c := by simp
    have hstep := ih (a ++ [y]) (x :: c)
    simp only [List.length_append, List.length_singleton] at hstep
    rw [reverseLoop, if_pos (by omega), hlast, hsplit, swap_ends]
    simpa using hstep

/-- **What `itoa` writes**: the sign, if the base is 10, and the digits of the magnitude. -/
theorem itoa_eq {value : Int32} (h : value ≠ 0) (base : Base) : itoa value base =
    if value < 0 ∧ base.val = 10 then 45 :: (itoaDigits base (-value).toUInt32).reverse
    else (itoaDigits base value.toUInt32).reverse := by
  have hreverse : ∀ buf : List UInt8, reverseLoop buf 0 (buf.length - 1) = buf.reverse := by
    intro buf
    simpa using reverseLoop_eq [] buf []
  simp only [itoa, if_neg h, hreverse]
  split <;> rfl

/-- In a base from 10 on a word has at most ten digits. -/
theorem length_itoaDigits_le (base : Base) (hbase : 10 ≤ base.val.toNat) (tmp : UInt32) :
    (itoaDigits base tmp).length ≤ 10 := by
  rw [itoaDigits_eq, List.length_map, Nat.digits_length_le_iff (by omega)]
  calc tmp.toNat < 2 ^ 32 := tmp.toNat_lt
    _ ≤ 10 ^ 10 := by norm_num
    _ ≤ base.val.toNat ^ 10 := Nat.pow_le_pow_left hbase 10

/-- `-2147483648`, whose magnitude an `int` cannot hold. -/
example : itoa (-2147483648) .ten = [45, 50, 49, 52, 55, 52, 56, 51, 54, 52, 56] := by decide +kernel

end Basedos.CLib
