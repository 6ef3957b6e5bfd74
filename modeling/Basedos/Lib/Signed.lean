import Mathlib.Data.UInt

/-!
# Signed and unsigned words

A 32-bit word is read as a number from `0` on or as a signed number; the two differ by a multiple of
`2 ^ 32`.
-/

namespace Basedos.Lib

/-- A signed word as an unsigned one. -/
theorem toNat_toUInt32 (v : Int32) : (v.toUInt32.toNat : ℤ) = v.toInt % 2 ^ 32 := by
  have := BitVec.toInt_eq_toNat_bmod v.toBitVec
  change v.toInt = _ at this
  rw [this]
  change (v.toBitVec.toNat : ℤ) = _
  have hlt := v.toBitVec.isLt
  simp only [Int.bmod]
  split <;> omega

/-- What a word is as a signed number: itself, or `2 ^ 32` less. -/
theorem toInt_toInt32 (q : UInt32) :
    q.toInt32.toInt = if q.toNat < 2 ^ 31 then (q.toNat : ℤ) else q.toNat - 2 ^ 32 := by
  change q.toBitVec.toInt = _
  rw [BitVec.toInt_eq_toNat_cond]
  change (if 2 * q.toNat < 2 ^ 32 then _ else _) = _
  split <;> split <;> first | omega | rfl

/-- The magnitude of a negative number, the smallest one included. -/
theorem toNat_neg_toUInt32 {v : Int32} (h : v.toInt < 0) : (-v).toUInt32.toNat = v.toInt.natAbs := by
  have hneg := toNat_toUInt32 (-v)
  have hle := v.le_toInt
  have hmod : (-v.toInt).bmod (2 ^ 32) % 2 ^ 32 = -v.toInt % 2 ^ 32 := by
    exact_mod_cast Int.bmod_emod (x := -v.toInt) (m := 2 ^ 32)
  rw [Int32.toInt_neg, hmod] at hneg
  omega

end Basedos.Lib
