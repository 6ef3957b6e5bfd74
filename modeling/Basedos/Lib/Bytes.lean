import Basedos.Lib.Memory
import Mathlib.Data.List.Basic

/-!
# Byte arrays that grow

A file's content is a string of bytes that can be written anywhere: a write past
the end fills the gap with zeros. `patch l p bs` is `l` with `bs` written from
position `p` on. A memory that holds a content holds the patched content after a store
(`bytes_put_patch`).
-/

namespace Basedos.Lib

/-- `l` with `bs` written from position `p` on, zeros filling a gap between the two. -/
def patch (l : List UInt8) (p : ℕ) (bs : List UInt8) : List UInt8 :=
  (l ++ List.replicate (p - l.length) 0).take p ++ bs ++ l.drop (p + bs.length)

@[simp] theorem length_patch (l : List UInt8) (p : ℕ) (bs : List UInt8) :
    (patch l p bs).length = max l.length (p + bs.length) := by
  simp [patch]
  omega

/-- A byte of the range written is the byte written there. -/
theorem getD_patch_of_mem {l bs : List UInt8} {p i : ℕ} (h₁ : p ≤ i) (h₂ : i < p + bs.length) :
    (patch l p bs).getD i 0 = bs.getD (i - p) 0 := by
  have hlen : ((l ++ List.replicate (p - l.length) 0).take p).length = p := by simp; omega
  rw [patch, List.append_assoc, List.getD_append_right _ _ _ _ (by omega), hlen,
    List.getD_append _ _ _ _ (by omega)]

/-- Outside the range written the bytes are the old ones, and zeros in a gap. -/
theorem getD_patch_of_not_mem {l bs : List UInt8} {p i : ℕ} (h : i < p ∨ p + bs.length ≤ i) :
    (patch l p bs).getD i 0 = l.getD i 0 := by
  have hlen : ((l ++ List.replicate (p - l.length) 0).take p).length = p := by simp; omega
  rcases h with h | h
  · rw [patch, List.append_assoc, List.getD_append _ _ _ _ (by omega)]
    simp only [List.getD_eq_getElem?_getD, List.getElem?_take, h, if_true, List.getElem?_append]
    by_cases hl : i < l.length
    · simp [hl]
    · simp [hl, List.getElem?_replicate]
      split <;> simp
  · rw [patch, List.getD_append_right _ _ _ _ (by simp; omega)]
    simp only [List.getD_eq_getElem?_getD, List.getElem?_drop]
    congr 2
    simp
    omega

/-- Byte arrays of the same length with the same bytes are the same. -/
theorem ext_getD {l l' : List UInt8} (hlen : l.length = l'.length)
    (h : ∀ i < l.length, l.getD i 0 = l'.getD i 0) : l = l' := by
  refine List.ext_getElem hlen fun i h₁ h₂ => ?_
  have := h i h₁
  rwa [List.getD_eq_getElem _ _ h₁, List.getD_eq_getElem _ _ h₂] at this

/-- **A store into a content held in memory.** Outside the range stored to, the memory holds the
old content, and zeros past its end. -/
theorem bytes_put_patch {m : Mem} {a : UInt32} {l bs : List UInt8} {p n : ℕ} (hfits : Fits a n)
    (hn : n = max l.length (p + bs.length))
    (hm : ∀ i < n, i < p ∨ p + bs.length ≤ i → m (a + UInt32.ofNat i) = l.getD i 0) :
    (m.put (a + UInt32.ofNat p) bs).bytes a n = patch l p bs := by
  have hfits' : a.toNat + n ≤ 2 ^ 32 := hfits
  refine ext_getD (by simp [hn]) fun i hi => ?_
  rw [Mem.length_bytes] at hi
  rw [Mem.getD_bytes hi]
  by_cases hbs : bs = []
  · subst hbs
    rw [Mem.put_nil, getD_patch_of_not_mem (by simp; omega)]
    exact hm i hi (by simp; omega)
  · have hpos := List.length_pos_iff.mpr hbs
    have hp : (a + UInt32.ofNat p).toNat = a.toNat + p := toNat_add_ofNat (by omega)
    have hai : (a + UInt32.ofNat i).toNat = a.toNat + i := toNat_add_ofNat (by omega)
    have hf : Fits (a + UInt32.ofNat p) bs.length := .of_le (by omega)
    by_cases hin : p ≤ i ∧ i < p + bs.length
    · have hadd : a + UInt32.ofNat i = a + UInt32.ofNat p + UInt32.ofNat (i - p) := by
        rw [UInt32.add_assoc, ← UInt32.ofNat_add, Nat.add_sub_cancel' hin.1]
      rw [hadd, Mem.put_of_mem hf (by omega), getD_patch_of_mem hin.1 hin.2]
    · rw [getD_patch_of_not_mem (by omega), ← hm i hi (by omega)]
      rcases Nat.lt_or_ge i p with hlt | hge
      · exact Mem.put_of_lt hf (by omega)
      · exact Mem.put_of_le (by omega)

end Basedos.Lib
