import Basedos.Lib.Memory

/-!
# Moving memory

`memmove` of `lib/string.c`: it copies from the first byte on when the destination is the lower address,
and from the last byte back when it is not.

## The model

Memory is a byte at each 32-bit address, and pointers are addresses. Each loop reads a byte and stores it
before it reads the next, so that it may read what it has stored. The end of a range may be the end of the
address space: the pointer past it is then `0`.

## What is proved

* `copyForwards_eq`, `copyBackwards_eq` — each loop stores what the source held **before** it: forwards,
  unless the destination begins inside the source past its first byte, and backwards, unless it begins
  before the source.
* `memmove_eq` — the order taken is the one that does so.
* `memmove_moves` — the same by addresses, with all others unchanged.
-/

namespace Basedos.CLib

open Basedos.Lib

/-- `while (num-- > 0) *d++ = *s++;`. -/
def copyForwards (m : Mem) (d s : UInt32) : ℕ → Mem
  | 0 => m
  | num + 1 => copyForwards (m.put d [m s]) (d + 1) (s + 1) num

/-- `while (num-- > 0) *--d = *--s;`. -/
def copyBackwards (m : Mem) (d s : UInt32) : ℕ → Mem
  | 0 => m
  | num + 1 => copyBackwards (m.put (d - 1) [m (s - 1)]) (d - 1) (s - 1) num

/-- `memmove`: the memory after it, and the pointer returned. -/
def memmove (m : Mem) (dest src num : UInt32) : Mem × UInt32 :=
  if dest < src then (copyForwards m dest src num.toNat, dest)
  else (copyBackwards m (dest + num) (src + num) num.toNat, dest)

/-! ### The two loops -/

/-- **Forwards**: the byte stored is none of those still to be read, which lie past it. -/
theorem copyForwards_eq (m : Mem) {d s : UInt32} {n : ℕ} (hd : Fits d n) (hs : Fits s n)
    (h : d.toNat ≤ s.toNat ∨ s.toNat + n ≤ d.toNat) : copyForwards m d s n = m.put d (m.bytes s n) := by
  induction n generalizing m d s with
  | zero => simp [copyForwards]
  | succ n ih =>
    have hd' : d.toNat + (n + 1) ≤ 2 ^ 32 := hd
    have hs' : s.toNat + (n + 1) ≤ 2 ^ 32 := hs
    rw [copyForwards, Mem.bytes_succ]
    cases n with
    | zero => simp [copyForwards]
    | succ n =>
      have hd1 : (d + 1).toNat = d.toNat + 1 := toNat_add_of_lt (by simp; omega)
      have hs1 : (s + 1).toNat = s.toNat + 1 := toNat_add_of_lt (by simp; omega)
      have hread : (m.put d [m s]).bytes (s + 1) (n + 1) = m.bytes (s + 1) (n + 1) :=
        Mem.bytes_put_of_disjoint (.of_le (by simp; omega)) (.of_le (by omega))
          (by simp only [Apart, List.length_singleton]; omega)
      rw [ih _ (.of_le (by omega)) (.of_le (by omega)) (by omega), hread,
        Mem.put_cons _ _ _ (by simp only [Mem.length_bytes]; omega)]

/-- **Backwards**: those still to be read lie before it. -/
theorem copyBackwards_eq (m : Mem) {d s : UInt32} {n : ℕ} (hd : Fits d n) (hs : Fits s n)
    (h : s.toNat ≤ d.toNat) :
    copyBackwards m (d + UInt32.ofNat n) (s + UInt32.ofNat n) n = m.put d (m.bytes s n) := by
  induction n generalizing m with
  | zero => simp [copyBackwards]
  | succ n ih =>
    have hd' : d.toNat + (n + 1) ≤ 2 ^ 32 := hd
    have hs' : s.toNat + (n + 1) ≤ 2 ^ 32 := hs
    have hdn : (d + UInt32.ofNat n).toNat = d.toNat + n := toNat_add_ofNat (by omega)
    have hlast (a : UInt32) : a + UInt32.ofNat (n + 1) - 1 = a + UInt32.ofNat n := by
      rw [UInt32.ofNat_add, ← UInt32.add_assoc]
      exact UInt32.add_sub_cancel _ _
    have hread : (m.put (d + UInt32.ofNat n) [m (s + UInt32.ofNat n)]).bytes s n = m.bytes s n :=
      Mem.bytes_put_of_disjoint (.of_le (by simp; omega)) (.of_le (by omega)) (.inr (by omega))
    have happend (x : UInt8) : (m.put (d + UInt32.ofNat n) [x]).put d (m.bytes s n) = m.put d (m.bytes s n ++ [x]) := by
      have hlen : (m.bytes s n).length = n := Mem.length_bytes m s n
      rw [← Mem.put_append m d (by omega), hlen]
    rw [copyBackwards, hlast, hlast, ih _ (.of_le (by omega)) (.of_le (by omega)), hread, happend, Mem.bytes_add]
    simp [Mem.bytes]

/-! ### `memmove` -/

/-- The destination gets what the source held, and nothing else changes. -/
theorem memmove_eq (m : Mem) {dest src num : UInt32} (hd : Fits dest num.toNat) (hs : Fits src num.toNat) :
    memmove m dest src num = (m.put dest (m.bytes src num.toNat), dest) := by
  unfold memmove
  split_ifs with h
  · rw [copyForwards_eq m hd hs (.inl (UInt32.lt_iff_toNat_lt.mp h).le)]
  · have hle : src.toNat ≤ dest.toNat := Nat.le_of_not_lt fun hlt => h (UInt32.lt_iff_toNat_lt.mpr hlt)
    have hback := copyBackwards_eq m hd hs hle
    rw [UInt32.ofNat_toNat] at hback
    rw [hback]

/-- **`memmove` copies overlapping ranges**: for every memory, two addresses and a number of bytes that do
not pass the end of the address space. -/
theorem memmove_moves (m : Mem) {dest src num : UInt32} (hd : dest.toNat + num.toNat ≤ 2 ^ 32)
    (hs : src.toNat + num.toNat ≤ 2 ^ 32) :
    (∀ i < num.toNat, (memmove m dest src num).1 (dest + UInt32.ofNat i) = m (src + UInt32.ofNat i)) ∧
      (∀ a : UInt32, a.toNat < dest.toNat ∨ dest.toNat + num.toNat ≤ a.toNat →
        (memmove m dest src num).1 a = m a) ∧
      (memmove m dest src num).2 = dest := by
  have hfit : Fits dest (m.bytes src num.toNat).length := by rw [Mem.length_bytes]; exact hd
  rw [memmove_eq m hd hs]
  refine ⟨fun i hi => ?_, fun a ha => ?_, rfl⟩
  · exact (Mem.put_of_mem hfit (by rwa [Mem.length_bytes])).trans (Mem.getD_bytes hi 0)
  · rcases ha with ha | ha
    · exact Mem.put_of_lt hfit ha
    · exact Mem.put_of_le (by rwa [Mem.length_bytes])

/-- Three bytes moved up by one, to the end of the address space. -/
theorem memmove_moves_last :
    (∀ i < (3 : UInt32).toNat, (memmove (fun a => a.toUInt8) 0xFFFFFFFD 0xFFFFFFFC 3).1
        (0xFFFFFFFD + UInt32.ofNat i) = (0xFFFFFFFC + UInt32.ofNat i).toUInt8) ∧
      (∀ a : UInt32, a.toNat < (0xFFFFFFFD : UInt32).toNat ∨
          (0xFFFFFFFD : UInt32).toNat + (3 : UInt32).toNat ≤ a.toNat →
        (memmove (fun a => a.toUInt8) 0xFFFFFFFD 0xFFFFFFFC 3).1 a = a.toUInt8) ∧
      (memmove (fun a => a.toUInt8) 0xFFFFFFFD 0xFFFFFFFC 3).2 = 0xFFFFFFFD :=
  memmove_moves (fun a => a.toUInt8) (by decide) (by decide)

end Basedos.CLib
