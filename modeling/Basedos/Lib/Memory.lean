import Mathlib.Data.List.GetD
import Mathlib.Data.UInt

/-!
# Byte memories

A memory of a 32-bit machine is a byte at each 32-bit address. The two operations
everything else is made of are `bytes`, the `n` bytes from an address on, and
`put`, the memory with a string of bytes stored from an address on. Addresses are
machine words, so a store that runs past the last address wraps round, as it does
on the machine; a range that does not wrap is `Fits`.

The lemmas say what a store does to a byte and to a range of bytes: it changes
nothing outside the range stored to (`put_of_lt`, `put_of_le`,
`bytes_put_of_disjoint`), and inside it puts the bytes stored (`put_of_mem`,
`bytes_put_self`). Little-endian words are laid over the bytes (`word`, `le4`).
-/

namespace Basedos.Lib

/-! ### Arithmetic of 32-bit words -/

theorem toNat_add_of_lt {a b : UInt32} (h : a.toNat + b.toNat < 2 ^ 32) :
    (a + b).toNat = a.toNat + b.toNat := by
  rw [UInt32.toNat_add, Nat.mod_eq_of_lt h]

theorem toNat_ofNat {n : ℕ} (h : n < 2 ^ 32) : (UInt32.ofNat n).toNat = n := by
  rw [UInt32.toNat_ofNat', Nat.mod_eq_of_lt h]

/-- A number taken to a word and counted from an address that leaves room for it. -/
theorem toNat_add_ofNat {a : UInt32} {n : ℕ} (h : a.toNat + n < 2 ^ 32) :
    (a + UInt32.ofNat n).toNat = a.toNat + n := by
  rw [UInt32.toNat_add, UInt32.toNat_ofNat']; omega

/-- Rounding down to a multiple of 4, as the mask `& ~3` does it. -/
theorem toNat_and_not_three (x : UInt32) : (x &&& ~~~(3 : UInt32)).toNat = x.toNat / 4 * 4 := by
  have hmask : ∀ j : Fin 32, (~~~(3#32))[j] = !decide (j.val < 2) := by decide
  have h : x &&& ~~~(3 : UInt32) = (x >>> 2) <<< 2 := by
    rw [← UInt32.toBitVec_inj]
    ext i hi
    have hi3 := hmask ⟨i, hi⟩
    simp only [Fin.getElem_fin] at hi3
    simp only [UInt32.toBitVec_and, UInt32.toBitVec_not, UInt32.toBitVec_ofNat, BitVec.getElem_and, hi3,
      UInt32.toBitVec_shiftLeft, UInt32.toBitVec_shiftRight]
    by_cases h2 : i < 2
    · simp [h2]
    · simp [h2, show 2 + (i - 2) = i by omega, BitVec.getLsbD_eq_getElem hi]
  rw [h, UInt32.toNat_shiftLeft, UInt32.toNat_shiftRight]
  have := x.toNat_lt
  simp only [UInt32.reduceToNat, Nat.reduceMod, Nat.shiftLeft_eq, Nat.shiftRight_eq_div_pow]
  omega

/-! ### Memories -/

/-- A memory: a byte at each address. -/
abbrev Mem := UInt32 → UInt8

/-- The range of `n` addresses from `a` on does not run past the last address. -/
def Fits (a : UInt32) (n : ℕ) : Prop := a.toNat + n ≤ 2 ^ 32

theorem Fits.of_le {a : UInt32} {n : ℕ} (h : a.toNat + n ≤ 2 ^ 32) : Fits a n := h

theorem Fits.le {a : UInt32} {n : ℕ} (h : Fits a n) : a.toNat + n ≤ 2 ^ 32 := h

/-- The ranges of `n` addresses from `a` and of `k` addresses from `b` on have no
address in common (for ranges that fit). -/
def Apart (a : UInt32) (n : ℕ) (b : UInt32) (k : ℕ) : Prop :=
  a.toNat + n ≤ b.toNat ∨ b.toNat + k ≤ a.toNat

theorem Apart.symm {a b : UInt32} {n k : ℕ} (h : Apart a n b k) : Apart b k a n := Or.symm h

/-- Smaller ranges are apart too. -/
theorem Apart.mono {a b : UInt32} {n n' k k' : ℕ} (h : Apart a n b k) (hn : n' ≤ n) (hk : k' ≤ k) :
    Apart a n' b k' := by
  unfold Apart at *; omega

namespace Mem

/-- The `n` bytes from address `a` on. -/
def bytes (m : Mem) (a : UInt32) (n : ℕ) : List UInt8 :=
  (List.range n).map fun i => m (a + UInt32.ofNat i)

/-- The memory with the bytes `bs` stored from address `a` on. -/
def put (m : Mem) (a : UInt32) (bs : List UInt8) : Mem := fun x => bs.getD (x - a).toNat (m x)

@[simp] theorem length_bytes (m : Mem) (a : UInt32) (n : ℕ) : (m.bytes a n).length = n := by
  simp [bytes]

@[simp] theorem bytes_zero (m : Mem) (a : UInt32) : m.bytes a 0 = [] := rfl

theorem bytes_const (v : UInt8) (a : UInt32) (n : ℕ) : bytes (fun _ => v) a n = List.replicate n v := by
  rw [bytes, List.map_const', List.length_range]

theorem getElem?_bytes (m : Mem) (a : UInt32) (n i : ℕ) :
    (m.bytes a n)[i]? = if i < n then some (m (a + UInt32.ofNat i)) else none := by
  by_cases h : i < n <;> simp [bytes, h]

theorem getD_bytes {m : Mem} {a : UInt32} {n i : ℕ} (h : i < n) (d : UInt8) :
    (m.bytes a n).getD i d = m (a + UInt32.ofNat i) := by
  rw [List.getD_eq_getElem?_getD, getElem?_bytes, if_pos h, Option.getD_some]

/-- Two ranges of bytes are the same when their bytes are. -/
theorem bytes_congr {m m' : Mem} {a a' : UInt32} {n : ℕ}
    (h : ∀ i < n, m (a + UInt32.ofNat i) = m' (a' + UInt32.ofNat i)) : m.bytes a n = m'.bytes a' n := by
  simp only [bytes]
  exact List.map_congr_left fun i hi => h i (List.mem_range.mp hi)

@[simp] theorem put_nil (m : Mem) (a : UInt32) : m.put a [] = m := by
  funext x; simp [put]

/-- An address below the range stored to is unchanged. -/
theorem put_of_lt {m : Mem} {a x : UInt32} {bs : List UInt8} (hf : Fits a bs.length)
    (h : x.toNat < a.toNat) : m.put a bs x = m x := by
  unfold put
  rw [List.getD_eq_default]
  rw [UInt32.toNat_sub]
  have := hf.le
  have := a.toNat_lt
  omega

/-- An address past the range stored to is unchanged. -/
theorem put_of_le {m : Mem} {a x : UInt32} {bs : List UInt8} (h : a.toNat + bs.length ≤ x.toNat) :
    m.put a bs x = m x := by
  unfold put
  rw [List.getD_eq_default]
  rw [UInt32.toNat_sub_of_le _ _ (by rw [UInt32.le_iff_toNat_le]; omega)]
  omega

/-- An address in the range stored to holds the byte stored there. -/
theorem put_of_mem {m : Mem} {a : UInt32} {bs : List UInt8} {i : ℕ} (hf : Fits a bs.length)
    (h : i < bs.length) : m.put a bs (a + UInt32.ofNat i) = bs.getD i 0 := by
  have hn : (a + UInt32.ofNat i - a).toNat = i := by
    rw [UInt32.add_comm, UInt32.add_sub_cancel, toNat_ofNat (by have := hf.le; omega)]
  unfold put
  rw [hn, List.getD_eq_getElem _ _ h, List.getD_eq_getElem _ _ h]

/-- The range stored to holds the bytes stored. -/
theorem bytes_put_self {m : Mem} {a : UInt32} {bs : List UInt8} (hf : Fits a bs.length) :
    (m.put a bs).bytes a bs.length = bs := by
  refine List.ext_getElem (length_bytes ..) fun i h₁ h₂ => ?_
  have hi := put_of_mem (m := m) hf h₂
  rw [List.getD_eq_getElem _ _ h₂] at hi
  simp only [bytes, List.getElem_map, List.getElem_range, hi]

/-- **The frame rule of a store**: a range apart from the one stored to is unchanged. -/
theorem bytes_put_of_disjoint {m : Mem} {a b : UInt32} {bs : List UInt8} {n : ℕ}
    (hf : Fits a bs.length) (hb : Fits b n) (h : Apart a bs.length b n) :
    (m.put a bs).bytes b n = m.bytes b n := by
  refine bytes_congr fun i hi => ?_
  have hx : (b + UInt32.ofNat i).toNat = b.toNat + i := toNat_add_ofNat (by have := hb.le; omega)
  rcases h with h | h
  · exact put_of_le (by omega)
  · exact put_of_lt hf (by omega)

/-- A range's first bytes and the rest of them. -/
theorem bytes_add (m : Mem) (a : UInt32) (n k : ℕ) :
    m.bytes a (n + k) = m.bytes a n ++ m.bytes (a + UInt32.ofNat n) k := by
  simp only [bytes, List.range_add, List.map_append, List.map_map]
  congr 1
  refine List.map_congr_left fun i _ => ?_
  simp [UInt32.add_assoc]

/-- A range's first byte and the rest of them. -/
theorem bytes_succ (m : Mem) (a : UInt32) (n : ℕ) : m.bytes a (n + 1) = m a :: m.bytes (a + 1) n := by
  rw [Nat.add_comm, bytes_add]
  simp [bytes]

/-- A part of a range of bytes. -/
theorem take_drop_bytes (m : Mem) (a : UInt32) {n k l : ℕ} (h : k + l ≤ n) :
    ((m.bytes a n).drop k).take l = m.bytes (a + UInt32.ofNat k) l := by
  refine List.ext_getElem (by simp; omega) fun i h₁ h₂ => ?_
  simp only [bytes, List.getElem_take, List.getElem_drop, List.getElem_map, List.getElem_range,
    UInt32.ofNat_add, UInt32.add_assoc]

/-- A byte stored, and the bytes after it stored next. -/
theorem put_cons (m : Mem) (a : UInt32) (x : UInt8) {bs : List UInt8} (h : bs.length < 2 ^ 32) :
    (m.put a [x]).put (a + 1) bs = m.put a (x :: bs) := by
  funext y
  unfold put
  cases hy : (y - a).toNat with
  | zero =>
    have hya : y = a := sub_eq_zero.mp (UInt32.toNat_inj.mp hy : y - a = 0)
    subst hya
    have hlast : (y - (y + 1)).toNat = 2 ^ 32 - 1 := by
      rw [UInt32.toNat_sub, UInt32.toNat_add]
      have := y.toNat_lt
      simp only [UInt32.reduceToNat]
      omega
    rw [hlast, List.getD_eq_default _ _ (by omega)]
    rfl
  | succ k =>
    have hk : (y - (a + 1)).toNat = k := by
      rw [UInt32.toNat_sub] at hy ⊢
      rw [UInt32.toNat_add]
      have := y.toNat_lt
      have := a.toNat_lt
      simp only [UInt32.reduceToNat]
      omega
    rw [hk, List.getD_cons_succ]
    simp

/-- Bytes stored, and before that the bytes after them. -/
theorem put_append (m : Mem) (a : UInt32) {bs cs : List UInt8} (h : bs.length < 2 ^ 32) :
    (m.put (a + UInt32.ofNat bs.length) cs).put a bs = m.put a (bs ++ cs) := by
  funext y
  unfold put
  by_cases hy : (y - a).toNat < bs.length
  · rw [List.getD_append _ _ _ _ hy, List.getD_eq_getElem _ _ hy, List.getD_eq_getElem _ _ hy]
  · have hsub : (y - (a + UInt32.ofNat bs.length)).toNat = (y - a).toNat - bs.length := by
      rw [← sub_sub, UInt32.toNat_sub_of_le, toNat_ofNat h]
      rw [UInt32.le_iff_toNat_le, toNat_ofNat h]
      omega
    rw [List.getD_eq_default _ _ (by omega), List.getD_append_right _ _ _ _ (by omega), hsub]

/-! ### Words -/

/-- The little-endian word at an address. -/
def word (m : Mem) (a : UInt32) : UInt32 :=
  (m a).toUInt32 + (m (a + 1)).toUInt32 <<< 8 + (m (a + 2)).toUInt32 <<< 16 + (m (a + 3)).toUInt32 <<< 24

end Mem

/-- The little-endian bytes of a word. -/
def le4 (v : UInt32) : List UInt8 :=
  [v.toUInt8, (v >>> 8).toUInt8, (v >>> 16).toUInt8, (v >>> 24).toUInt8]

@[simp] theorem length_le4 (v : UInt32) : (le4 v).length = 4 := rfl

/-- A word put together again from its bytes. -/
theorem le4_word (v : UInt32) :
    v.toUInt8.toUInt32 + (v >>> 8).toUInt8.toUInt32 <<< 8 + (v >>> 16).toUInt8.toUInt32 <<< 16 +
      (v >>> 24).toUInt8.toUInt32 <<< 24 = v := by
  have hv := v.toNat_lt
  apply UInt32.toNat_inj.mp
  simp only [UInt32.toNat_add, UInt8.toNat_toUInt32, UInt32.toNat_toUInt8, UInt32.toNat_shiftLeft,
    UInt32.toNat_shiftRight, UInt32.reduceToNat, Nat.reduceMod, Nat.shiftLeft_eq,
    Nat.shiftRight_eq_div_pow]
  omega

namespace Mem

/-- A word reads the four bytes at its address. -/
theorem word_congr {m m' : Mem} {a : UInt32} (h : m.bytes a 4 = m'.bytes a 4) : m.word a = m'.word a := by
  simp only [bytes, List.range_succ, List.range_zero] at h
  simp at h
  obtain ⟨h0, h1, h2, h3⟩ := h
  simp only [word]
  rw [h0, h1, h2, h3]

/-- A word stored is read back. -/
theorem word_put_self {m : Mem} {a : UInt32} (v : UInt32) (hf : Fits a 4) : (m.put a (le4 v)).word a = v := by
  have h : ∀ i < 4, m.put a (le4 v) (a + UInt32.ofNat i) = (le4 v).getD i 0 :=
    fun i hi => put_of_mem hf hi
  have h0 := h 0 (by omega)
  have h1 := h 1 (by omega)
  have h2 := h 2 (by omega)
  have h3 := h 3 (by omega)
  simp [le4] at h0 h1 h2 h3
  simp only [word]
  rw [le4, h0, h1, h2, h3]
  exact le4_word v

/-- A word apart from the range stored to is unchanged. -/
theorem word_put_of_disjoint {m : Mem} {a b : UInt32} {bs : List UInt8} (hf : Fits a bs.length)
    (hb : Fits b 4) (h : Apart a bs.length b 4) : (m.put a bs).word b = m.word b :=
  word_congr (bytes_put_of_disjoint hf hb h)

end Mem

/-! ### Half-words -/

/-- The little-endian bytes of a half-word. -/
def le2 (v : UInt16) : List UInt8 := [v.toUInt8, (v >>> 8).toUInt8]

@[simp] theorem length_le2 (v : UInt16) : (le2 v).length = 2 := rfl

/-- A word from its two half-words. -/
theorem halves (v : UInt32) :
    (v &&& 0xFFFF).toUInt16.toUInt32 + (v >>> 16 &&& 0xFFFF).toUInt16.toUInt32 <<< 16 = v := by
  have hv := v.toNat_lt
  have hmask : ∀ n : ℕ, n &&& 65535 = n % 65536 := fun n => Nat.and_two_pow_sub_one_eq_mod n 16
  apply UInt32.toNat_inj.mp
  simp only [UInt32.toNat_add, UInt16.toNat_toUInt32, UInt32.toNat_toUInt16, UInt32.toNat_shiftLeft,
    UInt32.toNat_and, UInt32.toNat_shiftRight, UInt32.reduceToNat, Nat.reduceMod, hmask, Nat.shiftLeft_eq,
    Nat.shiftRight_eq_div_pow]
  omega

/-- A half-word put together again from its bytes. -/
theorem le2_half (v : UInt16) : v.toUInt8.toUInt16 + (v >>> 8).toUInt8.toUInt16 <<< 8 = v := by
  have hv := v.toNat_lt
  apply UInt16.toNat_inj.mp
  simp only [UInt16.toNat_add, UInt8.toNat_toUInt16, UInt16.toNat_toUInt8, UInt16.toNat_shiftLeft,
    UInt16.toNat_shiftRight, UInt16.reduceToNat, Nat.reduceMod, Nat.shiftLeft_eq, Nat.shiftRight_eq_div_pow]
  omega

namespace Mem

/-- The little-endian half-word at an address. -/
def half (m : Mem) (a : UInt32) : UInt16 := (m a).toUInt16 + (m (a + 1)).toUInt16 <<< 8

/-- A half-word reads the two bytes at its address. -/
theorem half_congr {m m' : Mem} {a : UInt32} (h : m.bytes a 2 = m'.bytes a 2) : m.half a = m'.half a := by
  simp only [bytes, List.range_succ, List.range_zero] at h
  simp at h
  obtain ⟨h0, h1⟩ := h
  simp only [half]
  rw [h0, h1]

/-- A half-word stored is read back. -/
theorem half_put_self {m : Mem} {a : UInt32} (v : UInt16) (hf : Fits a 2) : (m.put a (le2 v)).half a = v := by
  have h : ∀ i < 2, m.put a (le2 v) (a + UInt32.ofNat i) = (le2 v).getD i 0 :=
    fun i hi => put_of_mem hf hi
  have h0 := h 0 (by omega)
  have h1 := h 1 (by omega)
  simp [le2] at h0 h1
  simp only [half]
  rw [le2, h0, h1]
  exact le2_half v

/-- A half-word apart from the range stored to is unchanged. -/
theorem half_put_of_disjoint {m : Mem} {a b : UInt32} {bs : List UInt8} (hf : Fits a bs.length)
    (hb : Fits b 2) (h : Apart a bs.length b 2) : (m.put a bs).half b = m.half b :=
  half_congr (bytes_put_of_disjoint hf hb h)

end Mem

end Basedos.Lib
