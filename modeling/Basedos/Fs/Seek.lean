import Basedos.Fs.Exhaustion
import Basedos.Lib.Signed

/-!
# Seeking

`lseek` adds a signed offset to one of three bases, stores the sum as the position, which
is an unsigned word, and returns it as a signed one. What it returns is also how it reports
an error, and nothing is tested: the position is set first, whatever the sum is.

The rule such a call is meant to follow is `LseekExact`: a negative value leaves every position as it
was, any other is the base plus the offset, without wrapping, and the new position. It is
followed just when that sum is a position a signed word can hold, or when the call moves
nothing (`SeekFits`); a sum below zero, or from `2 ^ 31` on, is stored all the same
(`lseek_exact_iff`).
-/

namespace Basedos.Fs

open Basedos.Lib Basedos.CLib Basedos.Kernel

universe u

variable {D : Type u} {s : Vfs D}

/-! ### What is asked for -/

/-- What the offset is counted from: the start, the position, or the length of the file. There is
nothing for another `whence`. -/
def seekBase (s : Vfs D) (i : Fin 64) (node : UInt32) (whence : Int32) : Option UInt32 :=
  if whence = SEEK_SET then some 0
  else if whence = SEEK_CUR then some (s.fileDescriptors i).pos
  else if whence = SEEK_END then some (s.world.node node).length
  else none

/-- The position a call asks for, in unbounded integers, with the descriptor it asks it of. -/
def seekTarget (s : Vfs D) (fd offset whence : Int32) : Option (Fin 64 × ℤ) :=
  (s.lookup fd).bind fun ip => (seekBase s ip.1 ip.2 whence).map fun b => (ip.1, b.toNat + offset.toInt)

/-- **An `lseek` that fails changes no position, and one that succeeds is exact.** -/
structure LseekExact (s : Vfs D) (fd offset whence : Int32) : Prop where
  /-- After a negative value every position is what it was. -/
  atomic : (fdLseek s fd offset whence).1 < 0 →
    ∀ i, ((fdLseek s fd offset whence).2.fileDescriptors i).pos = (s.fileDescriptors i).pos
  /-- Any other is the position asked for, and the new one, and no other descriptor changes. -/
  exact : 0 ≤ (fdLseek s fd offset whence).1 →
    ∃ i v, seekTarget s fd offset whence = some (i, v) ∧ (fdLseek s fd offset whence).1.toInt = v ∧
      (((fdLseek s fd offset whence).2.fileDescriptors i).pos.toNat : ℤ) = v ∧
      ∀ j ≠ i, (fdLseek s fd offset whence).2.fileDescriptors j = s.fileDescriptors j

/-- The position asked for is one a signed word can hold; or the position is none of these, and
the offset goes round to it again. -/
def SeekFits (s : Vfs D) (fd offset whence : Int32) : Prop :=
  ∀ iv ∈ seekTarget s fd offset whence, (0 ≤ iv.2 ∧ iv.2 < 2 ^ 31) ∨
    (2 ^ 31 ≤ (s.fileDescriptors iv.1).pos.toNat ∧ iv.2 % 2 ^ 32 = (s.fileDescriptors iv.1).pos.toNat)

instance (s : Vfs D) (fd offset whence : Int32) : Decidable (SeekFits s fd offset whence) :=
  inferInstanceAs (Decidable (∀ iv ∈ seekTarget s fd offset whence, _))

/-! ### What is done -/

/-- A signed word added to an unsigned one: the sum, up to multiples of `2 ^ 32`. -/
theorem toNat_add_toUInt32 (b : UInt32) (offset : Int32) :
    ((b + offset.toUInt32).toNat : ℤ) = (b.toNat + offset.toInt) % 2 ^ 32 := by
  rw [UInt32.toNat_add]
  push_cast
  rw [toNat_toUInt32 offset]
  omega

/-- The base and the offset added as words: the sum is stored, and returned as it is. -/
theorem fdLseek_eq {fd : Int32} {i : Fin 64} {p : UInt32} (h : s.lookup fd = some (i, p)) (offset whence : Int32) :
    fdLseek s fd offset whence =
      match seekBase s i p whence with
      | none => (-1, s)
      | some b =>
        ((b + offset.toUInt32).toInt32, s.setFd i { s.fileDescriptors i with pos := b + offset.toUInt32 }) := by
  simp only [fdLseek, h, seekBase]
  split
  · simp only [UInt32.zero_add, Int32.toInt32_toUInt32]
  · split
    · rfl
    · split <;> rfl

/-- Nothing is asked of the descriptor: `-1`, and nothing changes. -/
theorem fdLseek_none {fd offset whence : Int32} (h : seekTarget s fd offset whence = none) :
    fdLseek s fd offset whence = (-1, s) := by
  cases hl : s.lookup fd with
  | none => simp only [fdLseek, hl]
  | some ip =>
    obtain ⟨i, p⟩ := ip
    have hb : seekBase s i p whence = none := by
      simpa only [seekTarget, hl, Option.bind_some, Option.map_eq_none_iff] using h
    rw [fdLseek_eq hl, hb]

/-- **What is asked for is stored**, up to multiples of `2 ^ 32`, and returned as it is. -/
theorem fdLseek_some {fd offset whence : Int32} {i : Fin 64} {v : ℤ}
    (h : seekTarget s fd offset whence = some (i, v)) :
    ∃ q : UInt32, (q.toNat : ℤ) = v % 2 ^ 32 ∧
      fdLseek s fd offset whence = (q.toInt32, s.setFd i { s.fileDescriptors i with pos := q }) := by
  obtain ⟨⟨j, p⟩, hl, hmap⟩ := Option.bind_eq_some_iff.mp h
  obtain ⟨b, hb, hv⟩ := Option.map_eq_some_iff.mp hmap
  obtain ⟨rfl, rfl⟩ := Prod.mk.inj hv
  exact ⟨b + offset.toUInt32, toNat_add_toUInt32 b offset, by rw [fdLseek_eq hl, hb]⟩

/-! ### When it is what was asked for -/

section Target

variable {fd offset whence : Int32} {i : Fin 64} {v : ℤ} {q : UInt32}

theorem seekFits_some (h : seekTarget s fd offset whence = some (i, v)) : SeekFits s fd offset whence ↔
    (0 ≤ v ∧ v < 2 ^ 31) ∨
      (2 ^ 31 ≤ (s.fileDescriptors i).pos.toNat ∧ v % 2 ^ 32 = (s.fileDescriptors i).pos.toNat) := by
  simp only [SeekFits, h, Option.mem_some_iff, forall_eq']

/-- The value returned is negative just when the position stored is from `2 ^ 31` on. -/
theorem zero_le_toInt32 (q : UInt32) : (0 : Int32) ≤ q.toInt32 ↔ q.toNat < 2 ^ 31 := by
  have hlt := q.toNat_lt
  rw [Int32.le_iff_toInt_le, toInt_toInt32]
  change 0 ≤ _ ↔ _
  split <;> omega

theorem pos_setFd (s : Vfs D) (i : Fin 64) (q : UInt32) (j : Fin 64) :
    ((s.setFd i { s.fileDescriptors i with pos := q }).fileDescriptors j).pos =
      if j = i then q else (s.fileDescriptors j).pos := by
  by_cases hj : j = i
  · subst hj
    simp
  · simp [hj]

/-- An exact call asked for what fits. -/
theorem LseekExact.fits (h : LseekExact s fd offset whence) : SeekFits s fd offset whence := by
  intro iv ht
  obtain ⟨i, v⟩ := iv
  obtain ⟨q, hq, hr⟩ := fdLseek_some (Option.mem_def.mp ht)
  have hlt := q.toNat_lt
  by_cases hsmall : q.toNat < 2 ^ 31
  · obtain ⟨j, w, hjw, hret, -⟩ := h.exact (by rw [hr]; exact (zero_le_toInt32 q).mpr hsmall)
    rw [Option.mem_def.mp ht] at hjw
    obtain ⟨rfl, rfl⟩ := Prod.mk.inj (Option.some.inj hjw)
    rw [hr] at hret
    simp only [toInt_toInt32, if_pos hsmall] at hret
    exact .inl (by omega)
  · have hneg : (fdLseek s fd offset whence).1 < 0 := by
      rw [hr]
      exact Int32.not_le.mp fun hle => hsmall ((zero_le_toInt32 q).mp hle)
    have hat := h.atomic hneg i
    rw [hr, pos_setFd, if_pos rfl] at hat
    rw [← hat]
    exact .inr ⟨by omega, hq.symm⟩

/-- A call on what is not live, or with an unknown `whence`, is refused. -/
theorem lseekExact_none (h : seekTarget s fd offset whence = none) : LseekExact s fd offset whence := by
  have hneg : ¬ (0 : Int32) ≤ -1 := by decide
  refine ⟨fun _ i => ?_, fun hle => ?_⟩
  · rw [fdLseek_none h]
  · rw [fdLseek_none h] at hle
    exact absurd hle hneg

/-- A position a signed word can hold is stored and returned. -/
theorem lseekExact_some (h : seekTarget s fd offset whence = some (i, v)) (h0 : 0 ≤ v) (h31 : v < 2 ^ 31) :
    LseekExact s fd offset whence := by
  obtain ⟨q, hq, hr⟩ := fdLseek_some h
  have hqv : (q.toNat : ℤ) = v := by omega
  refine ⟨fun hneg => ?_, fun _ => ⟨i, v, h, ?_, ?_, fun j hj => ?_⟩⟩
  · rw [hr] at hneg
    exact absurd ((zero_le_toInt32 q).mpr (by omega)) (Int32.not_le.mpr hneg)
  · rw [hr, toInt_toInt32, if_pos (by omega), hqv]
  · rw [hr, pos_setFd, if_pos rfl, hqv]
  · rw [hr, setFd_fileDescriptors, Function.update_of_ne hj]

/-- A position from `2 ^ 31` on that the offset goes round to again. -/
theorem lseekExact_same (h : seekTarget s fd offset whence = some (i, v))
    (hbig : 2 ^ 31 ≤ (s.fileDescriptors i).pos.toNat) (hmod : v % 2 ^ 32 = (s.fileDescriptors i).pos.toNat) :
    LseekExact s fd offset whence := by
  obtain ⟨q, hq, hr⟩ := fdLseek_some h
  have hqpos : q = (s.fileDescriptors i).pos := UInt32.toNat_inj.mp (by omega)
  refine ⟨fun _ j => ?_, fun hle => ?_⟩
  · rw [hr, pos_setFd]
    split
    · next hj => rw [hj, hqpos]
    · rfl
  · rw [hr] at hle
    have := (zero_le_toInt32 q).mp hle
    rw [hqpos] at this
    omega

/-- **One call** is exact just when the position asked for is one a signed word can hold, or the
call moves nothing. -/
theorem lseekExact_iff (s : Vfs D) (fd offset whence : Int32) :
    LseekExact s fd offset whence ↔ SeekFits s fd offset whence := by
  constructor
  · exact LseekExact.fits
  · intro h
    cases ht : seekTarget s fd offset whence with
    | none => exact lseekExact_none ht
    | some iv =>
      rcases (seekFits_some ht).mp h with ⟨h0, h31⟩ | ⟨hbig, hmod⟩
      · exact lseekExact_some ht h0 h31
      · exact lseekExact_same ht hbig hmod

end Target

/-! ### Runs of `lseek` -/

/-- What `lseek` is called with. -/
structure SeekArgs where
  /-- The descriptor. -/
  fd : Int32
  /-- The offset. -/
  offset : Int32
  /-- What it is counted from. -/
  whence : Int32

/-- One call. -/
def seekStep (s : Vfs D) (c : SeekArgs) : Int32 × Vfs D := fdLseek s c.fd c.offset c.whence

/-- Every position is one a signed word can hold. -/
def Vfs.Bounded (s : Vfs D) : Prop := ∀ i, (s.fileDescriptors i).pos.toNat < 2 ^ 31

/-- An exact call leaves the positions bounded. -/
theorem LseekExact.bounded {c : SeekArgs} (h : LseekExact s c.fd c.offset c.whence) (hs : s.Bounded) :
    (seekStep s c).2.Bounded := by
  intro j
  unfold seekStep
  by_cases hneg : (fdLseek s c.fd c.offset c.whence).1 < 0
  · rw [h.atomic hneg j]
    exact hs j
  · obtain ⟨i, v, -, hret, hpos, hframe⟩ := h.exact (Int32.not_lt.mp hneg)
    by_cases hj : j = i
    · subst hj
      have := Int32.toInt_lt (fdLseek s c.fd c.offset c.whence).1
      omega
    · rw [hframe j hj]
      exact hs j

/-- **When `lseek` is atomic and exact**: a call just when what it asks for fits; and the calls of a run
that starts with bounded positions all are, and leave the positions bounded, just when all they
ask for fits. -/
theorem lseek_exact_iff (s : Vfs D) :
    (∀ fd offset whence, LseekExact s fd offset whence ↔ SeekFits s fd offset whence) ∧
    (s.Bounded → ∀ calls : List SeekArgs,
      (Along seekStep (fun t c => LseekExact t c.fd c.offset c.whence) s calls ∧
        ∀ n, (run seekStep s (calls.take n)).2.Bounded) ↔
      Along seekStep (fun t c => SeekFits t c.fd c.offset c.whence) s calls) := by
  refine ⟨lseekExact_iff s, fun hs calls => ?_⟩
  have hcalls : Along seekStep (fun t c => LseekExact t c.fd c.offset c.whence) s calls ↔
      Along seekStep (fun t c => SeekFits t c.fd c.offset c.whence) s calls :=
    along_congr (J := fun _ => True) (fun _ _ _ => trivial)
      (fun t c _ => lseekExact_iff t c.fd c.offset c.whence) trivial calls
  rw [← hcalls, and_iff_left_iff_imp]
  exact fun hall n => run_inv_take (fun t c ht hc => hc.bounded ht) hs hall n

/-- The small tree with its root opened. -/
def smallOpened : Vfs Memfs := (fdOpen memfsDrivers smallVfs rootName O_RDWR).2

/-- Five bytes on and five back, in a table with one descriptor in use. -/
theorem lseek_exact_small : smallOpened.Live 0 ∧
    (Along seekStep (fun t c => LseekExact t c.fd c.offset c.whence) smallOpened
        [⟨0, 5, SEEK_END⟩, ⟨0, -5, SEEK_CUR⟩] ∧
      ∀ n, (run seekStep smallOpened ([⟨0, 5, SEEK_END⟩, ⟨0, -5, SEEK_CUR⟩].take n)).2.Bounded) := by
  have hbounded : smallOpened.Bounded := by
    unfold Vfs.Bounded
    decide +kernel
  refine ⟨⟨0, by decide +kernel, by decide +kernel⟩, ((lseek_exact_iff smallOpened).2 hbounded _).mpr ?_⟩
  decide +kernel

/-- One byte before the start: `-1` is returned, and the position is now `2 ^ 32 - 1`. -/
theorem not_forall_lseek_exact : (fdLseek smallOpened 0 (-1) SEEK_SET).1 = -1 ∧
    ((fdLseek smallOpened 0 (-1) SEEK_SET).2.fileDescriptors 0).pos = 0xFFFFFFFF ∧
    ¬ ∀ (calls : List Call) (fd offset whence : Int32),
      LseekExact (run (fdStep memfsDrivers) smallVfs calls).2 fd offset whence := by
  refine ⟨by decide +kernel, by decide +kernel, fun h => ?_⟩
  have hfits : SeekFits smallOpened 0 (-1) SEEK_SET := (h [.open_ rootName O_RDWR] 0 (-1) SEEK_SET).fits
  exact absurd hfits (by decide +kernel)

end Basedos.Fs
