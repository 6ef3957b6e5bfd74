import Basedos.Fs.Vfs

/-!
# The descriptor table over whole runs

The calls `open`, `close`, `read`, `write` and `lseek` share one table of 64 slots.
This module says what a caller can rely on about the table, in every run of calls
with any arguments, whatever the file systems answer: nothing is assumed of
`Drivers`, so path lookup may end in any way and a node's functions may report any
count.

The live descriptors are defined from the outside, by what the calls have returned
(`noteCall`): a descriptor is live when `open` has returned it and it has not been
passed to `close` since. `descriptor_discipline` says that these are just the slots
in use (`Vfs.Live`), and what each call does in terms of them (`Disciplined`).
-/

namespace Basedos.Fs

open Basedos.Lib Basedos.CLib Basedos.Kernel

universe u

variable {D : Type u} {K : Drivers D} {s : Vfs D}

/-! ### Slots -/

theorem toInt_ofNat_fin (i : Fin 64) : (Int32.ofNat i.val).toInt = i.val :=
  Int32.toInt_ofNat_of_lt (by omega)

/-- The descriptor of a slot. -/
theorem slot_ofNat (i : Fin 64) : slot (Int32.ofNat i.val) = some i := by
  have h := toInt_ofNat_fin i
  rw [slot, dif_pos (by rw [h]; omega)]
  simp only [h, Int.toNat_natCast]

theorem slot_eq_some {fd : Int32} {i : Fin 64} (h : slot fd = some i) : fd = Int32.ofNat i.val := by
  rw [← Int32.toInt_inj, toInt_ofNat_fin]
  unfold slot at h
  split at h
  · next hr =>
    simp only [Option.some.injEq] at h
    subst h
    simp only [Int.toNat_of_nonneg hr.1]
  · cases h

/-- The value `open` returns for a slot is not the error value. -/
theorem ofNat_fin_ne_neg_one (i : Fin 64) : Int32.ofNat i.val ≠ -1 := by
  intro h
  have := congrArg Int32.toInt h
  rw [toInt_ofNat_fin] at this
  simp at this

/-- A descriptor in use. -/
def Vfs.Live (s : Vfs D) (fd : Int32) : Prop := ∃ i, slot fd = some i ∧ (s.fileDescriptors i).node ≠ none

theorem live_ofNat (i : Fin 64) : s.Live (Int32.ofNat i.val) ↔ (s.fileDescriptors i).node ≠ none := by
  simp only [Vfs.Live, slot_ofNat, Option.some.injEq, exists_eq_left']

theorem lookup_eq_none {fd : Int32} : s.lookup fd = none ↔ ¬ s.Live fd := by
  unfold Vfs.lookup Vfs.Live
  cases slot fd with
  | none => simp
  | some i => simp

theorem lookup_eq_some {fd : Int32} {i : Fin 64} {p : UInt32} :
    s.lookup fd = some (i, p) ↔ slot fd = some i ∧ (s.fileDescriptors i).node = some p := by
  unfold Vfs.lookup
  cases slot fd with
  | none => simp
  | some j =>
    simp only [Option.map_eq_some_iff, Prod.mk.injEq, Option.some.injEq]
    constructor
    · rintro ⟨q, hq, rfl, rfl⟩; exact ⟨rfl, hq⟩
    · rintro ⟨rfl, hp⟩; exact ⟨p, hp, rfl, rfl⟩

@[simp] theorem setFd_fileDescriptors (s : Vfs D) (i : Fin 64) (d : FileDescriptor) :
    (s.setFd i d).fileDescriptors = Function.update s.fileDescriptors i d := rfl

/-- The first free slot: it is free, and every slot before it is in use. -/
theorem findFree_eq_some {table : Fin 64 → FileDescriptor} {i : Fin 64} (h : findFree table = some i) :
    (table i).node = none ∧ ∀ j < i, (table j).node ≠ none := by
  obtain ⟨hi, as, bs, heq, hbefore⟩ := List.find?_eq_some_iff_append.mp h
  refine ⟨by simpa using hi, fun j hj => ?_⟩
  have hmem : j ∈ as := by
    have hjm : j ∈ as ++ i :: bs := heq ▸ List.mem_finRange j
    rcases List.mem_append.mp hjm with hj' | hj'
    · exact hj'
    · have hs : (as ++ i :: bs).Pairwise (· < ·) := heq ▸ List.pairwise_lt_finRange 64
      have hs' := (List.pairwise_append.mp hs).2.1
      rcases List.mem_cons.mp hj' with rfl | hj'
      · omega
      · have := List.rel_of_pairwise_cons hs' hj'
        omega
  have := hbefore j hmem
  rw [← Option.isSome_iff_ne_none]
  simpa using this

theorem findFree_eq_none {table : Fin 64 → FileDescriptor} :
    findFree table = none ↔ ∀ i, (table i).node ≠ none := by
  simp [findFree, Option.isNone_iff_eq_none]

/-! ### What each call does to the table -/

/-- **What `open` does**: no free slot, and nothing changes; no node, and the table does not
change; or a node, which goes into the first free slot. -/
theorem fdOpen_cases (filename : CStr) (flags : UInt32) :
    (findFree s.fileDescriptors = none ∧ fdOpen K s filename flags = (-1, s)) ∨
    (∃ i, findFree s.fileDescriptors = some i ∧
      (vfsOpen K s.world s.fsRoot filename.bytes flags).1 = none ∧
      fdOpen K s filename flags =
        (-1, { s with world := (vfsOpen K s.world s.fsRoot filename.bytes flags).2 })) ∨
    (∃ i p w, findFree s.fileDescriptors = some i ∧
      (vfsOpen K s.world s.fsRoot filename.bytes flags).1 = some p ∧
      fdOpen K s filename flags = (Int32.ofNat i.val, { s with world := w }.setFd i ⟨some p, 0, flags⟩)) := by
  cases hf : findFree s.fileDescriptors with
  | none => exact .inl ⟨rfl, by simp only [fdOpen, hf]⟩
  | some i =>
    rcases ho : vfsOpen K s.world s.fsRoot filename.bytes flags with ⟨node, w⟩
    cases node with
    | none => exact .inr (.inl ⟨i, rfl, rfl, by simp only [fdOpen, hf, ho]⟩)
    | some p =>
      refine .inr (.inr ⟨i, p, if (w.node p).open_ ≠ 0 then K.open_ (w.node p).open_ w p flags else w,
        rfl, rfl, ?_⟩)
      simp only [fdOpen, hf, ho, Vfs.setFd]

/-- **What `close` does** to a live descriptor. -/
theorem fdClose_live {fd : Int32} {i : Fin 64} {p : UInt32} (h : s.lookup fd = some (i, p)) :
    ∃ w, fdClose K s fd = (0, { s with world := w }.setFd i .free) := by
  simp only [fdClose, h]
  exact ⟨_, rfl⟩

/-- **What `read` does** to a live descriptor: refused, or its position moves on by the
count. -/
theorem fdRead_live {fd : Int32} {i : Fin 64} {p : UInt32} (buf : Mem) (size : UInt32)
    (h : s.lookup fd = some (i, p)) :
    ((s.fileDescriptors i).flags &&& O_RDONLY = 0 ∧ (s.fileDescriptors i).flags &&& O_RDWR = 0 ∧
      fdRead K s fd buf size = (-1, buf, s)) ∨
    ∃ n b w, fdRead K s fd buf size =
      (n.toInt32, b, { s with world := w }.setFd i
        { s.fileDescriptors i with pos := (s.fileDescriptors i).pos + n }) := by
  simp only [fdRead, h]
  split
  · next hm => exact .inl ⟨hm.1, hm.2, rfl⟩
  · exact .inr ⟨_, _, _, rfl⟩

/-- **What `write` does** to a live descriptor. -/
theorem fdWrite_live {fd : Int32} {i : Fin 64} {p : UInt32} (buf : Mem) (size : UInt32)
    (h : s.lookup fd = some (i, p)) :
    ((s.fileDescriptors i).flags &&& O_WRONLY = 0 ∧ (s.fileDescriptors i).flags &&& O_RDWR = 0 ∧
      fdWrite K s fd buf size = (-1, s)) ∨
    ∃ n w, fdWrite K s fd buf size =
      (n.toInt32, { s with world := w }.setFd i
        { s.fileDescriptors i with pos := (s.fileDescriptors i).pos + n }) := by
  simp only [fdWrite, h]
  split
  · next hm => exact .inl ⟨hm.1, hm.2, rfl⟩
  · exact .inr ⟨_, _, rfl⟩

/-- **What `lseek` does** to a live descriptor: an unknown `whence` changes nothing, the others
move the position. -/
theorem fdLseek_live {fd : Int32} {i : Fin 64} {p : UInt32} (h : s.lookup fd = some (i, p))
    (offset whence : Int32) :
    (whence ≠ SEEK_SET ∧ whence ≠ SEEK_CUR ∧ whence ≠ SEEK_END ∧ fdLseek s fd offset whence = (-1, s)) ∨
    ∃ pos, fdLseek s fd offset whence =
      (pos.toInt32, s.setFd i { s.fileDescriptors i with pos := pos }) := by
  simp only [fdLseek, h]
  split
  · exact .inr ⟨_, rfl⟩
  · next h₀ =>
    split
    · exact .inr ⟨_, rfl⟩
    · next h₁ =>
      split
      · exact .inr ⟨_, rfl⟩
      · next h₂ => exact .inl ⟨h₀, h₁, h₂, rfl⟩

/-! ### The record of what was returned -/

/-- The descriptors `open` has returned and that have not been closed since. -/
def noteCall (live : Set Int32) : Call → Reply → Set Int32
  | .open_ _ _, r => if r.ret = -1 then live else insert r.ret live
  | .close fd, _ => live \ {fd}
  | _, _ => live

/-- The descriptor a call is on. -/
def Call.fd? : Call → Option Int32
  | .open_ _ _ => none
  | .close fd | .read fd _ _ | .write fd _ _ | .lseek fd _ _ => some fd

/-- The reply of a call that is refused: `-1`, and a buffer left as it was. -/
def Call.refusal : Call → Reply
  | .read _ buf _ => ⟨-1, some buf⟩
  | _ => ⟨-1, none⟩

/-- The access mode or the `whence` makes the code refuse the call. -/
def Refused (s : Vfs D) : Call → Prop
  | .read fd _ _ => ∃ i, slot fd = some i ∧
      (s.fileDescriptors i).flags &&& O_RDONLY = 0 ∧ (s.fileDescriptors i).flags &&& O_RDWR = 0
  | .write fd _ _ => ∃ i, slot fd = some i ∧
      (s.fileDescriptors i).flags &&& O_WRONLY = 0 ∧ (s.fileDescriptors i).flags &&& O_RDWR = 0
  | .lseek _ _ whence => whence ≠ SEEK_SET ∧ whence ≠ SEEK_CUR ∧ whence ≠ SEEK_END
  | _ => False

/-- **What a caller relies on**, in a state where the descriptors of `live` have been returned
and not closed since. -/
structure Disciplined (K : Drivers D) (live : Set Int32) (s : Vfs D) : Prop where
  /-- The live descriptors are those returned and not closed since. -/
  live_iff : ∀ fd, fd ∈ live ↔ s.Live fd
  /-- `open` fails just when all 64 are live or the path does not resolve, -/
  open_fails : ∀ filename flags, (fdOpen K s filename flags).1 = -1 ↔
    (∀ i : Fin 64, Int32.ofNat i.val ∈ live) ∨ (vfsOpen K s.world s.fsRoot filename.bytes flags).1 = none
  /-- and then the table is as it was; -/
  open_atomic : ∀ filename flags, (fdOpen K s filename flags).1 = -1 →
    (fdOpen K s filename flags).2.fileDescriptors = s.fileDescriptors
  /-- otherwise it returns the smallest that is not live, on the node found, at position 0. -/
  open_smallest : ∀ filename flags, (fdOpen K s filename flags).1 ≠ -1 → ∃ (i : Fin 64) (p : UInt32),
    (fdOpen K s filename flags).1 = Int32.ofNat i.val ∧ Int32.ofNat i.val ∉ live ∧
    (∀ j < i, Int32.ofNat j.val ∈ live) ∧
    (vfsOpen K s.world s.fsRoot filename.bytes flags).1 = some p ∧
    (fdOpen K s filename flags).2.fileDescriptors = Function.update s.fileDescriptors i ⟨some p, 0, flags⟩
  /-- A call on a descriptor that is not live is refused and changes nothing. -/
  not_live : ∀ call fd, call.fd? = some fd → fd ∉ live → fdStep K s call = (call.refusal, s)
  /-- So is a read or a write the access mode refuses, and an unknown `whence`. -/
  refused : ∀ call, Refused s call → fdStep K s call = (call.refusal, s)
  /-- A call on one descriptor does not touch another. -/
  others : ∀ call fd, call.fd? = some fd → ∀ j, slot fd ≠ some j →
    (fdStep K s call).2.fileDescriptors j = s.fileDescriptors j

/-! ### The invariant -/

theorem not_live_step {call : Call} {fd : Int32} (hfd : call.fd? = some fd) (h : ¬ s.Live fd) :
    fdStep K s call = (call.refusal, s) := by
  have hl := lookup_eq_none.mpr h
  cases call <;> simp only [Call.fd?, Option.some.injEq, reduceCtorEq] at hfd <;> subst hfd <;>
    simp [fdStep, Call.refusal, fdClose, fdRead, fdWrite, fdLseek, hl]

/-- Only the slot of its descriptor changes, when a call is on a descriptor. -/
theorem step_setFd {call : Call} {fd : Int32} {i : Fin 64} {p : UInt32} (hfd : call.fd? = some fd)
    (h : s.lookup fd = some (i, p)) :
    (fdStep K s call).2.fileDescriptors = s.fileDescriptors ∨
      ∃ d, (fdStep K s call).2.fileDescriptors = Function.update s.fileDescriptors i d ∧
        (d.node = none ↔ call = .close fd) := by
  cases call with
  | open_ => simp [Call.fd?] at hfd
  | close fd' =>
    simp only [Call.fd?, Option.some.injEq] at hfd
    subst hfd
    obtain ⟨w, hw⟩ := fdClose_live (K := K) h
    exact .inr ⟨.free, by simp only [fdStep, hw, setFd_fileDescriptors], by simp [FileDescriptor.free]⟩
  | read fd' buf size =>
    simp only [Call.fd?, Option.some.injEq] at hfd
    subst hfd
    have hnode := (lookup_eq_some.mp h).2
    rcases fdRead_live (K := K) buf size h with ⟨-, -, hr⟩ | ⟨n, b, w, hr⟩
    · exact .inl (by simp only [fdStep, hr])
    · exact .inr ⟨_, by simp only [fdStep, hr, setFd_fileDescriptors]; rfl, by simp [hnode]⟩
  | write fd' buf size =>
    simp only [Call.fd?, Option.some.injEq] at hfd
    subst hfd
    have hnode := (lookup_eq_some.mp h).2
    rcases fdWrite_live (K := K) buf size h with ⟨-, -, hr⟩ | ⟨n, w, hr⟩
    · exact .inl (by simp only [fdStep, hr])
    · exact .inr ⟨_, by simp only [fdStep, hr, setFd_fileDescriptors]; rfl, by simp [hnode]⟩
  | lseek fd' offset whence =>
    simp only [Call.fd?, Option.some.injEq] at hfd
    subst hfd
    have hnode := (lookup_eq_some.mp h).2
    rcases fdLseek_live h offset whence with ⟨-, -, -, hr⟩ | ⟨pos, hr⟩
    · exact .inl (by simp only [fdStep, hr])
    · exact .inr ⟨_, by simp only [fdStep, hr, setFd_fileDescriptors]; rfl, by simp [hnode]⟩

/-- The record names just the slots in use. -/
def Recorded (gs : Set Int32 × Vfs D) : Prop := ∀ fd, fd ∈ gs.1 ↔ gs.2.Live fd

/-- When the slot of `fd` is updated, no other descriptor's liveness changes. -/
theorem live_update {s s' : Vfs D} {i : Fin 64} {d : FileDescriptor}
    (h : s'.fileDescriptors = Function.update s.fileDescriptors i d) (fd : Int32) :
    s'.Live fd ↔ if fd = Int32.ofNat i.val then d.node ≠ none else s.Live fd := by
  unfold Vfs.Live
  split
  · next hfd =>
    subst hfd
    simp only [slot_ofNat, Option.some.injEq, exists_eq_left', h, Function.update_self]
  · next hfd =>
    refine exists_congr fun j => and_congr_right fun hj => ?_
    have hne : j ≠ i := by
      rintro rfl
      exact hfd (slot_eq_some hj)
    rw [h, Function.update_of_ne hne]

theorem live_congr {s s' : Vfs D} (h : s'.fileDescriptors = s.fileDescriptors) (fd : Int32) :
    s'.Live fd ↔ s.Live fd := by
  unfold Vfs.Live; rw [h]

/-- After `vfs_initialize` no descriptor is live. -/
theorem recorded_initial (s₀ : Vfs D) : Recorded (∅, vfsInitialize s₀) := by
  intro fd
  simp [Vfs.Live, vfsInitialize, FileDescriptor.free]

/-- Every call keeps the record right. -/
theorem recorded_step (gs : Set Int32 × Vfs D) (call : Call) (h : Recorded gs) :
    Recorded (remember noteCall (fdStep K) gs call).2 := by
  obtain ⟨live, s⟩ := gs
  intro fd
  have hlive : ∀ fd, fd ∈ live ↔ s.Live fd := h
  cases hc : call.fd? with
  | none =>
    cases call with
    | open_ filename flags =>
      rcases fdOpen_cases (K := K) (s := s) filename flags with ⟨-, hr⟩ | ⟨i, -, -, hr⟩ | ⟨i, p, w, -, -, hr⟩ <;>
        simp only [remember, fdStep, hr, noteCall, if_true, ofNat_fin_ne_neg_one, if_false]
      · exact hlive fd
      · exact (hlive fd).trans (live_congr rfl fd).symm
      · rw [live_update (s := s) rfl fd, Set.mem_insert_iff, hlive fd]
        by_cases hfd : fd = Int32.ofNat i.val <;> simp [hfd]
    | close | read | write | lseek => simp [Call.fd?] at hc
  | some fd' =>
    simp only [remember]
    by_cases hl : s.Live fd'
    · obtain ⟨i, hi, hnode⟩ := hl
      obtain ⟨p, hp⟩ := Option.ne_none_iff_exists'.mp hnode
      have hlk := lookup_eq_some.mpr ⟨hi, hp⟩
      have hfd' : fd' = Int32.ofNat i.val := slot_eq_some hi
      have hlive' : s.Live fd' := ⟨i, hi, hnode⟩
      rcases step_setFd (K := K) hc hlk with hsame | ⟨d, hd, hdn⟩
      · -- the table is the same: the call was refused, and was not `close`
        have hncl : call ≠ .close fd' := by
          rintro rfl
          obtain ⟨w, hw⟩ := fdClose_live (K := K) hlk
          have := congrFun hsame i
          simp only [fdStep, hw, setFd_fileDescriptors, Function.update_self] at this
          rw [← this] at hnode
          exact hnode rfl
        rw [live_congr hsame, ← hlive fd]
        cases call with
        | open_ => simp [Call.fd?] at hc
        | close fd'' => simp only [Call.fd?, Option.some.injEq] at hc; exact absurd (hc ▸ rfl) hncl
        | read | write | lseek => rfl
      · rw [live_update hd fd]
        cases call with
        | open_ => simp [Call.fd?] at hc
        | close fd'' =>
          simp only [Call.fd?, Option.some.injEq] at hc
          subst hc
          have hdn' : d.node = none := hdn.mpr rfl
          simp only [noteCall, Set.mem_sdiff, Set.mem_singleton_iff, hlive fd, ← hfd']
          by_cases hfd : fd = fd'' <;> simp [hfd, hdn']
        | read | write | lseek =>
          have hdn' : d.node ≠ none := fun h => by simpa using hdn.mp h
          simp only [noteCall, hlive fd, ← hfd']
          by_cases hfd : fd = fd' <;> simp [hfd, hdn', hlive']
    · rw [not_live_step hc hl, ← hlive fd]
      cases call with
      | open_ => simp [Call.fd?] at hc
      | close fd'' =>
        simp only [Call.fd?, Option.some.injEq] at hc
        subst hc
        rw [← hlive] at hl
        simp only [noteCall, Set.mem_sdiff, Set.mem_singleton_iff, and_iff_left_iff_imp]
        rintro hfd rfl
        exact hl hfd
      | read | write | lseek => rfl

/-- A state whose record is right is disciplined. -/
theorem disciplined_of_recorded {live : Set Int32} (h : Recorded (live, s)) : Disciplined K live s where
  live_iff := h
  open_fails filename flags := by
    have hall : (∀ i : Fin 64, Int32.ofNat i.val ∈ live) ↔ findFree s.fileDescriptors = none := by
      rw [findFree_eq_none]
      exact forall_congr' fun i => (h _).trans (live_ofNat i)
    rw [hall]
    rcases fdOpen_cases (K := K) (s := s) filename flags with ⟨hf, hr⟩ | ⟨i, hf, hn, hr⟩ | ⟨i, p, w, hf, hn, hr⟩ <;>
      rw [hr]
    · simp [hf]
    · simp [hn]
    · simp [hf, hn, ofNat_fin_ne_neg_one i]
  open_atomic filename flags := by
    rcases fdOpen_cases (K := K) (s := s) filename flags with ⟨-, hr⟩ | ⟨i, -, -, hr⟩ | ⟨i, p, w, -, -, hr⟩ <;>
      rw [hr] <;> intro hret
    · rfl
    · rfl
    · exact absurd hret (ofNat_fin_ne_neg_one i)
  open_smallest filename flags := by
    rcases fdOpen_cases (K := K) (s := s) filename flags with ⟨-, hr⟩ | ⟨i, -, -, hr⟩ | ⟨i, p, w, hf, hn, hr⟩ <;>
      rw [hr] <;> intro hret
    · exact absurd rfl hret
    · exact absurd rfl hret
    · obtain ⟨hfree, hbefore⟩ := findFree_eq_some hf
      refine ⟨i, p, rfl, ?_, fun j hj => ?_, hn, rfl⟩
      · rw [h, live_ofNat]
        simp [hfree]
      · rw [h, live_ofNat]
        exact hbefore j hj
  not_live call fd hfd hl := not_live_step hfd ((h fd).not.mp hl)
  refused call hr := by
    cases call with
    | open_ | close => exact hr.elim
    | read fd buf size =>
      obtain ⟨i, hi, hm₁, hm₂⟩ := hr
      cases hlk : s.lookup fd with
      | none => exact not_live_step rfl (lookup_eq_none.mp hlk)
      | some ip =>
        obtain ⟨j, p⟩ := ip
        have hji : j = i := Option.some.inj ((lookup_eq_some.mp hlk).1.symm.trans hi)
        subst hji
        simp [fdStep, fdRead, hlk, hm₁, hm₂, Call.refusal]
    | write fd buf size =>
      obtain ⟨i, hi, hm₁, hm₂⟩ := hr
      cases hlk : s.lookup fd with
      | none => exact not_live_step rfl (lookup_eq_none.mp hlk)
      | some ip =>
        obtain ⟨j, p⟩ := ip
        have hji : j = i := Option.some.inj ((lookup_eq_some.mp hlk).1.symm.trans hi)
        subst hji
        simp [fdStep, fdWrite, hlk, hm₁, hm₂, Call.refusal]
    | lseek fd offset whence =>
      obtain ⟨h₀, h₁, h₂⟩ := hr
      cases hlk : s.lookup fd with
      | none => exact not_live_step rfl (lookup_eq_none.mp hlk)
      | some ip => simp [fdStep, fdLseek, hlk, h₀, h₁, h₂, Call.refusal]
  others call fd hfd j hj := by
    cases hlk : s.lookup fd with
    | none => rw [not_live_step hfd (lookup_eq_none.mp hlk)]
    | some ip =>
      obtain ⟨i, p⟩ := ip
      have hne : j ≠ i := by
        rintro rfl
        exact hj (lookup_eq_some.mp hlk).1
      rcases step_setFd (K := K) hfd hlk with hsame | ⟨d, hd, -⟩
      · rw [hsame]
      · rw [hd, Function.update_of_ne hne]

/-- **The descriptor table over whole runs.** After `vfs_initialize` and any run of calls with
any arguments, whatever the file systems do: the live descriptors are those `open` has
returned and that have not been closed since, and the next call, whichever it is, does to the
table what a caller relies on. -/
theorem descriptor_discipline (K : Drivers D) (s₀ : Vfs D) (calls : List Call) :
    Disciplined K (run (remember noteCall (fdStep K)) (∅, vfsInitialize s₀) calls).2.1
      (run (fdStep K) (vfsInitialize s₀) calls).2 := by
  have hrec : Recorded (run (remember noteCall (fdStep K)) (∅, vfsInitialize s₀) calls).2 :=
    run_inv' (fun gs call => recorded_step gs call) (recorded_initial s₀) calls
  have hd : Disciplined K _ _ := disciplined_of_recorded hrec
  rwa [(run_remember noteCall (fdStep K) ∅ (vfsInitialize s₀) calls).2] at hd

end Basedos.Fs
