import Basedos.Fs.Exhaustion

/-!
# The access modes

`O_RDONLY` is 0, and `read` tests it as if it were a bit: a descriptor is refused unless
it has the bit of `O_RDWR`. So what is opened to be read only can never be read
(`read_O_RDONLY`), and the law the kernel's own test samples, that what is written
through one descriptor is read back through another opened with `O_RDONLY`, holds of no
file, of no data and for no file system (`not_writeThenRead`).
-/

namespace Basedos.Fs

open Basedos.Lib Basedos.CLib Basedos.Kernel

universe u

variable {D : Type u} {K : Drivers D} {s : Vfs D}

/-- No flags have a bit of `O_RDONLY`. -/
theorem and_O_RDONLY (flags : UInt32) : flags &&& O_RDONLY = 0 := by simp [O_RDONLY]

/-- Without the bit of `O_RDWR` a `read` returns `-1` and changes nothing. -/
theorem fdRead_refused {fd : Int32} (h : ∀ i, slot fd = some i → (s.fileDescriptors i).flags &&& O_RDWR = 0)
    (buf : Mem) (size : UInt32) : fdRead K s fd buf size = (-1, buf, s) := by
  rw [fdRead]
  cases hl : s.lookup fd with
  | none => rfl
  | some ip =>
    obtain ⟨i, p⟩ := ip
    simp only [and_O_RDONLY, h i (lookup_eq_some.mp hl).1, and_self, if_true]

/-- The descriptor an `open` returns has the flags it was asked for. -/
theorem flags_fdOpen {filename : CStr} {flags : UInt32} (h : 0 ≤ (fdOpen K s filename flags).1) {i : Fin 64}
    (hi : slot (fdOpen K s filename flags).1 = some i) :
    ((fdOpen K s filename flags).2.fileDescriptors i).flags = flags := by
  have hne : ¬ (0 : Int32) ≤ -1 := by decide
  rcases fdOpen_cases (K := K) (s := s) filename flags with ⟨-, hr⟩ | ⟨j, -, -, hr⟩ | ⟨j, p, w, -, -, hr⟩
  · rw [hr] at h
    exact absurd h hne
  · rw [hr] at h
    exact absurd h hne
  · rw [hr] at hi ⊢
    rw [slot_ofNat] at hi
    cases hi
    simp

/-- **A file opened with `O_RDONLY` cannot be read**: every `read` returns `-1`. -/
theorem read_O_RDONLY {filename : CStr} (h : 0 ≤ (fdOpen K s filename O_RDONLY).1) (buf : Mem)
    (size : UInt32) :
    fdRead K (fdOpen K s filename O_RDONLY).2 (fdOpen K s filename O_RDONLY).1 buf size =
      (-1, buf, (fdOpen K s filename O_RDONLY).2) :=
  fdRead_refused (fun i hi => by rw [flags_fdOpen h hi]; decide) buf size

/-! ### Write, then read -/

/-- A buffer that holds the bytes. -/
def bufferOf (bs : List UInt8) : Mem := Mem.put (fun _ => 0) 0 bs

/-- What the first `k` calls of `read` return, with the bytes read. -/
def reads (K : Drivers D) (fd : Int32) (sizes : ℕ → UInt32) (s : Vfs D) (k : ℕ) :
    List (Int32 × List UInt8) :=
  (run (fdStep K) s ((List.range k).map fun j => .read fd (bufferOf []) (sizes j))).1.map
    fun r => (r.ret, (r.buf.getD (bufferOf [])).bytes 0 r.ret.toInt.toNat)

/-- Opening a file with `O_WRONLY`, writing the data piece by piece, closing it, opening it with
`O_RDONLY` and reading until `0` is returned: every step succeeds, and the bytes read are those
written. -/
def WriteThenRead (K : Drivers D) (s : Vfs D) (filename : CStr) (data : List (List UInt8))
    (sizes : ℕ → UInt32) : Prop :=
  let opened := fdOpen K s filename O_WRONLY
  let written := run (fdStep K) opened.2
    (data.map fun bs => .write opened.1 (bufferOf bs) (UInt32.ofNat bs.length))
  let closed := fdClose K written.2 opened.1
  let reopened := fdOpen K closed.2 filename O_RDONLY
  0 ≤ opened.1 ∧ written.1.map Reply.ret = data.map (fun bs => Int32.ofNat bs.length) ∧
    closed.1 = 0 ∧ 0 ≤ reopened.1 ∧
    ∃ k, (∀ r ∈ reads K reopened.1 sizes reopened.2 k, 0 < r.1) ∧
      ((reads K reopened.1 sizes reopened.2 (k + 1)).getLast?.map Prod.fst) = some 0 ∧
      (reads K reopened.1 sizes reopened.2 k).flatMap Prod.snd = data.flatten

/-- Through a descriptor opened with `O_RDONLY` no call of `read` returns anything but `-1`. -/
theorem mem_reads_O_RDONLY {filename : CStr} (h : 0 ≤ (fdOpen K s filename O_RDONLY).1)
    (sizes : ℕ → UInt32) (k : ℕ) {r : Int32 × List UInt8}
    (hr : r ∈ reads K (fdOpen K s filename O_RDONLY).1 sizes (fdOpen K s filename O_RDONLY).2 k) :
    r.1 = -1 := by
  have hrun : ∀ js : List ℕ, ∀ x ∈ (run (fdStep K) (fdOpen K s filename O_RDONLY).2 (js.map fun j =>
      .read (fdOpen K s filename O_RDONLY).1 (bufferOf []) (sizes j))).1, x.ret = -1 := by
    intro js
    induction js with
    | nil => simp
    | cons j js ih =>
      simp only [List.map_cons, run_cons, fdStep, read_O_RDONLY h, List.mem_cons]
      rintro x (rfl | hx)
      · rfl
      · exact ih x hx
  obtain ⟨x, hx, rfl⟩ := List.mem_map.mp hr
  exact hrun _ x hx

/-- So reading until `0` is returned never ends. -/
theorem reads_O_RDONLY {filename : CStr} (h : 0 ≤ (fdOpen K s filename O_RDONLY).1) (sizes : ℕ → UInt32)
    (k : ℕ) : (reads K (fdOpen K s filename O_RDONLY).1 sizes (fdOpen K s filename O_RDONLY).2
      k).getLast?.map Prod.fst ≠ some 0 := by
  intro h0
  obtain ⟨r, hlast, hr0⟩ := Option.map_eq_some_iff.mp h0
  have hr := mem_reads_O_RDONLY h sizes k (List.mem_of_getLast? hlast)
  rw [hr0] at hr
  exact absurd hr (by decide)

/-- **What is written is never read back this way**: of no file system, no file and no data. -/
theorem not_writeThenRead (K : Drivers D) (s : Vfs D) (filename : CStr) (data : List (List UInt8))
    (sizes : ℕ → UInt32) : ¬ WriteThenRead K s filename data sizes := by
  rintro ⟨-, -, -, hreopened, k, -, hlast, -⟩
  exact reads_O_RDONLY hreopened sizes (k + 1) hlast

/-- Writing five bytes to the empty file `/d/f` of the small tree succeeds up to the second `open`;
nothing is read back. -/
theorem writeThenRead_small :
    let path : CStr := ⟨ascii ['/', 'd', '/', 'f'], by decide⟩
    let hello := ascii ['H', 'e', 'l', 'l', 'o']
    let opened := fdOpen memfsDrivers smallVfs path O_WRONLY
    let written := fdWrite memfsDrivers opened.2 opened.1 (bufferOf hello) 5
    let closed := fdClose memfsDrivers written.2 opened.1
    let reopened := fdOpen memfsDrivers closed.2 path O_RDONLY
    smallTree.resolve path.bytes = some 3 ∧ (smallTree.inode 3).size = 0 ∧ opened.1 = 0 ∧
      written.1 = 5 ∧ closed.1 = 0 ∧ reopened.1 = 0 ∧ reopened.2.world.heap.failures = 0 ∧
      (fdRead memfsDrivers reopened.2 reopened.1 (bufferOf []) 16).1 = -1 ∧
      ¬ WriteThenRead memfsDrivers smallVfs path [hello] (fun _ => 16) := by
  refine ⟨by decide +kernel, by decide +kernel, by decide +kernel, by decide +kernel, by decide +kernel,
    by decide +kernel, by decide +kernel, by decide +kernel, ?_⟩
  rintro ⟨-, -, -, hreopened, k, -, hlast, -⟩
  exact reads_O_RDONLY hreopened _ (k + 1) hlast

end Basedos.Fs
