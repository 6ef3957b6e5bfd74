import Basedos.Kernel.CommandWord

/-!
# The commands that do not come back

Some branches of `execute_command` do not come back: they halt the processor or reset it, they divide as it
cannot, or they list a directory that has no end. All the others do, whatever the file systems do: the arrays are
long enough, and `cat` is refused what it would read.

## What is proved

* `cat_eq` — `cat` prints an empty line for every file it can open.
* `RecordShell.runCommand_comesBack` — **exactly which commands** come back.
* `RecordShell.executeCommand_comesBack` — and so, for any table of aliases, which lines do.
-/

namespace Basedos.Kernel

open Basedos.Lib Basedos.CLib Basedos.Fs

variable {D : Type}

/-! ### What never returns -/

/-- The command halts the processor or resets it, or divides as it cannot: by a memory of no bytes, or the least
number by `-1`. -/
def Stops (totalMemory : UInt32) (cmd : List UInt8) (args : List (List UInt8)) : Prop :=
  match commandOf cmd, args with
  | .shutdown, _ => True
  | .reboot, _ => True
  | .memory, _ => totalMemory = 0
  | .calc_, [num1, operator, num2] =>
    (operator.headD 0 = 47 ∨ operator.headD 0 = 37) ∧ atoi num1 = Int32.minValue ∧ atoi num2 = -1
  | _, _ => False

variable (K : DirDrivers D)

/-- The directory has so many entries, from an index on. -/
def Entries (dir : UInt32) : ℕ → UInt32 → World D → Prop
  | 0, _, _ => True
  | n + 1, i, w => ∃ entry w', vfsReaddir K w dir i = (some entry, w') ∧ Entries dir n (i + 1) w'

/-- `/` is opened, is a directory, and its list has no end. -/
def EndlessRoot (vfs : Vfs D) : Prop :=
  ∃ dir w, vfsOpen K.toDrivers vfs.world vfs.fsRoot [slash] 0 = (some dir, w) ∧
    (w.node dir).flags &&& 0x7 = FS_DIRECTORY ∧ Entries K dir (2 ^ 32) 0 w

/-- **The command never returns.** -/
def NeverReturns (s : System D) (cmd : List UInt8) (args : List (List UInt8)) : Prop :=
  Stops s.totalMemory cmd args ∨ commandOf cmd = .ls ∧ EndlessRoot K s.vfs

/-! ### The commands that use the file system -/

variable {K} {s : System D} {l : List (List UInt8 × List UInt8)} {cmd : CStr} {args : List CStr}

theorem next_comesBack (s : System D) : ComesBack s.next := comesBack_ok _

theorem returned_comesBack (s : System D) : ComesBack s.returned := comesBack_ok _

theorem lsLoop_comesBack (dir : UInt32) (n : ℕ) (i : UInt32) (s : System D) :
    ComesBack (s.lsLoop K dir n i) ↔ ¬ Entries K dir n i s.vfs.world := by
  induction n generalizing i s with
  | zero => exact iff_of_false (not_comesBack_error _) (not_not_intro trivial)
  | succ n ih =>
    unfold System.lsLoop Entries
    cases hread : vfsReaddir K s.vfs.world dir i with
    | mk entry w =>
      cases entry with
      | none =>
        refine iff_of_true (comesBack_ok _) ?_
        rintro ⟨entry, w', ⟨⟩, -⟩
      | some entry =>
        refine (ih (i + 1) _).trans (not_congr ?_)
        constructor
        · exact fun h => ⟨entry, w, rfl, h⟩
        · rintro ⟨entry', w', ⟨⟩, h⟩
          exact h

theorem ls_comesBack : ComesBack (s.ls K) ↔ ¬ EndlessRoot K s.vfs := by
  unfold System.ls EndlessRoot
  generalize 2 ^ 32 = n
  cases hopen : vfsOpen K.toDrivers s.vfs.world s.vfs.fsRoot [slash] 0 with
  | mk dir w =>
    cases dir with
    | none =>
      refine iff_of_true (returned_comesBack _) ?_
      rintro ⟨dir, w', ⟨⟩, -⟩
    | some dir =>
      dsimp only
      by_cases hdir : (w.node dir).flags &&& 0x7 = FS_DIRECTORY
      · have hnot : ¬ (((s.setWorld w).vfs.world.node dir).flags &&& 0x7 ≠ FS_DIRECTORY) := not_not.mpr hdir
        rw [if_neg (not_not.mpr hdir), comesBack_bind fun _ => next_comesBack _, lsLoop_comesBack]
        refine not_congr ⟨fun h => ⟨dir, w, rfl, hdir, h⟩, ?_⟩
        rintro ⟨dir', w', ⟨⟩, -, h⟩
        exact h
      · rw [if_pos hdir]
        refine iff_of_true (returned_comesBack _) ?_
        rintro ⟨dir', w', ⟨⟩, hdir', -⟩
        exact hdir hdir'

/-- The loop of `cat` ends at once when it is refused what it reads. -/
theorem catLoop_refused {fd : Int32} {buffer : Mem}
    (h : fdRead K.toDrivers s.vfs fd buffer 1023 = (-1, buffer, s.vfs)) {n : ℕ} (hn : n ≠ 0) :
    System.catLoop K fd n buffer s = .ok s := by
  cases n with
  | zero => exact absurd rfl hn
  | succ n =>
    have hend : ¬ (-1 : Int32) > 0 := by decide
    simp only [System.catLoop, h, if_neg hend]
    rfl

/-- **`cat` shows nothing of a file**: it opens it, prints the end of a line and closes it. -/
theorem cat_eq (K : DirDrivers D) (s : System D) (file : CStr) (args : List CStr) :
    s.cat K (file :: args) =
      let r := fdOpen K.toDrivers s.vfs file O_RDONLY
      if r.1 < 0 then (s.setVfs r.2).printk "Error: Could not open file %s\n" [.str file.bytes] |>.returned
      else ((s.setVfs (fdClose K.toDrivers r.2 r.1).2).printk "\n" []).next := by
  unfold System.cat
  simp only
  split
  · rfl
  · next hopen =>
    have hlive : 0 ≤ (fdOpen K.toDrivers s.vfs file O_RDONLY).1 := Int32.not_lt.mp hopen
    rw [catLoop_refused (read_O_RDONLY hlive _ _) (Nat.two_pow_pos 32).ne']
    rfl

theorem cat_comesBack : ComesBack (s.cat K args) := by
  cases args with
  | nil => exact returned_comesBack _
  | cons file args =>
    rw [cat_eq]
    exact comesBack_ite.mpr ⟨fun _ => returned_comesBack _, fun _ => next_comesBack _⟩

theorem touch_comesBack : ComesBack (s.touch K args) := by
  unfold System.touch
  split
  · exact returned_comesBack _
  · exact comesBack_ite.mpr ⟨fun _ => returned_comesBack _, fun _ => next_comesBack _⟩

theorem write_comesBack (hlen : (joined args.tail).length < 1024) : ComesBack (s.write K args) := by
  unfold System.write
  split
  · next file arg args =>
    refine comesBack_ite.mpr ⟨fun _ => returned_comesBack _, fun _ => ?_⟩
    obtain ⟨b, hjoin, hholds, -⟩ := joinArgs_write (arg :: args) hlen
    simp only [hjoin, hholds.stringIn, inside, bind, Except.bind]
    exact next_comesBack _
  · exact returned_comesBack _

theorem cd_comesBack (h : ShellArrays s l) : ComesBack (s.cd K args) := by
  have hsize := h.currentDirectory.size
  have hpath : ∀ path, ComesBack (s.changeDirectory K path) := by
    intro path
    obtain ⟨b, hb, hlen⟩ := strncpy_inside path (show 63 ≤ s.currentDirectory.length by omega)
    have hstore : store b 63 0 = some (b.set 63 0) := by
      rw [store, hlen, hsize]
      rfl
    unfold System.changeDirectory
    split
    · refine comesBack_ite.mpr ⟨fun _ => ?_, fun _ => comesBack_ok _⟩
      simp only [hb, hstore, inside, bind, Except.bind]
      exact comesBack_ok _
    · exact comesBack_ok _
  unfold System.cd
  split <;> exact hpath _

/-! ### The calculator -/

/-- The choice of the calculator: it does not come back when the processor is asked for the quotient or the
remainder of the least number and `-1`. -/
theorem operator_comesBack {α : Type} {op : UInt8} {m n : Int32} (sum difference product quotient remainder : α)
    (zero unknown : α) (e : Stop) :
    ComesBack (if op = 43 then .ok sum else if op = 45 then .ok difference else if op = 42 then .ok product
        else if op = 47 then
          if n = 0 then .ok zero else if m = Int32.minValue ∧ n = -1 then .error e else .ok quotient
        else if op = 37 then
          if n = 0 then .ok zero else if m = Int32.minValue ∧ n = -1 then .error e else .ok remainder
        else .ok unknown) ↔
      ¬ ((op = 47 ∨ op = 37) ∧ m = Int32.minValue ∧ n = -1) := by
  have hne : (-1 : Int32) ≠ 0 := by decide
  have h47 : (47 : UInt8) ≠ 43 ∧ (47 : UInt8) ≠ 45 ∧ (47 : UInt8) ≠ 42 := by decide
  have h37 : (37 : UInt8) ≠ 43 ∧ (37 : UInt8) ≠ 45 ∧ (37 : UInt8) ≠ 42 ∧ (37 : UInt8) ≠ 47 := by decide
  simp only [comesBack_ite, comesBack_ok, not_comesBack_error, implies_true, and_true, true_and, imp_false]
  constructor
  · rintro h ⟨rfl | rfl, hm, hn⟩
    · exact (h h47.1 h47.2.1 h47.2.2).1 rfl (hn ▸ hne) ⟨hm, hn⟩
    · exact (h h37.1 h37.2.1 h37.2.2.1).2 h37.2.2.2 rfl (hn ▸ hne) ⟨hm, hn⟩
  · intro h _ _ _
    exact ⟨fun hop _ hand => h ⟨.inl hop, hand⟩, fun _ hop _ hand => h ⟨.inr hop, hand⟩⟩

theorem calculator_comesBack (hcmd : commandOf cmd.bytes = .calc_) :
    ComesBack (s.calculator args) ↔ ¬ Stops s.totalMemory cmd.bytes (args.map CStr.bytes) := by
  unfold Stops
  rw [hcmd]
  match args with
  | [] => exact iff_of_true (comesBack_ok _) not_false
  | [_] => exact iff_of_true (comesBack_ok _) not_false
  | [_, _] => exact iff_of_true (comesBack_ok _) not_false
  | [num1, operator, num2] => exact operator_comesBack _ _ _ _ _ _ _ _
  | _ :: _ :: _ :: _ :: _ => exact iff_of_true (comesBack_ok _) not_false

theorem showMemoryInfo_comesBack : ComesBack s.showMemoryInfo ↔ ¬ s.totalMemory = 0 := by
  unfold System.showMemoryInfo
  simp only [comesBack_ite, comesBack_ok, not_comesBack_error, implies_true, and_true, imp_false]

/-! ### Every command -/

theorem inside_comesBack {r : Option (System D)} (h : ∃ s', r = some s' ∧ SameArrays s s') :
    ComesBack (inside r >>= System.next) := by
  obtain ⟨s', rfl, -⟩ := h
  exact next_comesBack s'

/-- The commands that may not return are these. -/
theorem not_neverReturns {cmd : List UInt8} {args : List (List UInt8)}
    (h : commandOf cmd ∉ [Command.shutdown, .reboot, .memory, .ls, .calc_]) : ¬ NeverReturns K s cmd args := by
  simp only [List.mem_cons, List.not_mem_nil, or_false, not_or] at h
  obtain ⟨hshutdown, hreboot, hmemory, hls, hcalc⟩ := h
  rintro (hstops | ⟨hlist, -⟩)
  · unfold Stops at hstops
    split at hstops
    · next hc => exact hshutdown hc
    · next hc => exact hreboot hc
    · next hc => exact hmemory hc
    · next hc => exact hcalc hc
    · exact hstops
  · exact hls hlist

theorem neverReturns_iff_stops {cmd : List UInt8} {args : List (List UInt8)} (h : commandOf cmd ≠ .ls) :
    NeverReturns K s cmd args ↔ Stops s.totalMemory cmd args := or_iff_left fun hls => h hls.1

/-- Which commands but `alias` come back. -/
theorem runCommand_comesBack (h : ShellArrays s l) (hlen : (joined args.tail).length < 1024)
    (halias : commandOf cmd.bytes ≠ .alias_) :
    ComesBack (s.runCommand K cmd args) ↔ ¬ NeverReturns K s cmd.bytes (args.map CStr.bytes) := by
  have hnot : ∀ usage text, ComesBack (s.notImplemented args usage text) := fun _ _ => comesBack_ite.mpr
    ⟨fun _ => returned_comesBack _, fun _ => next_comesBack _⟩
  unfold System.runCommand
  cases hc : commandOf cmd.bytes with
  | exit => exact iff_of_true (returned_comesBack _) (not_neverReturns (by rw [hc]; decide))
  | shutdown => exact iff_of_false (not_comesBack_error _) (not_not_intro (.inl (by simp only [Stops, hc])))
  | reboot => exact iff_of_false (not_comesBack_error _) (not_not_intro (.inl (by simp only [Stops, hc])))
  | pwd =>
    obtain ⟨directory, hd, -⟩ := h.currentDirectory.holds
    rw [hd]
    exact iff_of_true (next_comesBack _) (not_neverReturns (by rw [hc]; decide))
  | cd =>
    refine iff_of_true ?_ (not_neverReturns (by rw [hc]; decide))
    exact (comesBack_bind next_comesBack).mpr (cd_comesBack h)
  | memory =>
    have hstops : Stops s.totalMemory cmd.bytes (args.map CStr.bytes) ↔ s.totalMemory = 0 := by
      simp only [Stops, hc]
    rw [neverReturns_iff_stops (by rw [hc]; decide), hstops, ← showMemoryInfo_comesBack]
    exact comesBack_bind next_comesBack
  | ls =>
    have hls : NeverReturns K s cmd.bytes (args.map CStr.bytes) ↔ EndlessRoot K s.vfs := by
      simp only [NeverReturns, Stops, hc, false_or, true_and]
    rw [hls]
    exact ls_comesBack
  | cat => exact iff_of_true cat_comesBack (not_neverReturns (by rw [hc]; decide))
  | mkdir => exact iff_of_true (hnot _ _) (not_neverReturns (by rw [hc]; decide))
  | touch => exact iff_of_true touch_comesBack (not_neverReturns (by rw [hc]; decide))
  | rm => exact iff_of_true (hnot _ _) (not_neverReturns (by rw [hc]; decide))
  | write => exact iff_of_true (write_comesBack hlen) (not_neverReturns (by rw [hc]; decide))
  | alias_ => exact absurd hc halias
  | history =>
    exact iff_of_true (inside_comesBack (showHistory_same h)) (not_neverReturns (by rw [hc]; decide))
  | sysinfo =>
    exact iff_of_true (inside_comesBack (showSystemInfo_same h)) (not_neverReturns (by rw [hc]; decide))
  | calc_ =>
    rw [neverReturns_iff_stops (by rw [hc]; decide), ← calculator_comesBack hc]
    exact comesBack_bind next_comesBack
  | _ => exact iff_of_true (next_comesBack _) (not_neverReturns (by rw [hc]; decide))

namespace RecordShell

variable {s : RecordShell D} {line : List UInt8}

/-- **Which commands come back**, with any words of a line. -/
theorem runCommand_comesBack (h : RecordInv s) (hw : Words128 cmd args) :
    ComesBack (s.runCommand K cmd args) ↔ ¬ NeverReturns K s.vars cmd.bytes (args.map CStr.bytes) := by
  by_cases halias : commandOf cmd.bytes = .alias_
  · obtain ⟨s', hs', -⟩ := alias_inv h hw
    rw [RecordShell.runCommand_alias K halias, hs']
    exact iff_of_true (comesBack_ok _) (not_neverReturns (by rw [halias]; decide))
  · rw [RecordShell.runCommand_of_ne K halias, comesBack_map]
    exact Kernel.runCommand_comesBack h.arrays hw.joined_lt halias

/-- **Which lines come back**: those with no word, and those whose command does. -/
theorem executeCommand_comesBack (h : RecordInv s) (h0 : 0 ∉ line) (hlen : line.length ≤ 127) (pointers : ArgArray) :
    ComesBack (s.executeCommand K line pointers) ↔
      ∀ cmd args, recordWords s.records line = cmd :: args → ¬ NeverReturns K s.vars cmd args := by
  rw [executeCommand_eq]
  rcases commandWords_cases h h0 hlen pointers with
    ⟨-, hnil, s', hwords, -⟩ | ⟨cmd, args, s', hwords, -, hcons, hnoted, hw⟩
  · rw [hwords, hnil]
    exact iff_of_true (comesBack_ok _) nofun
  · have hsame : NeverReturns K s'.vars cmd.bytes (args.map CStr.bytes) ↔
        NeverReturns K s.vars cmd.bytes (args.map CStr.bytes) := by
      rw [NeverReturns, NeverReturns, hnoted.totalMemory, hnoted.vfs]
    rw [hwords, hcons]
    refine comesBack_map.trans ((runCommand_comesBack hnoted.inv hw).trans ?_)
    rw [hsame]
    constructor
    · rintro hreturns cmd' args' ⟨⟩
      exact hreturns
    · exact fun hreturns => hreturns _ _ rfl

end RecordShell

end Basedos.Kernel
