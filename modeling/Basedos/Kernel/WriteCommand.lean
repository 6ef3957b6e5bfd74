import Basedos.Fs.Bounds
import Basedos.Kernel.ShellBuffers

/-!
# The command `write`

`write f w1 ... wk` opens the file, joins the words with blanks and writes the text from the start of
the file on. Of the words only thirteen are left when the line has been cut into fifteen; what the file
holds past the text stays; and where the heap has no room for a longer block the text goes nowhere. The
command says the same in each case.

## What is proved

* `memfsWrite_content_iff` — when a write from the start leaves just the text.
* `write_reports` — **the command**: what it prints, and what it does to the file.
* `write_storesText_iff` — **exactly when** the file holds the words of the line, if the command says that
  they were written.
-/

namespace Basedos.Kernel

open Basedos.Lib Basedos.CLib Basedos.Fs

/-! ### The file -/

section File

variable {w w' : World Memfs} {p i : UInt32}

/-- What a buffer holds that holds a string. -/
theorem bufferOf_holds {b t : List UInt8} (hb : Holds b t) (hlen : b.length = 1024) {k : ℕ} (hk : k < t.length) :
    bufferOf b (UInt32.ofNat k) = t.getD k 0 := by
  have hlt := hb.length_lt
  have hput : Mem.put (fun _ => 0) 0 b (0 + UInt32.ofNat k) = b.getD k 0 :=
    Mem.put_of_mem (.of_le (by rw [hlen]; decide)) (by omega)
  rw [UInt32.zero_add] at hput
  obtain ⟨-, rest, rfl⟩ := hb
  rw [bufferOf, hput, List.getD_eq_getElem?_getD, List.getElem?_append_left hk, List.getD_eq_getElem?_getD]

/-- A file that must grow where there is no room has no content after. -/
theorem memfsWrite_lost (hp : (w.node p).fsSpecific = i) (hfile : (w.data.inode i).isDir = false) {size : UInt32}
    (buffer : Mem) (hgrow : (w.data.inode i).size.toNat < size.toNat)
    (hroom : 0x10000 < w.heap.heapPos.toNat + size.toNat) (hsize : size.toNat < 2 ^ 31) (hok : w.heap.Ok) :
    (memfsWrite w p 0 size buffer).2.content i = [] := by
  subst hp
  have hgt : size > (w.inodeOf p).size := by
    rw [gt_iff_lt, UInt32.lt_iff_toNat_lt]
    exact hgrow
  have hnone : (kmalloc w.heap size).1 = none := by
    have hbound := hok.bounded
    rcases kmalloc_cases w.heap size with ⟨-, hk⟩ | ⟨hfit, -⟩
    · rw [hk]
    · omega
  rw [memfsWrite_file hfile]
  simp only [UInt32.zero_add, if_pos hgt, World.content, Function.update_self, growInode, hnone]

/-- What a write from the start has written is all there is, unless the file was longer. -/
theorem wrote_content_iff {w' : World Memfs} {b t : List UInt8}
    (h : Wrote w w' i 0 (UInt32.ofNat t.length) (bufferOf b))
    (hb : Holds b t) (hlen : b.length = 1024) : w'.content i = t ↔ (w.data.inode i).size.toNat ≤ t.length := by
  have hlt := hb.length_lt
  have hsize : (UInt32.ofNat t.length).toNat = t.length := toNat_ofNat (by omega)
  have h0 : (0 : UInt32).toNat = 0 := rfl
  have hcontent := h.fileBlock.length_content
  rw [h.length, h0, hsize, Nat.zero_add] at hcontent
  constructor
  · intro heq
    rw [heq] at hcontent
    omega
  · intro hle
    rw [Nat.max_eq_right hle] at hcontent
    refine List.ext_getElem hcontent fun k hk hk' => ?_
    have hbyte := h.written k (by rw [hsize]; exact hk')
    rw [h0, Nat.zero_add, bufferOf_holds hb hlen hk', List.getD_eq_getElem _ _ hk, List.getD_eq_getElem _ _ hk']
      at hbyte
    exact hbyte

/-- **A write from the start of a file** leaves just the text when the file was not longer, and had the room. -/
theorem memfsWrite_content_iff (h : FileBlock w i) (hp : (w.node p).fsSpecific = i)
    (hfile : (w.data.inode i).isDir = false) {b t : List UInt8} (hb : Holds b t) (hlen : b.length = 1024)
    (hne : t ≠ []) :
    (memfsWrite w p 0 (UInt32.ofNat t.length) (bufferOf b)).2.content i = t ↔
      (w.data.inode i).size.toNat ≤ t.length ∧
        ((w.data.inode i).size.toNat = t.length ∨ w.heap.heapPos.toNat + t.length ≤ 0x10000) := by
  subst hp
  have hlt := hb.length_lt
  have hpos := List.length_pos_iff.mpr hne
  have hsize : (UInt32.ofNat t.length).toNat = t.length := toNat_ofNat (by omega)
  have h0 : (0 : UInt32).toNat = 0 := rfl
  have hinode : w.inodeOf p = w.data.inode (w.node p).fsSpecific := rfl
  by_cases hroom : t.length ≤ (w.data.inode (w.node p).fsSpecific).size.toNat ∨
      w.heap.heapPos.toNat + t.length ≤ 0x10000
  · have hsafe : WriteSafe w p 0 (UInt32.ofNat t.length) (bufferOf b) := by
      by_cases hin : t.length ≤ (w.data.inode (w.node p).fsSpecific).size.toNat
      · apply writeSafe_inside h hfile
        rw [hinode, h0, hsize]
        omega
      · apply writeSafe_grow h hfile
        · rw [hinode, h0, hsize]
          omega
        · rw [h0, hsize]
          omega
    rcases hsafe with ⟨-, hwrote⟩ | ⟨hzero, -⟩
    · rw [wrote_content_iff hwrote hb hlen]
      omega
    · rw [memfsWrite_file hfile] at hzero
      have hnil : t.length = 0 := by
        rw [← hsize]
        exact congrArg UInt32.toNat hzero
      omega
  · rw [not_or, Nat.not_le, Nat.not_le] at hroom
    obtain ⟨hgrow, hfull⟩ := hroom
    have hlost := @memfsWrite_lost _ _ _ rfl hfile (UInt32.ofNat t.length) (bufferOf b)
      (by rw [hsize]; exact hgrow) (by rw [hsize]; exact hfull) (by rw [hsize]; omega) h.ok
    rw [hlost]
    refine iff_of_false hne.symm ?_
    rintro ⟨-, heq | hfit⟩ <;> omega

end File

/-! ### The command -/

section Command

variable {v : Vfs Memfs} {w : World Memfs} {p i : UInt32} {k : Fin 64}

/-- `write` on the descriptor just opened: all is said to be written. -/
theorem fdWrite_opened (v : Vfs Memfs) (k : Fin 64) (hp : NodeFor w p i) (hfile : (w.data.inode i).isDir = false)
    (buf : Mem) (len : UInt32) :
    let r := fdWrite memfsDrivers ({ v with world := w }.setFd k ⟨some p, 0, O_WRONLY ||| O_CREAT⟩)
      (Int32.ofNat k.val) buf len
    r.1 = len.toInt32 ∧ r.2.world = (memfsWrite w p 0 len buf).2 := by
  have hlive : ({ v with world := w }.setFd k ⟨some p, 0, O_WRONLY ||| O_CREAT⟩).lookup (Int32.ofNat k.val) =
      some (k, p) := lookup_eq_some.mpr ⟨slot_ofNat k, by simp⟩
  have hmode : ¬ ((O_WRONLY ||| O_CREAT) &&& O_WRONLY = 0 ∧ (O_WRONLY ||| O_CREAT) &&& O_RDWR = 0) := by decide
  have hwrite : vfsWrite memfsDrivers w p 0 len buf = memfsWrite w p 0 len buf := by
    simp only [vfsWrite, memfsDrivers, hp.write]
    rfl
  have hcount : (memfsWrite w p 0 len buf).1 = len := by
    have hfile' : (w.inodeOf p).isDir = false := by rw [hp.inodeOf]; exact hfile
    rw [memfsWrite_file hfile']
  simp only [fdWrite, hlive, setFd_fileDescriptors, Function.update_self, if_neg hmode]
  simp only [Vfs.setFd, hwrite, hcount, and_self]

/-- `close` leaves the files alone. -/
theorem fdClose_world (v : Vfs Memfs) (fd : Int32) : (fdClose memfsDrivers v fd).2.world = v.world := by
  unfold fdClose
  split
  · rfl
  · simp only [memfsDrivers, ite_self]
    rfl

/-- `Wrote n bytes to f`. -/
def wroteAct (n : Int32) (file : CStr) : Act := .printk "Wrote %d bytes to %s\n" [.int n, .str file.bytes]

/-- **The command**, when the file is opened. -/
theorem write_reports {s : System Memfs} {file arg : CStr} {args : List CStr}
    (hopen : fdOpen memfsDrivers s.vfs file (O_WRONLY ||| O_CREAT) =
      (Int32.ofNat k.val, { s.vfs with world := w }.setFd k ⟨some p, 0, O_WRONLY ||| O_CREAT⟩))
    (hp : NodeFor w p i) (hfile : (w.data.inode i).isDir = false) (hlen : (joined (arg :: args)).length < 1024) :
    ∃ b s', Holds b (joined (arg :: args)) ∧ b.length = 1024 ∧
      s.write memfsDirDrivers (file :: arg :: args) = .ok (.next, s') ∧
      s'.acts = s.acts ++ [wroteAct (UInt32.ofNat (joined (arg :: args)).length).toInt32 file] ∧
      s'.vfs.world = (memfsWrite w p 0 (UInt32.ofNat (joined (arg :: args)).length) (bufferOf b)).2 := by
  have hK : memfsDirDrivers.toDrivers = memfsDrivers := rfl
  have hfd : ∀ k : Fin 64, ¬ Int32.ofNat k.val < 0 := by decide
  obtain ⟨b, hjoin, hholds, hsize⟩ := joinArgs_write (arg :: args) hlen
  obtain ⟨hcount, hworld⟩ := fdWrite_opened s.vfs k hp hfile (bufferOf b)
    (UInt32.ofNat (joined (arg :: args)).length)
  have hrun : ∃ s', s.write memfsDirDrivers (file :: arg :: args) = .ok (.next, s') ∧
      s'.acts = s.acts ++ [wroteAct (UInt32.ofNat (joined (arg :: args)).length).toInt32 file] ∧
      s'.vfs.world = (memfsWrite w p 0 (UInt32.ofNat (joined (arg :: args)).length) (bufferOf b)).2 := by
    simp only [System.write, hK, hopen, if_neg (hfd k), hjoin, inside, hholds.stringIn, bind, Except.bind,
      System.setVfs, hcount, ne_eq, not_true_eq_false, if_false]
    refine ⟨_, rfl, rfl, ?_⟩
    exact (fdClose_world _ _).trans hworld
  obtain ⟨s', hwrite, hacts, hworld'⟩ := hrun
  exact ⟨b, s', hholds, hsize, hwrite, hacts, hworld'⟩

/-- A file that cannot be opened. -/
theorem write_notOpened {s : System Memfs} {file arg : CStr} {args : List CStr}
    (hopen : (fdOpen memfsDrivers s.vfs file (O_WRONLY ||| O_CREAT)).1 = -1) :
    ∃ s', s.write memfsDirDrivers (file :: arg :: args) = .ok (.returned, s') ∧
      s'.acts = s.acts ++ [.printk "Error: Could not open file %s\n" [.str file.bytes]] := by
  have hK : memfsDirDrivers.toDrivers = memfsDrivers := rfl
  have hneg : (-1 : Int32) < 0 := by decide
  simp only [System.write, hK, hopen, if_pos hneg, System.returned]
  exact ⟨_, rfl, rfl⟩

/-- Too few arguments. -/
theorem write_usage {s : System Memfs} {args : List CStr} (hargs : args.length ≤ 1) :
    ∃ s', s.write memfsDirDrivers args = .ok (.returned, s') ∧
      s'.acts = s.acts ++ [.printk "Usage: write <file> <text>\n" []] := by
  match args, hargs with
  | [], _ => exact ⟨_, rfl, rfl⟩
  | [_], _ => exact ⟨_, rfl, rfl⟩

end Command

/-! ### The line -/

/-- Words with a blank between each and the next. -/
def textOf (ws : List (List UInt8)) : List UInt8 := [32].intercalate ws

/-- Words after words. -/
theorem textOf_append {as bs : List (List UInt8)} (ha : as ≠ []) (hb : bs ≠ []) :
    textOf (as ++ bs) = textOf as ++ 32 :: textOf bs := by
  induction as with
  | nil => exact absurd rfl ha
  | cons a as ih =>
    unfold textOf at ih ⊢
    cases as with
    | nil =>
      rw [List.singleton_append, List.intercalate_cons_of_ne_nil hb, List.intercalate_singleton, List.append_assoc]
      rfl
    | cons a' as =>
      have hne : a' :: as ++ bs ≠ [] := List.cons_ne_nil _ _
      rw [List.cons_append, List.intercalate_cons_of_ne_nil hne, ih (List.cons_ne_nil a' as),
        List.intercalate_cons_cons]
      simp only [List.append_assoc]

/-- A text of words that are not empty. -/
theorem textOf_ne_nil {ws : List (List UInt8)} (hne : ws ≠ []) (hws : ∀ w ∈ ws, w ≠ []) : textOf ws ≠ [] := by
  cases ws with
  | nil => exact absurd rfl hne
  | cons w ws =>
    have hw := hws w List.mem_cons_self
    cases ws with
    | nil => simpa [textOf] using hw
    | cons w' ws =>
      rw [textOf, List.intercalate_cons_cons]
      simp

/-- What is lost of a text when words are. -/
theorem length_textOf_take {ws : List (List UInt8)} {n : ℕ} (hn : 0 < n) (hlen : n < ws.length) :
    (textOf (ws.take n)).length < (textOf ws).length := by
  have htake : ws.take n ≠ [] := List.ne_nil_of_length_pos (by rw [List.length_take]; omega)
  have hdrop : ws.drop n ≠ [] := List.ne_nil_of_length_pos (by rw [List.length_drop]; omega)
  have happend := textOf_append htake hdrop
  rw [List.take_append_drop] at happend
  rw [happend, List.length_append, List.length_cons]
  omega

section Line

variable {s : System Memfs} {l : List (List UInt8 × List UInt8)} {root i : UInt32} {file : CStr}
  {ws : List (List UInt8)}

/-- `"write"`. -/
def writeWord : List UInt8 := ascii ['w', 'r', 'i', 't', 'e']

theorem commandOf_write {word : List UInt8} (h0 : 0 ∉ word) : commandOf word = .write ↔ word = writeWord :=
  commandOf_eq_iff (by decide) h0

/-- The line runs the command `write`, which comes back in the state `s'` and says that it wrote `n` bytes to
the file. -/
structure SaysWrote (s s' : System Memfs) (line : List UInt8) (file : CStr) (n : Int32) : Prop where
  command : ∃ cmd args s₁, dispatch s line = .ok (some (cmd, args), s₁) ∧ commandOf cmd.bytes = .write
  back : executeCommand memfsDirDrivers s line = .ok s'
  report : wroteAct n file ∈ s'.acts.drop s.acts.length

/-- When the command says that it wrote the words to the file of inode `i`, the file holds them, with a blank
between each and the next, and nothing else. -/
def StoresText (s : System Memfs) (line : List UInt8) (file : CStr) (i : UInt32) (ws : List (List UInt8)) : Prop :=
  ∀ s' n, SaysWrote s s' line file n → s'.vfs.world.content i = textOf ws ∧ n.toInt = (textOf ws).length

/-- There are at most thirteen words, the file is not longer than the text, and if it is shorter there is room
for a block for the text, after the nodes of the path. -/
def WordsFit (s : System Memfs) (file : CStr) (i : UInt32) (ws : List (List UInt8)) : Prop :=
  ws.length ≤ 13 ∧ (s.vfs.world.data.inode i).size.toNat ≤ (textOf ws).length ∧
    ((s.vfs.world.data.inode i).size.toNat = (textOf ws).length ∨
      s.vfs.world.heap.heapPos.toNat + pathBytes file + (textOf ws).length ≤ 0x10000)

/-- A command that adds only something else says nothing of the kind. -/
theorem not_saysWrote {s' s₁ s₂ : System Memfs} {line : List UInt8} {n : Int32} {cmd : CStr} {args : List CStr}
    (hd : dispatch s line = .ok (some (cmd, args), s₁)) (hcmd : commandOf cmd.bytes = .write) {act : Act}
    (hacts₁ : s₁.acts = s.acts) (hrun : s₁.write memfsDirDrivers args = .ok (.returned, s₂))
    (hacts : s₂.acts = s₁.acts ++ [act]) (hother : wroteAct n file ≠ act) : ¬ SaysWrote s s' line file n := by
  intro h
  have hback := h.back
  simp only [executeCommand, hd, bind, Except.bind, System.runCommand, hcmd, hrun, Except.ok.injEq] at hback
  have hreport := h.report
  rw [← hback, hacts, hacts₁, List.drop_left, List.mem_singleton] at hreport
  exact hother hreport

/-- An alias for `write` has too few words to write anything. -/
theorem storesText_of_alias (h : ShellInv s l) (line : Line)
    (hline : wordsOf line.bytes = writeWord :: file.bytes :: ws)
    (hl : l.lookup writeWord ≠ none) : StoresText s line.bytes file i ws := by
  obtain ⟨command, hcommand⟩ := Option.ne_none_iff_exists'.mp hl
  have hres : resolvedWords l line.bytes = (wordsOf command).take 15 := by
    simp only [resolvedWords, hline, List.take_succ_cons, hcommand]
  have hfew := h.few _ (mem_of_lookup hcommand)
  intro s' n hreports
  exfalso
  obtain ⟨cmd, args, s₁, hd, hcmd⟩ := hreports.command
  rcases dispatch_cases h.toShellArrays line.noNul line.fits with
    ⟨-, s₂, hd', -⟩ | ⟨-, -, hd'⟩ | ⟨cmd', args', s₂, -, hws, hd', hn⟩ <;> rw [hd] at hd' <;> cases hd'
  have hargs : args.length ≤ 1 := by
    have hlen := congrArg List.length (hres.symm.trans hws)
    rw [List.length_take, List.length_cons, List.length_map] at hlen
    simp only at hfew
    omega
  obtain ⟨s₂, hrun, hacts⟩ := write_usage (s := s₁) hargs
  exact not_saysWrote hd hcmd hn.acts hrun hacts (by simp [wroteAct]) hreports

/-- What a line `write f w1 ... wk` is dispatched on. -/
theorem dispatch_write (h : ShellInv s l) (line : Line) (hline : wordsOf line.bytes = writeWord :: file.bytes :: ws)
    (hne : ws ≠ []) (hl : l.lookup writeWord = none) :
    ∃ cmd arg args s₁, dispatch s line.bytes = .ok (some (cmd, file :: arg :: args), s₁) ∧
      commandOf cmd.bytes = .write ∧ (arg :: args).map CStr.bytes = ws.take 13 ∧
      (joined (arg :: args)).length < 1024 ∧ s₁.vfs = s.vfs ∧ s₁.acts = s.acts := by
  have hres : resolvedWords l line.bytes = writeWord :: file.bytes :: ws.take 13 := by
    simp only [resolvedWords, hline, List.take_succ_cons, hl]
  have hlen : line.bytes.length < 128 := line.fits
  rcases dispatch_cases h.toShellArrays line.noNul hlen with
    ⟨hblank, -⟩ | ⟨-, hnil, -⟩ | ⟨cmd, args, s₁, -, hws, hd, hn⟩
  · rw [hline] at hblank
    cases hblank
  · rw [hres] at hnil
    cases hnil
  · have hjoined := (words128 h.aliases hlen hws).joined_lt
    rw [hres] at hws
    obtain ⟨hcmd, hargs⟩ := List.cons.inj hws
    obtain ⟨file', rest, rfl, hfile, hrest⟩ := List.map_eq_cons_iff.mp hargs.symm
    have hsame : file' = file := by
      cases file'
      cases file
      cases hfile
      rfl
    subst hsame
    obtain ⟨w, ws, rfl⟩ := List.exists_cons_of_ne_nil hne
    obtain ⟨arg, args, rfl, -, -⟩ := List.map_eq_cons_iff.mp hrest
    exact ⟨cmd, arg, args, s₁, hd, (commandOf_write cmd.noNul).mpr hcmd.symm, hrest, hjoined, hn.vfs, hn.acts⟩

/-- The count that is printed. -/
theorem toInt_count {m : ℕ} (hm : m < 1024) : (UInt32.ofNat m).toInt32.toInt = m := by
  have hcast : (UInt32.ofNat m).toInt32 = Int32.ofNat m := rfl
  rw [hcast, Int32.toInt_ofNat_of_lt (by omega)]

/-- **The line, when the file is opened**: the command says that it wrote its text, and has written it from the
start of the file on. -/
theorem saysWrote_iff {w : World Memfs} {p : UInt32} {k : Fin 64} {line : List UInt8} {cmd arg : CStr}
    {args : List CStr} {s₁ : System Memfs} (hd : dispatch s line = .ok (some (cmd, file :: arg :: args), s₁))
    (hcmd : commandOf cmd.bytes = .write) (hlen : (joined (arg :: args)).length < 1024) (hvfs : s₁.vfs = s.vfs)
    (hacts : s₁.acts = s.acts)
    (hopen : fdOpen memfsDrivers s.vfs file (O_WRONLY ||| O_CREAT) =
      (Int32.ofNat k.val, { s.vfs with world := w }.setFd k ⟨some p, 0, O_WRONLY ||| O_CREAT⟩))
    (hp : NodeFor w p i) (hfile : (w.data.inode i).isDir = false) :
    ∃ b s₂, Holds b (joined (arg :: args)) ∧ b.length = 1024 ∧
      s₂.vfs.world = (memfsWrite w p 0 (UInt32.ofNat (joined (arg :: args)).length) (bufferOf b)).2 ∧
      ∀ s' n, SaysWrote s s' line file n ↔ s' = s₂ ∧ n = (UInt32.ofNat (joined (arg :: args)).length).toInt32 := by
  rw [← hvfs] at hopen
  obtain ⟨b, s₂, hholds, hsize, hrun, hacts₂, hworld⟩ := write_reports hopen hp hfile hlen
  have hexec : executeCommand memfsDirDrivers s line = .ok (s₂.debugNote cmd) := by
    simp only [executeCommand, hd, bind, Except.bind, System.runCommand, hcmd, hrun]
  have hnew : ∃ more, (s₂.debugNote cmd).acts.drop s.acts.length =
      wroteAct (UInt32.ofNat (joined (arg :: args)).length).toInt32 file :: more ∧ ∀ n, wroteAct n file ∉ more := by
    unfold System.debugNote
    split
    · refine ⟨[.printk "[DEBUG] Command '%s' exited with code %d\n" [.str cmd.bytes, .int s₂.lastExitCode]], ?_, ?_⟩
      · simp only [System.printk, System.act, hacts₂, hacts, List.append_assoc, List.drop_left]
        rfl
      · intro n
        simp [wroteAct]
    · refine ⟨[], ?_, fun n => List.not_mem_nil⟩
      rw [hacts₂, hacts, List.drop_left]
  refine ⟨b, s₂.debugNote cmd, hholds, hsize, ?_, fun s' n => ?_⟩
  · rw [← hworld]
    unfold System.debugNote
    split <;> rfl
  · obtain ⟨more, hmore, hno⟩ := hnew
    constructor
    · intro h
      have hback := h.back
      rw [hexec, Except.ok.injEq] at hback
      subst hback
      refine ⟨rfl, ?_⟩
      have hreport := h.report
      rw [hmore, List.mem_cons] at hreport
      have heq := hreport.resolve_right (hno n)
      simpa [wroteAct] using heq
    · rintro ⟨rfl, rfl⟩
      refine ⟨⟨cmd, _, s₁, hd, hcmd⟩, hexec, ?_⟩
      rw [hmore]
      exact List.mem_cons_self

/-- **The line, when there is a descriptor for the file and room for the nodes of its path.** -/
theorem storesText_iff_wordsFit (h : ShellInv s l) (line : Line)
    (hline : wordsOf line.bytes = writeWord :: file.bytes :: ws) (hne : ws ≠ []) (hm : Mounted s.vfs.world root)
    (hroot : s.vfs.fsRoot = some root) (hres : s.vfs.world.data.resolve file.bytes = some i)
    (hblock : FileBlock s.vfs.world i) (hfile : (s.vfs.world.data.inode i).isDir = false)
    (hl : l.lookup writeWord = none) {k : Fin 64} (hfree : findFree s.vfs.fileDescriptors = some k)
    (hroom : s.vfs.world.heap.heapPos.toNat + pathBytes file ≤ 0x10000) :
    StoresText s line.bytes file i ws ↔ WordsFit s file i ws := by
  obtain ⟨cmd, arg, args, s₁, hd, hcmd, hargs, hlen, hvfs, hacts⟩ := dispatch_write h line hline hne hl
  obtain ⟨p, w, hopen, hgrown, hp⟩ := fdOpen_room hm hroot hfree hres hroom (O_WRONLY ||| O_CREAT)
  have hfile' : (w.data.inode i).isDir = false := by rw [hgrown.data]; exact hfile
  obtain ⟨b, s₂, hholds, hsize, hworld, hreports⟩ := saysWrote_iff hd hcmd hlen hvfs hacts hopen hp hfile'
  have hcount := toInt_count hlen
  have hstores : StoresText s line.bytes file i ws ↔
      s₂.vfs.world.content i = textOf ws ∧ (joined (arg :: args)).length = (textOf ws).length := by
    constructor
    · intro hall
      have hboth := hall s₂ _ ((hreports s₂ _).mpr ⟨rfl, rfl⟩)
      rw [hcount] at hboth
      exact ⟨hboth.1, by omega⟩
    · rintro ⟨hcontent, hlength⟩ s' n hn
      obtain ⟨rfl, rfl⟩ := (hreports s' n).mp hn
      exact ⟨hcontent, by rw [hcount]; omega⟩
  have htext : joined (arg :: args) = textOf (ws.take 13) := by rw [← hargs]; rfl
  rw [hstores]
  unfold WordsFit
  by_cases hfew : ws.length ≤ 13
  · rw [List.take_of_length_le hfew] at htext
    have hpos : w.heap.heapPos.toNat = s.vfs.world.heap.heapPos.toNat + pathBytes file := hgrown.heapPos
    have hnonempty : textOf ws ≠ [] := by
      refine textOf_ne_nil hne fun v hv => ?_
      have hmem : v ∈ wordsOf line.bytes := by
        rw [hline]
        exact List.mem_cons_of_mem _ (List.mem_cons_of_mem _ hv)
      exact (mem_wordsOf hmem).1
    rw [htext] at hholds hworld ⊢
    have hcontent := memfsWrite_content_iff (hblock.grown hgrown) hp.fsSpecific hfile' hholds hsize
      hnonempty
    rw [hgrown.data, hpos] at hcontent
    rw [hworld, hcontent, and_iff_left rfl, and_iff_right hfew]
  · refine iff_of_false (fun hboth => ?_) fun hcond => hfew hcond.1
    have hlt : (textOf (ws.take 13)).length < (textOf ws).length :=
      length_textOf_take (by decide) (Nat.not_le.mp hfew)
    rw [htext] at hboth
    omega

/-- A file that cannot be opened is not said to be written. -/
theorem storesText_of_notOpened (h : ShellInv s l) (line : Line)
    (hline : wordsOf line.bytes = writeWord :: file.bytes :: ws) (hne : ws ≠ []) (hl : l.lookup writeWord = none)
    (hopen : (fdOpen memfsDrivers s.vfs file (O_WRONLY ||| O_CREAT)).1 = -1) :
    StoresText s line.bytes file i ws := by
  obtain ⟨cmd, arg, args, s₁, hd, hcmd, -, -, hvfs, hacts⟩ := dispatch_write h line hline hne hl
  intro s' n hreports
  rw [← hvfs] at hopen
  obtain ⟨s₂, hrun, hacts₂⟩ := @write_notOpened _ _ arg args hopen
  exact absurd hreports (not_saysWrote hd hcmd hacts hrun hacts₂ (by simp [wroteAct]))

/-- **When the text is stored**, if the command says so: when `write` is an alias, or the file is not opened,
for want of a descriptor or of room for the nodes of its path, and so nothing is said; or when the words fit. -/
theorem write_storesText_iff (h : ShellInv s l) (line : Line)
    (hline : wordsOf line.bytes = writeWord :: file.bytes :: ws) (hne : ws ≠ []) (hm : Mounted s.vfs.world root)
    (hroot : s.vfs.fsRoot = some root) (hres : s.vfs.world.data.resolve file.bytes = some i)
    (hblock : FileBlock s.vfs.world i) (hfile : (s.vfs.world.data.inode i).isDir = false) :
    StoresText s line.bytes file i ws ↔
      l.lookup writeWord ≠ none ∨ findFree s.vfs.fileDescriptors = none ∨
        0x10000 < s.vfs.world.heap.heapPos.toNat + pathBytes file ∨ WordsFit s file i ws := by
  by_cases hl : l.lookup writeWord = none
  · rw [or_iff_right (not_not.mpr hl)]
    cases hfree : findFree s.vfs.fileDescriptors with
    | none =>
      refine iff_of_true (storesText_of_notOpened h line hline hne hl ?_) (.inl rfl)
      rw [fdOpen, hfree]
    | some k =>
      rw [or_iff_right (Option.some_ne_none k)]
      by_cases hroom : s.vfs.world.heap.heapPos.toNat + pathBytes file ≤ 0x10000
      · rw [or_iff_right (Nat.not_lt.mpr hroom)]
        exact storesText_iff_wordsFit h line hline hne hm hroot hres hblock hfile hl hfree hroom
      · have hnoRoom := fdOpen_noRoom hm hroot hres (Nat.not_le.mp hroom) (O_WRONLY ||| O_CREAT)
        exact iff_of_true (storesText_of_notOpened h line hline hne hl hnoRoom) (.inl (Nat.not_le.mp hroom))
  · exact iff_of_true (storesText_of_alias h line hline hl) (.inl hl)

/-- The file of the small tree is empty. -/
theorem smallFile_block : FileBlock smallSystem.vfs.world 3 := by
  have hdata : (smallSystem.vfs.world.data.inode 3).data = none := by decide +kernel
  refine ⟨smallWorld_mounted.ok, fun _ => by decide +kernel, fun h => ?_, fun h => ?_⟩ <;> rw [hdata] at h <;> cases h

/-- `write /d/f`, and one-letter words. -/
def writeLine (n : Fin 27) : Line where
  bytes := writeWord ++ 32 :: (smallPath.bytes ++ (List.replicate n.val [32, 97]).flatten)
  noNul := by revert n; decide
  short := by revert n; decide

theorem write_storesText_small : StoresText smallSystem (writeLine 2).bytes smallPath 3 [[97], [97]] :=
  (write_storesText_iff smallSystem_inv (writeLine 2) (by decide +kernel) (by decide) smallWorld_mounted rfl
    (by decide +kernel) smallFile_block (by decide +kernel)).mpr
    (.inr (.inr (.inr ⟨by decide, by decide +kernel, .inr (by decide +kernel)⟩)))

/-- Of fourteen words, thirteen are written. -/
theorem not_forall_storesText : ¬ ∀ (s : System Memfs) (l : List (List UInt8 × List UInt8)) (line : Line)
    (file : CStr) (ws : List (List UInt8)) (root i : UInt32), ShellInv s l →
    wordsOf line.bytes = writeWord :: file.bytes :: ws → ws ≠ [] → Mounted s.vfs.world root →
    s.vfs.fsRoot = some root → s.vfs.world.data.resolve file.bytes = some i → FileBlock s.vfs.world i →
    (s.vfs.world.data.inode i).isDir = false → StoresText s line.bytes file i ws := by
  intro h
  have hline : wordsOf (writeLine 14).bytes = writeWord :: smallPath.bytes :: List.replicate 14 [97] := by
    decide +kernel
  have hres : smallSystem.vfs.world.data.resolve smallPath.bytes = some 3 := by decide +kernel
  have hfile : (smallSystem.vfs.world.data.inode 3).isDir = false := by decide +kernel
  have hstores := h smallSystem [] (writeLine 14) smallPath _ 0 3 smallSystem_inv hline (by decide) smallWorld_mounted
    rfl hres smallFile_block hfile
  have hfit := (storesText_iff_wordsFit smallSystem_inv (writeLine 14) hline (by decide) smallWorld_mounted rfl hres
    smallFile_block hfile rfl (show findFree _ = some 0 by decide +kernel) (by decide +kernel)).mp hstores
  exact absurd hfit.1 (by decide)

end Line

end Basedos.Kernel
