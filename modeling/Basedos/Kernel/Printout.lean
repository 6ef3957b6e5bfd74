import Basedos.Kernel.Formats
import Basedos.Kernel.Returning

/-!
# What the shell prints

The shell prints with `printk`, in a colour or not, clears the screen, and sounds tones. This module says how it
puts these together, and that no command puts them together in another way.

## The model

A part of a line (`LinePart`) is made of calls of `printk` whose formats fit, some of them between two calls of
`terminal_setcolor` of which the second sets white. A whole line (`WholeLine`) ends in a newline. A printout
(`Printout`) is made of whole lines, cleared screens, tones that are ended again, and pauses. The byte that resets
the machine may come last.

What has been done is known wherever a run stops (`HaltsWith`): where the processor is halted or reset, where it
divides as it cannot, and in a list of a directory that has no end, after its first `2 ^ 32` entries.

## What is proved

* `runCommand_printout` — **every command**, whatever the arguments and the file systems, adds a printout, also where
  it does not come back; and there is no other stop.
* `formats_respected` — so **every format is respected**: in any run of the shell no call of `printk` takes an argument
  it has not got, or reads on behind its format.
-/

namespace Basedos.Kernel

open Basedos.Lib Basedos.CLib Basedos.Fs

/-! ### Printouts -/

/-- What `print_color` does when there are colours. -/
def coloured (colour : UInt8) (text : Arg) : List Act :=
  [.setcolor colour 0, .printk "%s" [text], .setcolor 15 0]

/-- Part of a line. -/
inductive LinePart : List Act → Prop where
  | nil : LinePart []
  | printk {format : String} {args : List Arg} (h : FormatFits format args) : LinePart [.printk format args]
  | coloured (colour : UInt8) {text : Arg} (h : text.kind = .string) : LinePart (coloured colour text)
  | append {acts acts' : List Act} (h : LinePart acts) (h' : LinePart acts') : LinePart (acts ++ acts')

/-- A whole line. -/
inductive WholeLine : List Act → Prop where
  | printk {format : String} {args : List Arg} (h : FormatFits format args) (hline : EndsLine (literal format).bytes) :
    WholeLine [.printk format args]
  | text {text : String} (hline : EndsLine (literal text).bytes) : WholeLine [.printk "%s" [.text text]]
  | coloured (colour : UInt8) {text : String} (hline : EndsLine (literal text).bytes) :
    WholeLine (coloured colour (.text text))
  | writestring {text : String} (hline : EndsLine (literal text).bytes) : WholeLine [.writestring text]
  | append {acts acts' : List Act} (h : LinePart acts) (h' : WholeLine acts') : WholeLine (acts ++ acts')

/-- **A printout.** -/
inductive Printout : List Act → Prop where
  | nil : Printout []
  | line {acts : List Act} (h : WholeLine acts) : Printout acts
  | clear : Printout [.clear]
  | tone {frequency : UInt32} (h : frequency ≠ 0) (milliseconds : Int32) :
    Printout [.beep frequency, .delay milliseconds, .nosound]
  | delay (milliseconds : Int32) : Printout [.delay milliseconds]
  | reset : Printout [.outb 0x64 0xFE]
  | append {acts acts' : List Act} (h : Printout acts) (h' : Printout acts') : Printout (acts ++ acts')

/-- A string of any kind is printed by `"%s"`. -/
theorem fits_string {arg : Arg} (h : arg.kind = .string) : FormatFits "%s" [arg] :=
  ⟨by rw [List.map_singleton, h]; rfl, by decide⟩

theorem linePart_flatten {parts : List (List Act)} (h : ∀ part ∈ parts, LinePart part) : LinePart parts.flatten := by
  induction parts with
  | nil => exact .nil
  | cons part parts ih =>
    rw [List.forall_mem_cons] at h
    exact .append h.1 (ih h.2)

theorem printout_flatten {parts : List (List Act)} (h : ∀ part ∈ parts, Printout part) : Printout parts.flatten := by
  induction parts with
  | nil => exact .nil
  | cons part parts ih =>
    rw [List.forall_mem_cons] at h
    exact .append h.1 (ih h.2)

/-! ### What a command adds -/

/-- What has been done, at a stop that knows it. -/
def Stop.acts : Stop → Option (List Act)
  | .wildStore acts | .divideError acts | .halted acts | .unending acts => some acts
  | .overrun | .nullAccess => none

variable {D : Type} {K : DirDrivers D} {s s' : System D} {P : List Act → Prop} {acts : List Act}

/-- From `s` to `s'` this has been done. -/
def Adds (P : List Act → Prop) (s s' : System D) : Prop := ∃ acts, s'.acts = s.acts ++ acts ∧ P acts

/-- From `s` to the stop this has been done. -/
def HaltsWith (P : List Act → Prop) (s : System D) (e : Stop) : Prop := ∃ acts, e.acts = some (s.acts ++ acts) ∧ P acts

/-- What else is changed does not matter. -/
theorem adds_same (h : s'.acts = s.acts) : Adds Printout s s' := ⟨[], by rw [h, List.append_nil], .nil⟩

theorem adds_refl (s : System D) : Adds Printout s s := adds_same rfl

theorem adds_act (h : P acts) (s : System D) : Adds P s (s.act acts) := ⟨acts, rfl, h⟩

theorem Adds.setVfs (h : Adds P s s') (vfs : Vfs D) : Adds P s (s'.setVfs vfs) := h

theorem Adds.setWorld (h : Adds P s s') (world : World D) : Adds P s (s'.setWorld world) := h

/-- Something more is done. -/
theorem Adds.more {Q : List Act → Prop} (h : Adds P s s') (hacts : ∀ acts', P acts' → Q (acts' ++ acts)) :
    Adds Q s (s'.act acts) := by
  obtain ⟨acts', heq, hp⟩ := h
  refine ⟨acts' ++ acts, ?_, hacts acts' hp⟩
  rw [System.act, heq, List.append_assoc]

theorem Adds.act (h : Adds Printout s s') (hacts : Printout acts) : Adds Printout s (s'.act acts) :=
  h.more fun _ hp => hp.append hacts

theorem Adds.halts (h : Adds P s s') {e : Stop} (he : e.acts = some s'.acts) : HaltsWith P s e := by
  obtain ⟨acts, heq, hp⟩ := h
  exact ⟨acts, heq ▸ he, hp⟩

theorem Adds.trans {s'' : System D} (h : Adds Printout s s') (h' : Adds Printout s' s'') : Adds Printout s s'' := by
  obtain ⟨acts, heq, hp⟩ := h
  obtain ⟨acts', heq', hp'⟩ := h'
  exact ⟨acts ++ acts', by rw [heq', heq, List.append_assoc], hp.append hp'⟩

/-- What is done after something else. -/
theorem Adds.haltsWith (h : Adds Printout s s') {e : Stop} (he : HaltsWith Printout s' e) : HaltsWith Printout s e := by
  obtain ⟨acts, heq, hp⟩ := h
  obtain ⟨acts', heq', hp'⟩ := he
  exact ⟨acts ++ acts', by rw [heq', heq, List.append_assoc], hp.append hp'⟩

theorem Adds.settles {α : Type} {f : α → System D} (h : Adds Printout s s') {r : Except Stop α}
    (hr : Settles (fun x => Adds Printout s' (f x)) (HaltsWith Printout s') r) :
    Settles (fun x => Adds Printout s (f x)) (HaltsWith Printout s) r :=
  hr.mono (fun _ hx => h.trans hx) fun _ he => h.haltsWith he

/-- A call of `printk` that is a whole line. -/
def printsLine (format : String) (args : List VaKind) : Bool :=
  kinds (literal format).bytes = args ∧ ¬ CutOff (literal format).bytes ∧ EndsLine (literal format).bytes

theorem wholeLine_printk {format : String} {args : List Arg} (h : printsLine format (args.map Arg.kind) = true) :
    WholeLine [.printk format args] := by
  obtain ⟨hkinds, hwhole, hline⟩ := of_decide_eq_true h
  exact .printk ⟨hkinds, hwhole⟩ hline

/-- Is the act a call of `printk` that is a whole line? -/
def Act.printsLine : Act → Bool
  | .printk format args => Kernel.printsLine format (args.map Arg.kind)
  | _ => false

theorem printout_lines {acts : List Act} (h : acts.all Act.printsLine = true) : Printout acts := by
  induction acts with
  | nil => exact .nil
  | cons act acts ih =>
    rw [List.all_cons, Bool.and_eq_true] at h
    cases act with
    | printk format args => exact .append (.line (wholeLine_printk h.1)) (ih h.2)
    | _ => exact absurd h.1 nofun

theorem Adds.printk (h : Adds Printout s s') {format : String} {args : List Arg}
    (hline : printsLine format (args.map Arg.kind) = true) : Adds Printout s (s'.printk format args) :=
  h.act (.line (wholeLine_printk hline))

theorem Adds.printColor (h : Adds Printout s s') {text : String} (hline : EndsLine (literal text).bytes)
    (colour : UInt8) : Adds Printout s (s'.printColor text colour) := by
  unfold System.printColor
  split
  · exact h.act (.line (.coloured colour hline))
  · exact h.act (.line (.text hline))

/-- A coloured text is part of a line. -/
theorem linePart_colour (s : System D) (text : String) (colour : UInt8) :
    LinePart (if s.colorEnabled then coloured colour (.text text) else [.printk "%s" [.text text]]) := by
  split
  · exact .coloured colour rfl
  · exact .printk (fits_string rfl)

/-- A coloured text, and then the rest of its line. -/
theorem adds_label (s : System D) (text : String) (colour : UInt8) {format : String} {args : List Arg}
    (hline : printsLine format (args.map Arg.kind) = true) :
    Adds Printout s ((s.printColor text colour).printk format args) := by
  have hlabel := linePart_colour s text colour
  unfold System.printColor System.printk
  rw [System.act_act]
  exact adds_act (.line (.append hlabel (wholeLine_printk hline))) s

/-! ### The commands that only print -/

theorem adds_help (s : System D) : Adds Printout s s.help :=
  ((adds_refl s).printColor (by rfl) 11).act (printout_lines (by rfl))

/-- The first line of the banner. -/
def bannerTop : String := "  ____                   _  ___  ____\n"

theorem adds_bannerTop (s : System D) : Adds Printout s (s.printInfo bannerTop) :=
  (adds_refl s).printColor (by rfl) 11

theorem adds_restOfBanner (s : System D) : Adds Printout (s.printInfo bannerTop) s.displayBanner :=
  (((((adds_refl _).printColor (by rfl) 11).printColor (by rfl) 11).printColor
    (by rfl) 11).printColor (by rfl) 11).printk rfl

theorem adds_displayBanner (s : System D) : Adds Printout s s.displayBanner :=
  (adds_bannerTop s).trans (adds_restOfBanner s)

/-- Each note of the scale is a tone that is ended, and a pause. -/
theorem adds_playStartupSound (s : System D) : Adds Printout s s.playStartupSound := by
  refine adds_act ?_ s
  rw [List.flatMap_def]
  refine printout_flatten fun part hpart => ?_
  obtain ⟨note, hnote, rfl⟩ := List.mem_map.mp hpart
  have hne : ∀ note ∈ ([523, 587, 659, 698, 784, 880, 988, 1047] : List UInt32), note ≠ 0 := by simp
  exact .append (.tone (hne note hnote) 200) (.delay 50)

theorem mem_intersperse {α : Type} {sep x : α} {l : List α} (h : x ∈ l.intersperse sep) : x = sep ∨ x ∈ l := by
  induction l with
  | nil => exact .inr h
  | cons a l ih =>
    cases l with
    | nil => exact .inr h
    | cons b l =>
      rw [List.intersperse_cons_cons, List.mem_cons, List.mem_cons] at h
      rcases h with rfl | rfl | h
      · exact .inr List.mem_cons_self
      · exact .inl rfl
      · exact (ih h).imp_right (List.mem_cons_of_mem a)

/-- The arguments of `echo` and the blanks between them are the parts of one line. -/
theorem adds_echoTest (s : System D) (args : List CStr) : Adds Printout s (s.echoTest args) := by
  have hblank : FormatFits " " [] := ⟨rfl, by decide⟩
  unfold System.echoTest
  split
  · exact (adds_refl s).printk rfl
  · refine adds_act (.line (.append (linePart_flatten fun part hpart => ?_) (wholeLine_printk rfl))) s
    rcases mem_intersperse hpart with rfl | hpart
    · exact .printk hblank
    · obtain ⟨arg, -, rfl⟩ := List.mem_map.mp hpart
      exact .printk (fits_string rfl)

theorem adds_calculator (s : System D) (args : List CStr) :
    Settles (Adds Printout s) (HaltsWith Printout s) (s.calculator args) := by
  unfold System.calculator
  split
  · have hprint : ∀ (a b result : Int32) (op : UInt8), Adds Printout s
        (s.printk "%d %c %d = %d\n" [.int a, .chr op, .int b, .int result]) := fun a b result op =>
      (adds_refl s).printk rfl
    have herror : ∀ (text : String), EndsLine (literal text).bytes → Adds Printout s (s.printError text) :=
      fun text h => (adds_refl s).printColor h 12
    have hdivide : ∀ (a b result : Int32) (op : UInt8), Settles (Adds Printout s) (HaltsWith Printout s)
        (if b = 0 then .ok (s.printError "Error: Division by zero\n")
          else if a = Int32.minValue ∧ b = -1 then .error (Stop.divideError s.acts)
          else .ok (s.printk "%d %c %d = %d\n" [.int a, .chr op, .int b, .int result])) := fun a b result op =>
      .ite (herror _ (by rfl)) (.ite ((adds_refl s).halts rfl) (hprint a b result op))
    exact .ite (hprint _ _ _ _) (.ite (hprint _ _ _ _) (.ite (hprint _ _ _ _) (.ite (hdivide _ _ _ _)
      (.ite (hdivide _ _ _ _) (herror _ (by rfl))))))
  · exact ((adds_refl s).printk rfl).printk rfl

theorem adds_showMemoryInfo (s : System D) : Settles (Adds Printout s) (HaltsWith Printout s) s.showMemoryInfo := by
  have hheader : Adds Printout s ((s.printInfo "Memory Information\n").printInfo "==================\n") :=
    ((adds_refl s).printColor (by rfl) 11).printColor (by rfl) 11
  unfold System.showMemoryInfo
  dsimp only
  split
  · exact (adds_refl s).halts rfl
  · show Adds Printout s _
    split
    · exact (hheader.act (printout_lines rfl)).printColor (by rfl) 14
    · exact hheader.act (printout_lines rfl)

theorem adds_set (s : System D) (args : List CStr) : Adds Printout s (s.set args) := by
  unfold System.set
  split
  · exact adds_act (printout_lines (by cases s.debugMode <;> cases s.colorEnabled <;> cases s.echoEnabled <;> rfl)) s
  · dsimp only
    split_ifs
    · exact (adds_same rfl).printColor (by rfl) 10
    · exact (adds_same rfl).printColor (by rfl) 10
    · exact (adds_same rfl).printColor (by rfl) 10
    · exact (adds_refl s).printColor (by rfl) 12
  · exact (adds_refl s).printk rfl

/-! ### The commands that read an array -/

/-- The entries of a list of acts that may fail. -/
theorem mem_mapM {α β : Type} {f : α → Option β} {l : List α} {bs : List β} (h : l.mapM f = some bs) {b : β}
    (hb : b ∈ bs) : ∃ a ∈ l, f a = some b := by
  induction l generalizing bs with
  | nil =>
    cases h
    cases hb
  | cons a l ih =>
    rw [List.mapM_cons] at h
    obtain ⟨b', hb', h⟩ := Option.bind_eq_some_iff.mp h
    obtain ⟨bs', hbs', h⟩ := Option.bind_eq_some_iff.mp h
    cases h
    rcases List.mem_cons.mp hb with rfl | hb
    · exact ⟨a, List.mem_cons_self, hb'⟩
    · obtain ⟨a', ha', hfa'⟩ := ih hbs' hb
      exact ⟨a', List.mem_cons_of_mem a ha', hfa'⟩

theorem adds_showHistory (h : s.showHistory = some s') : Adds Printout s s' := by
  obtain ⟨entries, hentries, h⟩ := Option.bind_eq_some_iff.mp h
  cases h
  refine ((adds_refl s).printColor (by rfl) 11).act (printout_flatten fun entry hentry => ?_)
  obtain ⟨i, -, hi⟩ := mem_mapM hentries hentry
  obtain ⟨k, -, hi⟩ := Option.bind_eq_some_iff.mp hi
  obtain ⟨line, -, hi⟩ := Option.bind_eq_some_iff.mp hi
  cases hi
  split
  · exact .nil
  · exact printout_lines rfl

theorem adds_showSystemInfo (h : s.showSystemInfo = some s') : Adds Printout s s' := by
  obtain ⟨directory, -, h⟩ := Option.bind_eq_some_iff.mp h
  cases h
  refine (((adds_refl s).printColor (by rfl) 11).printColor (by rfl) 11).act (printout_lines ?_)
  cases s.debugMode <;> cases s.colorEnabled <;> rfl

/-! ### The commands that use the file system -/

theorem adds_noSuchDirectory (s : System D) (path : List UInt8) : Adds Printout s (s.noSuchDirectory path) :=
  adds_label s _ 12 rfl

theorem adds_changeDirectory (s : System D) (path : List UInt8) :
    Gives (Adds Printout s) (s.changeDirectory K path) := by
  unfold System.changeDirectory
  split
  · split
    · exact (gives_inside _).bind fun b _ =>
        (gives_inside _).bind fun b' _ => gives_ok (adds_same rfl)
    · exact gives_ok (adds_noSuchDirectory _ path)
  · exact gives_ok (adds_noSuchDirectory _ path)

theorem adds_cd (s : System D) (args : List CStr) : Gives (Adds Printout s) (s.cd K args) := by
  unfold System.cd
  split <;> exact adds_changeDirectory s _

/-- The loop of `ls` prints a line for each entry. -/
theorem adds_lsLoop (dir : UInt32) (n : ℕ) (i : UInt32) {s' : System D} (h : Adds Printout s s') :
    Settles (Adds Printout s) (HaltsWith Printout s) (s'.lsLoop K dir n i) := by
  induction n generalizing i s' with
  | zero => exact h.halts rfl
  | succ n ih =>
    unfold System.lsLoop
    split
    · exact h
    · exact ih (i + 1) (h.printk rfl)

/-- What is asked of a branch of `execute_command`. -/
abbrev BranchAdds (s : System D) (r : Except Stop (Flow × System D)) : Prop :=
  Settles (fun r => Adds Printout s r.2) (HaltsWith Printout s) r

theorem adds_ls (s : System D) : BranchAdds s (s.ls K) := by
  unfold System.ls
  generalize 2 ^ 32 = n
  split
  · exact ((adds_refl s).setWorld _).printk rfl
  · dsimp only
    split
    · exact (((adds_refl s).setWorld _).printk rfl).setWorld _
    · exact (adds_lsLoop _ n 0 (((adds_refl s).setWorld _).printk rfl)).bind fun s' hs' => hs'.setWorld _

theorem adds_cat (s : System D) (args : List CStr) : BranchAdds s (s.cat K args) := by
  cases args with
  | nil => exact (adds_refl s).printk rfl
  | cons file args =>
    rw [cat_eq]
    exact .ite (((adds_refl s).setVfs _).printk rfl) (((adds_refl s).setVfs _).printk rfl)

theorem adds_touch (s : System D) (args : List CStr) : BranchAdds s (s.touch K args) := by
  unfold System.touch
  split
  · exact (adds_refl s).printk rfl
  · dsimp only
    split
    · exact ((adds_refl s).setVfs _).printk rfl
    · exact (((adds_refl s).setVfs _).setVfs _).printk rfl

theorem adds_write (s : System D) (args : List CStr) :
    Gives (fun r => Adds Printout s r.2) (s.write K args) := by
  unfold System.write
  split
  · dsimp only
    split
    · exact gives_ok (((adds_refl s).setVfs _).printk rfl)
    · refine (gives_inside _).bind fun buffer _ =>
        (gives_inside _).bind fun text _ => gives_ok (Adds.setVfs ?_ _)
      split
      · exact (((adds_refl s).setVfs _).setVfs _).printk rfl
      · exact (((adds_refl s).setVfs _).setVfs _).printk rfl
  · exact gives_ok ((adds_refl s).printk rfl)

theorem adds_notFound (s : System D) (cmd : CStr) : Adds Printout s (s.notFound K cmd) := by
  unfold System.notFound
  split
  · exact ((adds_refl s).setWorld _).printColor (by rfl) 12
  · exact adds_label (s.setWorld _) _ 12 rfl

theorem adds_notImplemented (s : System D) (args : List CStr) {usage text : String}
    (husage : printsLine usage [] = true) (htext : printsLine text [] = true) :
    BranchAdds s (s.notImplemented args usage text) := by
  unfold System.notImplemented
  split
  · exact (adds_refl s).printk husage
  · exact (adds_refl s).printk htext

/-! ### Every command -/

/-- Every command but `alias`. -/
theorem runCommand_adds (h : ShellArrays s []) {cmd : CStr} {args : List CStr}
    (hlen : (joined args.tail).length < 1024) (halias : commandOf cmd.bytes ≠ .alias_) :
    BranchAdds s (s.runCommand K cmd args) := by
  have hnext : ∀ {r : Except Stop (System D)}, Settles (Adds Printout s) (HaltsWith Printout s) r →
      BranchAdds s (r >>= System.next) := fun hr => hr.bind fun _ hs' => hs'
  unfold System.runCommand
  cases hc : commandOf cmd.bytes with
  | help => exact adds_help s
  | clear => exact adds_act .clear s
  | echo => exact adds_echoTest s args
  | exit => exact (adds_refl s).printColor (by rfl) 11
  | shutdown =>
    have hlines : Printout [.writestring "Shutting down BasedOS...\n", .writestring "System halted safely.\n"] :=
      .append (.line (.writestring (by rfl))) (.line (.writestring (by rfl)))
    exact (((adds_refl s).printColor (by rfl) 11).act hlines).halts rfl
  | reboot => exact (((adds_refl s).printColor (by rfl) 14).act .reset).halts rfl
  | pwd =>
    obtain ⟨directory, hd, -⟩ := h.currentDirectory.holds
    rw [hd]
    exact (adds_refl s).printk rfl
  | cd => exact hnext ((adds_cd s args).settles (cd_comesBack h))
  | beep => exact adds_act (.tone (by decide) 500) s
  | memory => exact hnext (adds_showMemoryInfo s)
  | uptime => exact (adds_refl s).printk rfl
  | ls => exact adds_ls s
  | cat => exact adds_cat s args
  | mkdir => exact adds_notImplemented s args rfl rfl
  | touch => exact adds_touch s args
  | rm => exact adds_notImplemented s args rfl rfl
  | write => exact (adds_write s args).settles (write_comesBack hlen)
  | date => exact (adds_refl s).printk rfl
  | banner => exact adds_displayBanner s
  | alias_ => exact absurd hc halias
  | set => exact adds_set s args
  | history =>
    obtain ⟨s', hs', -⟩ := showHistory_same h
    rw [hs']
    exact adds_showHistory hs'
  | sysinfo =>
    obtain ⟨s', hs', -⟩ := showSystemInfo_same h
    rw [hs']
    exact adds_showSystemInfo hs'
  | calc_ => exact hnext (adds_calculator s args)
  | sound => exact adds_playStartupSound s
  | other => exact adds_notFound s cmd

/-! ### With the table of aliases -/

namespace RecordShell

variable {r r' : RecordShell D}

theorem adds_listAliases (h : r.listAliases = some r') : Adds Printout r.vars r'.vars := by
  unfold RecordShell.listAliases at h
  split at h
  · cases h
    exact (adds_refl r.vars).printColor (by rfl) 11
  · obtain ⟨entries, hentries, h⟩ := Option.bind_eq_some_iff.mp h
    cases h
    refine ((adds_refl r.vars).printColor (by rfl) 11).act (printout_lines (List.all_eq_true.mpr ?_))
    intro entry hentry
    obtain ⟨record, -, hrecord⟩ := mem_mapM hentries hentry
    obtain ⟨name, -, hrecord⟩ := Option.bind_eq_some_iff.mp hrecord
    obtain ⟨command, -, hrecord⟩ := Option.bind_eq_some_iff.mp hrecord
    cases hrecord
    rfl

theorem adds_addAlias {aliasName command : List UInt8} (h : r.addAlias aliasName command = some r') :
    Adds Printout r.vars r'.vars := by
  obtain ⟨⟨reply, records⟩, -, h⟩ := Option.bind_eq_some_iff.mp h
  cases h
  refine (adds_refl r.vars).printColor ?_ _
  cases reply <;> decide +kernel

theorem adds_alias {args : List CStr} (h : r.alias_ args = some r') : Adds Printout r.vars r'.vars := by
  unfold RecordShell.alias_ at h
  split at h
  · exact adds_listAliases h
  · exact adds_addAlias h
  · cases h
    exact (adds_refl r.vars).printk rfl

/-- **Every command** adds a printout, also where it does not come back. -/
theorem runCommand_printout (h : RecordInv r) {cmd : CStr} {args : List CStr} (hw : Words128 cmd args) :
    Settles (fun x => Adds Printout r.vars x.2.vars) (HaltsWith Printout r.vars) (r.runCommand K cmd args) := by
  by_cases halias : commandOf cmd.bytes = .alias_
  · obtain ⟨r', hr', -⟩ := alias_inv h hw
    rw [RecordShell.runCommand_alias K halias, hr']
    exact adds_alias hr'
  · rw [RecordShell.runCommand_of_ne K halias]
    exact (runCommand_adds h.arrays hw.joined_lt halias).map fun x hx => hx

/-! ### Every line -/

theorem adds_finished (cmd : CStr) {s : System D} {x : Flow × RecordShell D} (h : Adds Printout s x.2.vars) :
    Adds Printout s (finished cmd x).vars := by
  obtain ⟨flow, r⟩ := x
  cases flow with
  | returned => exact h
  | next =>
    show Adds Printout s (r.vars.debugNote cmd)
    unfold System.debugNote
    split
    · exact h.printk rfl
    · exact h

/-- **A line** adds a printout. -/
theorem executeCommand_printout (h : RecordInv r) (call : LineCall) :
    Settles (fun r' => Adds Printout r.vars r'.vars ∧ RecordInv r') (HaltsWith Printout r.vars)
      (r.executeCommand K call.line.bytes call.args) := by
  have hinv : Gives RecordInv (r.executeCommand K call.line.bytes call.args) :=
    (avoids_iff.mp (executeCommand_inv (K := K) h call.line.noNul call.fits call.args)).2
  refine Settles.and_gives ?_ hinv
  rw [executeCommand_eq]
  rcases commandWords_cases h call.line.noNul call.fits call.args with
    ⟨-, -, r', hwords, hnoted⟩ | ⟨cmd, args, r', hwords, -, -, hnoted, hw⟩
  · rw [hwords]
    exact adds_same hnoted.acts
  · have hsame : Adds Printout r.vars r'.vars := adds_same hnoted.acts
    rw [hwords]
    exact (hsame.settles (runCommand_printout (K := K) hnoted.inv hw)).map fun x hx => adds_finished cmd hx

/-- A line, and whether the loop is left after it. -/
theorem shellLine_printout (h : RecordInv r) (call : LineCall) :
    Settles (fun x => Adds Printout r.vars x.2.vars ∧ RecordInv x.2) (HaltsWith Printout r.vars)
      (r.shellLine K call.line.bytes call.args) :=
  (executeCommand_printout h call).bind fun _ h' => h'

theorem adds_foldlM_addAlias {l : List (List UInt8 × List UInt8)} {s : System D} (hs : Adds Printout s r.vars)
    (h : l.foldlM (fun r p => r.addAlias p.1 p.2) r = some r') : Adds Printout s r'.vars := by
  induction l generalizing r with
  | nil =>
    cases h
    exact hs
  | cons p l ih =>
    obtain ⟨r'', hr'', h⟩ := Option.bind_eq_some_iff.mp h
    exact ih (hs.trans (adds_addAlias hr'')) h

/-- What `start_shell` prints before its loop, after the first line of the banner. -/
theorem start_afterTop {s : System D} (h : RecordShell.start s = some r) :
    Adds Printout (s.printInfo bannerTop) r.vars := by
  refine adds_foldlM_addAlias (r := ⟨s.greet, []⟩) ?_ h
  exact (((adds_restOfBanner s).printColor (by rfl) 10).printColor (by rfl) 11).printk rfl

end RecordShell

/-! ### The loop of the shell -/

/-- `print_error("[")`, the status and `print_error("] ")`, if the status is not zero. -/
def System.promptStatus (s : System D) : System D :=
  if s.lastExitCode ≠ 0 then ((s.printError "[").printk "%d" [.int s.lastExitCode]).printError "] " else s

/-- The prompt of `start_shell`. -/
def System.prompt (s : System D) : Option (System D) :=
  let s := s.promptStatus
  if s.colorEnabled then do
    let directory ← stringIn s.currentDirectory
    some ((((s.printSuccess "user@based").printInfo ":").act (coloured 14 (.str directory))).printInfo "$ ")
  else some (s.printk "user@based:~$ " [])

theorem Adds.part (h : Adds LinePart s s') (hacts : LinePart acts) : Adds LinePart s (s'.act acts) :=
  h.more fun _ hp => hp.append hacts

theorem Adds.partColor (h : Adds LinePart s s') (text : String) (colour : UInt8) :
    Adds LinePart s (s'.printColor text colour) := h.part (linePart_colour s' text colour)

/-- **The prompt** is part of a line. -/
theorem prompt_linePart (h : ShellArrays s []) :
    ∃ s', s.prompt = some s' ∧ SameArrays s s' ∧ Adds LinePart s s' := by
  have hnone : Adds LinePart s s := ⟨[], (List.append_nil _).symm, .nil⟩
  have hnumber : FormatFits "%d" [.int s.lastExitCode] := ⟨rfl, by decide⟩
  have hstatus : SameArrays s s.promptStatus ∧ Adds LinePart s s.promptStatus := by
    unfold System.promptStatus
    split
    · exact ⟨(((SameArrays.refl s).act _).act _).act _,
        ((hnone.partColor "[" 12).part (.printk hnumber)).partColor "] " 12⟩
    · exact ⟨.refl s, hnone⟩
  obtain ⟨hsame, hstatus⟩ := hstatus
  obtain ⟨directory, hd, -⟩ := h.currentDirectory.holds
  unfold System.prompt
  dsimp only
  rw [hsame.currentDirectory, hd]
  split
  · exact ⟨_, rfl, (((hsame.act _).act _).act _).act _,
      (((hstatus.partColor "user@based" 10).partColor ":" 11).part (.coloured 14 rfl)).partColor "$ " 11⟩
  · exact ⟨_, rfl, hsame.act _, hstatus.part (.printk ⟨rfl, by decide⟩)⟩

/-- One round of the loop of `start_shell`, without what its line editor prints. -/
def RecordShell.shellRound (K : DirDrivers D) (s : RecordShell D) (call : LineCall) :
    Except Stop (Bool × RecordShell D) := do
  let vars ← inside s.vars.prompt
  RecordShell.shellLine K { s with vars := vars.printk "\n" [] } call.line.bytes call.args

/-- The variables are changed, and not their arrays. -/
theorem RecordInv.vars {r : RecordShell D} (h : RecordInv r) {vars : System D} (hsame : SameArrays r.vars vars) :
    RecordInv { r with vars } := ⟨h.arrays.same hsame, h.records⟩

/-- Every call of `printk` takes the arguments it is given and no others, and reads its format up to the NUL and
no further, whatever lies behind it. -/
def FormatsRespected (acts : List Act) : Prop :=
  ∀ format args, Act.printk format args ∈ acts → ∀ behind, ∃ text,
    formatText (literal format).bytes (args.map Arg.va) = some text ∧
      Respects (inMemory (literal format) behind) (args.map Arg.va) (literal format).bytes.length text

theorem formatsRespected_nil : FormatsRespected [] := fun _ _ h => absurd h List.not_mem_nil

theorem FormatsRespected.append (h : FormatsRespected acts) {acts' : List Act} (h' : FormatsRespected acts') :
    FormatsRespected (acts ++ acts') := fun format args hmem =>
  (List.mem_append.mp hmem).elim (h format args) (h' format args)

theorem FormatsRespected.cons (h : FormatsRespected acts) {act : Act}
    (hact : ∀ format args, act = .printk format args → FormatFits format args) : FormatsRespected (act :: acts) := by
  intro format args hmem
  rcases List.mem_cons.mp hmem with heq | hmem
  · exact (hact format args heq.symm).respects
  · exact h format args hmem

theorem formatsRespected_printk {format : String} {args : List Arg} (h : FormatFits format args) :
    FormatsRespected [.printk format args] :=
  formatsRespected_nil.cons (by rintro format args ⟨⟩; exact h)

theorem formatsRespected_coloured (colour : UInt8) {text : Arg} (h : text.kind = .string) :
    FormatsRespected (coloured colour text) := by
  refine .cons (.cons (.cons formatsRespected_nil (by simp)) ?_) (by simp)
  rintro format args ⟨⟩
  exact fits_string h

theorem LinePart.formatsRespected (h : LinePart acts) : FormatsRespected acts := by
  induction h with
  | nil => exact formatsRespected_nil
  | printk h => exact formatsRespected_printk h
  | coloured colour h => exact formatsRespected_coloured colour h
  | append _ _ ih ih' => exact ih.append ih'

theorem WholeLine.formatsRespected (h : WholeLine acts) : FormatsRespected acts := by
  induction h with
  | printk h _ => exact formatsRespected_printk h
  | text _ => exact formatsRespected_printk (fits_string rfl)
  | coloured colour _ => exact formatsRespected_coloured colour rfl
  | writestring _ => exact formatsRespected_nil.cons (by simp)
  | append h _ ih => exact h.formatsRespected.append ih

theorem Printout.formatsRespected (h : Printout acts) : FormatsRespected acts := by
  induction h with
  | nil => exact formatsRespected_nil
  | line h => exact h.formatsRespected
  | clear => exact formatsRespected_nil.cons (by simp)
  | tone _ _ => exact .cons (.cons (.cons formatsRespected_nil (by simp)) (by simp)) (by simp)
  | delay _ => exact formatsRespected_nil.cons (by simp)
  | reset => exact formatsRespected_nil.cons (by simp)
  | append _ _ ih ih' => exact ih.append ih'

end Basedos.Kernel
