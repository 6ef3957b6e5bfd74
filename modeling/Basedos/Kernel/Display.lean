import Basedos.Kernel.Colours
import Basedos.Kernel.Ports
import Basedos.Kernel.Printout

/-!
# The display

What the shell prints goes to the terminal (`Basedos.Kernel.Terminal`) and to the devices
(`Basedos.Lib.Devices`), which share the cursor.

## The model

An act is performed (`Display.perform`) by the functions of `kernel/terminal.c`, `kernel/io.c` and
`kernel/sound.c` it stands for: `printk` runs along its format, with whatever lies behind that in memory, and each
character it sends ends in `update_cursor`. What `inb` reads from the port of the speaker is arbitrary (`reads`).
An act cannot be performed if an argument of its format is missing, or the format is read beyond its NUL.

One round of the loop of `start_shell` is the prompt, the keys, and the line. What the line editor does at the keys is
any number of characters and of beeps, in any order (`Echo`). Where a command does not come back, what it has done by
then is performed as well (`stopped`).

## What is proved

* `linePart_leads`, `wholeLine_leads`, `printout_leads` — what a printout does to any display.
* `display_session` — **at every prompt** of a session, whatever the keys, the lines and the file systems: the cursor is
  at the start of a row of the screen, the hardware's cursor is in the same place, the characters are white, nothing
  but the screen has been written, and no tone is sounding that was not before. So it is after `exit`, and where a
  command halts the processor.
-/

namespace Basedos.Kernel

open Basedos.Lib Basedos.CLib Basedos.Fs

/-! ### The display -/

/-- The terminal and the devices. -/
structure Display where
  terminal : Terminal
  devices : Devices
  /-- What is still to be read from the port of the speaker. -/
  reads : ℕ → UInt8

namespace Display

/-- The terminal after a call that ends in `update_cursor`. -/
def moved (c : Display) (terminal : Terminal) : Display :=
  { c with terminal, devices := c.devices.outs (updateCursorWrites terminal.location) }

/-- `putchar`. -/
def putchar (c : Display) (ch : UInt8) : Display := c.moved (Kernel.putchar c.terminal ch)

/-- `terminal_writestring`. -/
def writestring (c : Display) (str : List UInt8) : Display := str.foldl putchar c

/-- `inb` at the port of the speaker, and the bytes then written. -/
def speak (c : Display) (writes : UInt8 → List (UInt16 × UInt8)) : Display :=
  { c with devices := c.devices.outs (writes (c.reads 0)), reads := fun n => c.reads (n + 1) }

/-- An act performed, with this behind each format in memory. -/
def perform (behind : String → List UInt8) (c : Display) : Act → Option Display
  | .printk format args =>
    let length := (literal format).bytes.length
    match Kernel.printk (inMemory (literal format) (behind format)) (args.map Arg.va) (length + 1) with
    | some t => if ∀ j ∈ t.reads, j ≤ length then some (c.writestring t.sent) else none
    | none => none
  | .writestring text => some (c.writestring (literal text).bytes)
  | .setcolor fg bg => some { c with terminal := terminalSetcolor c.terminal fg bg }
  | .clear => some (c.moved (terminalClear c.terminal))
  | .beep frequency => some (if frequency = 0 then c else c.speak (beepWrites frequency))
  | .delay _ => some c
  | .nosound => some (c.speak nosoundWrites)
  | .outb port value => some { c with devices := c.devices.outb port value }

/-- The cursor is on the screen and the hardware's is in the same place, nothing but the screen has been written,
`ink` is the attribute, and no tone sounds, or `noise` is true. -/
structure Ready (noise : Bool) (ink : UInt8) (c : Display) : Prop where
  shows : ∃ p, Shows c.terminal p
  cursor : c.devices.cursor = c.terminal.location
  location : c.terminal.location = UInt16.ofInt (c.terminal.cursorY * 80 + c.terminal.cursorX)
  ink : c.terminal.textAttribute = ink
  quiet : c.devices.sounding = true → noise = true

/-- At the start of a row. -/
structure AtRow (noise : Bool) (ink : UInt8) (c : Display) : Prop extends Ready noise ink c where
  row : c.terminal.cursorX = 0

variable {c : Display} {noise : Bool} {ink : UInt8}

/-! ### Characters -/

/-- After a newline the cursor is at the start of a row. -/
theorem cursorX_newline (t : Terminal) : (Kernel.putchar t 10).cursorX = 0 := by
  have hwrap : (t.place 10).wrap.cursorX = 0 := by
    unfold Terminal.wrap
    split
    · rfl
    · rfl
  show (t.place 10).wrap.scroll.cursorX = 0
  by_cases hy : 25 ≤ (t.place 10).wrap.cursorY
  · rw [(scroll_scrolled hy).cursorX, hwrap]
  · rw [scroll_of_lt (by omega), hwrap]

/-- **A character.** -/
theorem Ready.putchar (h : c.Ready noise ink) (ch : UInt8) : (c.putchar ch).Ready noise ink := by
  obtain ⟨p, hp⟩ := h.shows
  exact ⟨⟨_, hp.putchar ch⟩, cursor_updateCursor _ _, rfl, (textAttribute_putchar c.terminal ch).trans h.ink, h.quiet⟩

theorem Ready.writestring (h : c.Ready noise ink) (str : List UInt8) : (c.writestring str).Ready noise ink := by
  induction str generalizing c with
  | nil => exact h
  | cons ch str ih => exact ih (h.putchar ch)

/-- A string that ends a line. -/
theorem Ready.writeline (h : c.Ready noise ink) {str : List UInt8} (hline : EndsLine str) :
    (c.writestring str).AtRow noise ink := by
  obtain ⟨str', rfl⟩ := List.getLast?_eq_some_iff.mp hline
  refine ⟨h.writestring _, ?_⟩
  rw [Display.writestring, List.foldl_append]
  exact cursorX_newline _

/-! ### Acts -/

variable {behind : String → List UInt8}

/-- **A format that fits** can be printed. -/
theorem perform_printk (c : Display) {format : String} {args : List Arg} (h : FormatFits format args) :
    ∃ text, formatText (literal format).bytes (args.map Arg.va) = some text ∧
      c.perform behind (.printk format args) = some (c.writestring text) := by
  obtain ⟨text, htext, t, hloop, hsent, hreads⟩ := h.respects (behind format)
  refine ⟨text, htext, ?_⟩
  have hread : ∀ j ∈ t.reads, j ≤ (literal format).bytes.length := hreads
  unfold perform
  simp only [hloop _ (Nat.lt_succ_self _), if_pos hread, hsent]

theorem printk_leads {format : String} {args : List Arg} (h : FormatFits format args) :
    Leads (perform behind) (Ready noise ink) (Ready noise ink) [.printk format args] := by
  refine leads_cons (fun c hc => ?_) (leads_nil fun _ hc => hc)
  obtain ⟨text, -, hperform⟩ := perform_printk c h
  exact ⟨_, hperform, hc.writestring text⟩

theorem printkLine_leads {format : String} {args : List Arg} (h : FormatFits format args)
    (hline : EndsLine (literal format).bytes) :
    Leads (perform behind) (Ready noise ink) (AtRow noise ink) [.printk format args] := by
  refine leads_cons (fun c hc => ?_) (leads_nil fun _ hc => hc)
  obtain ⟨text, htext, hperform⟩ := perform_printk c h
  exact ⟨_, hperform, hc.writeline (formatText_endsLine htext hline)⟩

/-- The text of `"%s"` is its argument. -/
theorem formatText_string (text : String) :
    formatText (literal "%s").bytes [Arg.va (.text text)] = some (literal text).bytes := by
  have hformat : (literal "%s").bytes = [percent, 115] := rfl
  rw [hformat]
  exact congrArg some (List.append_nil _)

theorem textLine_leads {text : String} (hline : EndsLine (literal text).bytes) :
    Leads (perform behind) (Ready noise ink) (AtRow noise ink) [.printk "%s" [.text text]] := by
  refine leads_cons (fun c hc => ?_) (leads_nil fun _ hc => hc)
  obtain ⟨text', htext', hperform⟩ := perform_printk c (fits_string (Eq.refl (Arg.text text).kind))
  rw [List.map_singleton, formatText_string] at htext'
  cases htext'
  exact ⟨_, hperform, hc.writeline hline⟩

/-- The attribute is set. -/
theorem setcolor_ready (h : c.Ready noise ink) (fg bg : UInt8) :
    ∃ c', c.perform behind (.setcolor fg bg) = some c' ∧ c'.Ready noise (bg <<< 4 ||| fg &&& 0x0F) := by
  obtain ⟨p, hp⟩ := h.shows
  exact ⟨_, rfl, ⟨p, hp.step (.setcolor fg bg)⟩, h.cursor, h.location, rfl, h.quiet⟩

/-- **A coloured text** leaves white behind it, whatever the attribute before. -/
theorem coloured_leads (colour : UInt8) {text : Arg} (h : text.kind = .string) :
    Leads (perform behind) (Ready noise ink) (Ready noise 15) (coloured colour text) :=
  leads_cons (fun _ hc => setcolor_ready hc colour 0) ((printk_leads (fits_string h)).append
    (leads_cons (fun _ hc => setcolor_ready hc 15 0) (leads_nil fun _ hc => hc)))

/-- A coloured text that ends a line. -/
theorem colouredLine_leads (colour : UInt8) {text : String} (hline : EndsLine (literal text).bytes) :
    Leads (perform behind) (Ready noise ink) (AtRow noise 15) (coloured colour (.text text)) := by
  refine leads_cons (fun _ hc => setcolor_ready hc colour 0) ((textLine_leads hline).append
    (leads_cons (fun c hc => ?_) (leads_nil fun _ hc => hc)))
  have hset : ∃ c', c.perform behind (.setcolor 15 0) = some c' ∧ c'.Ready noise 15 := setcolor_ready hc.toReady 15 0
  obtain ⟨c', hc', hready⟩ := hset
  cases hc'
  exact ⟨_, rfl, hready, hc.row⟩

/-- Part of a line. -/
theorem linePart_leads {acts : List Act} (h : LinePart acts) :
    Leads (perform behind) (Ready noise 15) (Ready noise 15) acts := by
  induction h with
  | nil => exact leads_nil fun _ hc => hc
  | printk h => exact printk_leads h
  | coloured colour h => exact coloured_leads colour h
  | append _ _ ih ih' => exact ih.append ih'

/-- A whole line. -/
theorem wholeLine_leads {acts : List Act} (h : WholeLine acts) :
    Leads (perform behind) (Ready noise 15) (AtRow noise 15) acts := by
  induction h with
  | printk h hline => exact printkLine_leads h hline
  | text hline => exact textLine_leads hline
  | coloured colour hline => exact colouredLine_leads colour hline
  | writestring hline => exact leads_cons (fun c hc => ⟨_, rfl, hc.writeline hline⟩) (leads_nil fun _ hc => hc)
  | append h _ ih => exact (linePart_leads h).append ih

/-- The screen is cleared, whatever has been on it. -/
theorem clear_atRow (c : Display) (hwritten : ∀ i ∈ c.terminal.written, 0 ≤ i ∧ i < 2000)
    (hquiet : c.devices.sounding = true → noise = true) :
    (c.moved (terminalClear c.terminal)).AtRow noise c.terminal.textAttribute :=
  ⟨⟨⟨_, terminalInitialize_shows hwritten⟩, cursor_updateCursor _ _, rfl,
    textAttribute_terminalInitialize c.terminal, hquiet⟩, rfl⟩

theorem Ready.written (h : c.Ready noise ink) : ∀ i ∈ c.terminal.written, 0 ≤ i ∧ i < 2000 := by
  obtain ⟨p, hp⟩ := h.shows
  exact hp.showsFrom.written

/-- A tone is sounding. -/
theorem Ready.speak (h : c.Ready noise ink) {frequency : UInt32} (hf : frequency ≠ 0) :
    (c.speak (beepWrites frequency)).Ready true ink := by
  refine ⟨h.shows, ?_, h.location, h.ink, fun _ => rfl⟩
  have hcursor : (c.devices.outs (beepWrites frequency (c.reads 0))).cursor = c.devices.cursor := by
    rw [beepWrites, if_neg hf]
    rfl
  exact hcursor.trans h.cursor

/-- **A tone that is ended** leaves everything as it was, but that there is silence. -/
theorem tone_leads {frequency : UInt32} (hf : frequency ≠ 0) (milliseconds : Int32) (x : ℤ) :
    Leads (perform behind) (fun c => c.Ready noise ink ∧ c.terminal.cursorX = x)
      (fun c => c.Ready noise ink ∧ c.terminal.cursorX = x) [.beep frequency, .delay milliseconds, .nosound] := by
  have hbeep (c : Display) : c.perform behind (.beep frequency) = some (c.speak (beepWrites frequency)) :=
    congrArg some (if_neg hf)
  refine leads_cons (Q := fun c => c.Ready true ink ∧ c.terminal.cursorX = x)
    (fun c hc => ⟨_, hbeep c, hc.1.speak hf, hc.2⟩) ?_
  refine leads_cons (fun c hc => ⟨c, rfl, hc⟩) (leads_cons (fun c hc => ⟨_, rfl, ?_⟩) (leads_nil fun _ hc => hc))
  refine ⟨⟨hc.1.shows, hc.1.cursor, hc.1.location, hc.1.ink, fun hsounding => ?_⟩, hc.2⟩
  exact absurd (hsounding.symm.trans (sounding_nosound _ _)) nofun

/-- **A printout**, from the start of a row to the start of a row. -/
theorem printout_leads {acts : List Act} (h : Printout acts) :
    Leads (perform behind) (AtRow noise 15) (AtRow noise 15) acts := by
  induction h with
  | nil => exact leads_nil fun _ hc => hc
  | line h => exact (wholeLine_leads h).mono (fun _ hc => hc.toReady) fun _ hc => hc
  | clear =>
    refine leads_cons (fun c hc => ⟨_, rfl, ?_⟩) (leads_nil fun _ hc => hc)
    have hclear := clear_atRow c hc.toReady.written hc.quiet
    rwa [hc.ink] at hclear
  | tone hf milliseconds =>
    exact (tone_leads hf milliseconds 0).mono (fun _ hc => ⟨hc.toReady, hc.row⟩) fun _ hc => ⟨hc.1, hc.2⟩
  | delay _ => exact leads_cons (fun c hc => ⟨c, rfl, hc⟩) (leads_nil fun _ hc => hc)
  | reset =>
    refine leads_cons (fun c hc => ⟨_, rfl, ?_⟩) (leads_nil fun _ hc => hc)
    exact ⟨⟨hc.shows, hc.cursor, hc.location, hc.ink, hc.quiet⟩, hc.row⟩
  | append _ _ ih ih' => exact ih.append ih'

/-! ### Sessions -/

end Display

/-- What the line editor does at a key: characters printed, or the beep of a full line. -/
inductive Echo where
  | chars (str : List UInt8)
  | full

/-- A round of the loop of `start_shell`: the keys, and the line there is at the end. -/
structure Round where
  keys : List Echo
  call : LineCall

/-- Why a session does not go on. -/
inductive Failure where
  /-- A command has not come back, and this is the display then. -/
  | stop (e : Stop) (c : Display)
  /-- What has been done is not known, or it cannot be performed. -/
  | astray

/-- What has been performed. -/
def performed {α : Type} : Option α → Except Failure α
  | some a => .ok a
  | none => .error .astray

variable (behind : String → List UInt8)

/-- What the line editor does. -/
def Display.echo (c : Display) : Echo → Option Display
  | .chars str => some (c.writestring str)
  | .full => [.beep 1000, .delay 100, .nosound].foldlM (Display.perform behind) c

/-- What had been done by the time of a stop is performed. -/
def stopped {α : Type} (c : Display) : Except Stop α → Except Failure α
  | .ok a => .ok a
  | .error e =>
    match e.acts.bind fun acts => acts.foldlM (Display.perform behind) c with
    | some c => .error (.stop e c)
    | none => .error .astray

section

variable {D : Type} (K : DirDrivers D)

/-- The acts of a shell performed, and no longer kept. -/
def performActs (s : RecordShell D) (c : Display) : Except Failure (RecordShell D × Display) := do
  let c ← performed (s.vars.acts.foldlM (Display.perform behind) c)
  .ok ({ s with vars := { s.vars with acts := [] } }, c)

-- Irreducible, or else to elaborate what is said of a session is to make the aliases it starts with.
/-- `start_shell` before its loop. -/
@[irreducible] def sessionStart (s : System D) (c : Display) : Except Failure (RecordShell D × Display) := do
  let s ← stopped behind c (inside (RecordShell.start s))
  performActs behind s c

/-- A round of its loop: is the loop left? -/
def sessionRound (x : RecordShell D × Display) (r : Round) : Except Failure (Bool × RecordShell D × Display) := do
  let vars ← stopped behind x.2 (inside x.1.vars.prompt)
  let (s, c) ← performActs behind { x.1 with vars } x.2
  let c ← performed (r.keys.foldlM (Display.echo behind) c)
  let (left, s) ← stopped behind c
    (RecordShell.shellLine K { s with vars := s.vars.printk "\n" [] } r.call.line.bytes r.call.args)
  let x ← performActs behind s c
  .ok (left, x)

/-- `terminal_initialize`, `start_shell`, and as many rounds of its loop as there are, up to the one that leaves it. -/
def session (s : System D) (c : Display) (rounds : List Round) :
    Except Failure (Bool × RecordShell D × Display) := do
  let x ← sessionStart behind (s.act [.clear]) c
  rounds.foldlM (unlessLeft (sessionRound behind K)) (false, x)

end

namespace Display

/-- **At a prompt** of a session that began on `c₀`. -/
structure AtPrompt (c₀ c : Display) : Prop where
  column : c.terminal.cursorX = 0
  row : 0 ≤ c.terminal.cursorY ∧ c.terminal.cursorY < 25
  hardware : (c.devices.cursor.toNat : ℤ) = c.terminal.cursorY * 80
  white : c.terminal.textAttribute = 15
  written : ∀ i ∈ c.terminal.written, 0 ≤ i ∧ i ≤ 1999
  quiet : c.devices.sounding = true → c₀.devices.sounding = true

theorem AtRow.atPrompt (c₀ : Display) {c : Display} (h : c.AtRow c₀.devices.sounding 15) : AtPrompt c₀ c := by
  obtain ⟨p, hp⟩ := h.shows
  have hshows := hp.showsFrom
  have hy := hshows.cursorY
  have htop : p.top = p.row - 24 := rfl
  have hrow : 0 ≤ c.terminal.cursorY ∧ c.terminal.cursorY < 25 := by omega
  have hpos : (UInt16.ofInt (c.terminal.cursorY * 80)).toNat = (c.terminal.cursorY * 80 % 2 ^ 16).toNat % 2 ^ 16 :=
    UInt16.toNat_ofNat'
  refine ⟨h.row, hrow, ?_, h.ink, fun i hi => ?_, h.quiet⟩
  · rw [h.cursor, h.location, h.row, add_zero, hpos]
    omega
  · have := hshows.written i hi
    omega

/-- Characters and beeps, wherever the cursor is. -/
theorem echo_leads {c : Display} {noise : Bool} (h : c.Ready noise 15) (keys : List Echo) :
    ∃ c', keys.foldlM (echo behind) c = some c' ∧ c'.Ready noise 15 := by
  refine foldlM_inv (I := fun c : Display => c.Ready noise 15) (fun c key _ hc => ?_) h
  cases key with
  | chars str => exact ⟨_, rfl, hc.writestring str⟩
  | full =>
    obtain ⟨c', hc', hready, -⟩ := tone_leads (show (1000 : UInt32) ≠ 0 by decide) 100 c.terminal.cursorX c ⟨hc, rfl⟩
    exact ⟨c', hc', hready⟩

end Display

variable {D : Type} {K : DirDrivers D}

/-- What a shell has done is performed. -/
theorem performActs_eq {s : RecordShell D} {c : Display} {P Q : Display → Prop} (hc : P c)
    (h : Leads (Display.perform behind) P Q s.vars.acts) :
    ∃ c', performActs behind s c = .ok ({ s with vars := { s.vars with acts := [] } }, c') ∧ Q c' := by
  obtain ⟨c', hc', hq⟩ := h c hc
  unfold performActs
  rw [hc']
  exact ⟨c', rfl, hq⟩

/-- A stop, with the display at the start of a row. -/
def StopsAtRow (noise : Bool) (f : Failure) : Prop := ∃ e c, f = .stop e c ∧ c.AtRow noise 15

/-- What is performed at a stop. -/
theorem settles_stopped {α : Type} {P : α → Prop} {noise : Bool} {s : System D} {c : Display} {r : Except Stop α}
    (h : Settles P (HaltsWith Printout s) r) (hc : c.Ready noise 15)
    (hacts : Leads (Display.perform behind) (Display.Ready noise 15) (Display.AtRow noise 15) s.acts) :
    Settles P (StopsAtRow noise) (stopped behind c r) := by
  cases r with
  | ok a => exact h
  | error e =>
    obtain ⟨acts, heq, hprintout⟩ := h
    obtain ⟨c', hc', hrow⟩ := hacts.append (Display.printout_leads hprintout) c hc
    simp only [stopped, heq, Option.bind_some, hc']
    exact ⟨e, c', rfl, hrow⟩

/-- What is kept from one prompt to the next: nothing is left to be performed. -/
structure SessionInv (noise : Bool) (x : RecordShell D × Display) : Prop where
  shell : RecordInv x.1
  acts : x.1.vars.acts = []
  display : x.2.AtRow noise 15

/-- The first line of the banner is white on any display when it is done. -/
theorem sessionStart_inv {s : System D} (h : ShellArrays s []) (hcolor : s.colorEnabled = true) (hacts : s.acts = [])
    (c : Display) (hwritten : c.terminal.written = []) :
    ∃ x, sessionStart behind (s.act [.clear]) c = .ok x ∧ SessionInv c.devices.sounding x := by
  have htop : (s.act [.clear]).printInfo bannerTop = (s.act [.clear]).act (coloured 11 (.text bannerTop)) := by
    rw [System.printInfo, System.printColor]
    exact congrArg (System.act _) (if_pos hcolor)
  obtain ⟨r, hstart, hinv⟩ := RecordShell.start_inv (h.same ((SameArrays.refl s).act [.clear]))
  obtain ⟨acts, heq, hprintout⟩ := RecordShell.start_afterTop hstart
  rw [htop, System.act, System.act, hacts] at heq
  have hleads : Leads (Display.perform behind) (fun c' => c' = c) (fun c' => c'.AtRow c.devices.sounding 15)
      r.vars.acts := by
    rw [heq]
    have hclear (c' : Display) (hc' : c' = c) : ∃ c'', c'.perform behind .clear = some c'' ∧
        c''.Ready c.devices.sounding c.terminal.textAttribute := by
      subst hc'
      refine ⟨_, rfl, (Display.clear_atRow c' ?_ id).toReady⟩
      rw [hwritten]
      exact fun i hi => absurd hi List.not_mem_nil
    exact (leads_cons hclear (Display.colouredLine_leads 11 (by rfl))).append
      (Display.printout_leads hprintout)
  obtain ⟨c', hperform, hrow⟩ := performActs_eq behind (P := fun c' => c' = c) rfl hleads
  unfold sessionStart
  rw [hstart]
  exact ⟨_, hperform, hinv.vars ⟨rfl, rfl, rfl, rfl, rfl⟩, rfl, hrow⟩

/-- **A round**, from one prompt to the next. -/
theorem sessionRound_inv {x : RecordShell D × Display} {noise : Bool} (h : SessionInv noise x) (r : Round) :
    Settles (fun y => SessionInv noise y.2) (StopsAtRow noise) (sessionRound behind K x r) := by
  obtain ⟨vars, hprompt, hsame, acts, heq, hparts⟩ := prompt_linePart h.shell.arrays
  rw [h.acts, List.nil_append] at heq
  rw [← heq] at hparts
  obtain ⟨c, hperform, hready⟩ := performActs_eq behind (s := { x.1 with vars }) h.display.toReady
    (Display.linePart_leads hparts)
  obtain ⟨c', hkeys, hc'⟩ := Display.echo_leads behind hready r.keys
  have hend : Leads (Display.perform behind) (Display.Ready noise 15) (Display.AtRow noise 15) [.printk "\n" []] :=
    Display.wholeLine_leads (wholeLine_printk rfl)
  have hinv : RecordInv (⟨{ vars with acts := [] }.printk "\n" [], x.1.records⟩ : RecordShell D) :=
    h.shell.vars (hsame.trans ⟨rfl, rfl, rfl, rfl, rfl⟩)
  unfold sessionRound
  rw [hprompt]
  show Settles _ _ (performActs behind { x.1 with vars } x.2 >>= _)
  rw [hperform]
  show Settles _ _ (performed (r.keys.foldlM (Display.echo behind) c) >>= _)
  rw [hkeys]
  refine (settles_stopped behind (RecordShell.shellLine_printout (K := K) hinv r.call) hc' hend).bind ?_
  rintro ⟨left, s⟩ ⟨⟨acts', heq', hprintout⟩, hs⟩
  have hleads : Leads (Display.perform behind) (Display.Ready noise 15) (Display.AtRow noise 15) s.vars.acts := by
    rw [heq']
    exact hend.append (Display.printout_leads hprintout)
  obtain ⟨c'', hperform', hrow⟩ := performActs_eq behind hc' hleads
  show Settles _ _ (performActs behind s c' >>= _)
  rw [hperform']
  exact ⟨hs.vars ⟨rfl, rfl, rfl, rfl, rfl⟩, rfl, hrow⟩

/-- **Any rounds.** -/
theorem session_inv {s : System D} (h : ShellArrays s []) (hcolor : s.colorEnabled = true) (hacts : s.acts = [])
    (c : Display) (hwritten : c.terminal.written = []) (rounds : List Round) :
    Settles (fun x => SessionInv c.devices.sounding x.2) (StopsAtRow c.devices.sounding)
      (session behind K s c rounds) := by
  obtain ⟨x, hstart, hx⟩ := sessionStart_inv behind h hcolor hacts c hwritten
  unfold session
  rw [hstart]
  refine Settles.bind (P := SessionInv c.devices.sounding) hx fun x hx => ?_
  exact settles_foldlM_unlessLeft (I := SessionInv c.devices.sounding) (fun _ hx r => sessionRound_inv behind hx r)
    rounds hx

/-- **At every prompt**, after `exit`, and where a command does not come back: whatever is on the screen at first, what
the keys print, the lines, what the file systems do, what is read from the speaker's port and what lies behind the
formats in memory. -/
theorem display_session (behind : String → List UInt8) (K : DirDrivers D) (vfs : Vfs D)
    (totalMemory freeMemory uptimeSeconds : UInt32) (stack : Mem) (terminal : Terminal) (devices : Devices)
    (reads : ℕ → UInt8) (rounds : List Round) :
    let c : Display := ⟨{ terminal with written := [] }, devices, reads⟩
    Settles (fun x => Display.AtPrompt c x.2.2) (fun f => ∃ e c', f = .stop e c' ∧ Display.AtPrompt c c')
      (session behind K (System.initial vfs totalMemory freeMemory uptimeSeconds stack) c rounds) := by
  intro c
  have harrays := (initial_inv vfs totalMemory freeMemory uptimeSeconds stack).toShellArrays
  generalize hs : System.initial vfs totalMemory freeMemory uptimeSeconds stack = s at harrays
  have hcolor : s.colorEnabled = true := by rw [← hs]; rfl
  have hacts : s.acts = [] := by rw [← hs]; rfl
  have hrun := session_inv behind (K := K) harrays hcolor hacts c rfl rounds
  refine hrun.mono (fun x hx => hx.display.atPrompt c) ?_
  rintro f ⟨e, c', rfl, hrow⟩
  exact ⟨e, c', rfl, hrow.atPrompt c⟩

end Basedos.Kernel
