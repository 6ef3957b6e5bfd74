import Basedos.Kernel.DescriptorTable
import Basedos.Kernel.Ports
import Basedos.Kernel.SelfTest
import Basedos.Kernel.ShellRefinement
import Basedos.Kernel.Tasks

/-!
# From the loader to the shell

`kmain` of `kernel/kernel.c` up to the loop of `start_shell`, and what may happen to the kernel from then on.

## The model

The parts modelled by themselves are put together: the devices, the table of interrupts, the scheduler, and the
shell with its file systems (`Machine`). There is one heap, which is kept with the file systems and lent to the
scheduler; so is `uptime_seconds`. The loader clears the interrupt flag, and what is in the memory that has no
initial value, and in the register of the table of interrupts, is arbitrary.

An interrupt is taken when its flag is set, the controllers deliver its line, and the table has an entry for
the vector (`interrupt`); what a handler does is known by its address. From the loop of the shell on (`KernelEvent`),
lines are executed, the ports are written to in any order, interrupts are asked for, and the flag is set or cleared
by `enable_interrupts` and `disable_interrupts`. After the line `exit` `start_shell` returns, and `kmain` halts the
processor for ever: interrupts are still taken, and no line is read (`Machine.returned`).

## What is proved

* `kmain_running` — **the kernel starts**, and with it the plain shell (`Basedos.Kernel.PlainShell`).
* `kernel_run` — **from then on**, in any order of events, its shell does what the plain shell does with the lines
  alone, and returns when that does; the file systems and the tasks stay as they are, and no interrupt is taken but
  the keyboard's, that one only if `enable_interrupts` is called.
* `kernel_stillReads` — exactly when it still reads lines.
-/

namespace Basedos.Kernel

open Basedos.Lib Basedos.CLib Basedos.Fs

/-! ### The kernel -/

/-- Where things are. -/
structure Layout where
  /-- `idt`. -/
  idt : UInt32
  /-- `idtp`. -/
  idtp : UInt32
  /-- `keyboard_handler`. -/
  keyboardHandler : UInt32
  /-- `timer_callback`. -/
  timerCallback : UInt32
  placed : Placed idt idtp
  differ : keyboardHandler ≠ timerCallback

/-- The kernel and its devices. -/
structure Machine where
  devices : Devices
  /-- The memory that `idt` and `idtp` lie in. -/
  table : Mem
  /-- Where the processor looks for its table. -/
  idtr : Idtr
  /-- The interrupt flag of the processor. -/
  interruptFlag : Bool
  scheduler : Scheduler
  /-- `kernel_status.memory_manager_ready`. -/
  memoryManagerReady : Bool
  /-- `kernel_status.interrupts_enabled`. -/
  interruptsEnabled : Bool
  /-- The shell, the file systems and the rest of `kernel_status`. -/
  shell : RecordShell Memfs
  /-- `start_shell` has returned. -/
  returned : Bool

/-- The kernel as the loader leaves it: static variables are zero, and the rest is arbitrary. -/
def Machine.loaded (devices : Devices) (table mem : Mem) (idtr : Idtr) (task : UInt32 → Task) (data : Memfs)
    (stack : Mem) : Machine where
  devices := devices
  table := table
  idtr := idtr
  interruptFlag := false
  scheduler := .initial ⟨mem, 0, 0, 0⟩ task
  memoryManagerReady := false
  interruptsEnabled := false
  shell := ⟨.initial ⟨⟨⟨mem, 0, 0, 0⟩, data⟩, none, fun _ => .free, []⟩ 0 0 0 stack, []⟩
  returned := false

namespace Machine

/-- The variables of the shell, and what they hold of the kernel. -/
def system (m : Machine) : System Memfs := m.shell.vars

def setSystem (m : Machine) (s : System Memfs) : Machine := { m with shell := { m.shell with vars := s } }

/-- The scheduler, with the heap and the count of seconds that are not its own. -/
def tasks (m : Machine) : Scheduler :=
  { m.scheduler with heap := m.system.vfs.world.heap, uptimeSeconds := m.system.uptimeSeconds }

/-- A function of the scheduler. -/
def schedule (m : Machine) (f : Scheduler → Scheduler) : Machine :=
  let s := f m.tasks
  { m with scheduler := s }.setSystem
    ({ m.system with uptimeSeconds := s.uptimeSeconds }.setWorld { m.system.vfs.world with heap := s.heap })

/-- `detect_memory`. -/
def detectMemory : UInt32 := 64 * 1024 * 1024

/-- `init_memory_manager`. -/
def initMemoryManager (m : Machine) : Machine :=
  { m with memoryManagerReady := true }.setSystem
    { m.system with totalMemory := detectMemory, freeMemory := detectMemory - 0x100000 }

/-- `init_enhanced_interrupts`. -/
def initEnhancedInterrupts (l : Layout) (m : Machine) : Machine :=
  let r := initInterrupts m.table l.idt l.idtp l.keyboardHandler
  { m with
    table := registerInterruptHandler r.1 l.idt 0x20 l.timerCallback
    idtr := r.2
    devices := initDevices m.devices
    interruptsEnabled := true }

/-- `get_uptime`. -/
def getUptime (m : Machine) : UInt32 := m.system.uptimeSeconds

/-- `get_memory_stats`. -/
def getMemoryStats (m : Machine) : UInt32 × UInt32 := (m.system.totalMemory, m.system.freeMemory)

/-- `is_subsystem_ready`. -/
def isSubsystemReady (m : Machine) (subsystem : List UInt8) : Bool :=
  if strcmp subsystem (ascii ['i', 'n', 't', 'e', 'r', 'r', 'u', 'p', 't', 's']) = 0 then m.interruptsEnabled
  else if strcmp subsystem (ascii ['s', 'c', 'h', 'e', 'd', 'u', 'l', 'e', 'r']) = 0 then m.scheduler.schedulerActive
  else if strcmp subsystem (ascii ['m', 'e', 'm', 'o', 'r', 'y']) = 0 then m.memoryManagerReady
  else false

end Machine

/-- The names of the parts that may be ready. -/
def subsystems : List (List UInt8) :=
  [ascii ['i', 'n', 't', 'e', 'r', 'r', 'u', 'p', 't', 's'], ascii ['s', 'c', 'h', 'e', 'd', 'u', 'l', 'e', 'r'],
   ascii ['m', 'e', 'm', 'o', 'r', 'y']]

/-- `kmain`, up to the loop of `start_shell`. -/
def kmain (l : Layout) (m : Machine) : Except Stop Machine := do
  let m := m.setSystem (m.system.act [.clear])
  let m := (m.initMemoryManager.initEnhancedInterrupts l).schedule initScheduler
  let (mounted, s) := m.system.mountRoot memfsDirDrivers
  let s := if mounted ≠ 0 then s.printk "Failed to mount root filesystem!\n" [] else s
  let s ← fsTest memfsDirDrivers (s.printk "BasedOS Kernel v0.1\n" [])
  let shell ← inside (RecordShell.start s)
  .ok { m with shell }

/-! ### What happens to it -/

/-- An interrupt asked for on a line of the first controller: the vector taken, if one is. -/
def interrupt (l : Layout) (m : Machine) (line : Fin 8) : Option UInt8 × Machine :=
  match (if m.interruptFlag then m.devices.delivers line else none) with
  | none => (none, m)
  | some vector =>
    match gateAt m.table m.idtr vector with
    | none => (none, m)
    | some gate =>
      if gate.offset = l.timerCallback then (some vector, m.schedule timerCallback)
      else if gate.offset = l.keyboardHandler then (some vector, { m with devices := m.devices.outs endOfInterrupt })
      else (some vector, m)

/-- What may happen. -/
inductive KernelEvent where
  /-- A line is entered. -/
  | line (call : LineCall)
  /-- The ports are written to. -/
  | ports (call : PortCall)
  /-- An interrupt is asked for. -/
  | irq (line : Fin 8)
  /-- `enable_interrupts`. -/
  | enableInterrupts
  /-- `disable_interrupts`. -/
  | disableInterrupts

/-- One event, as long as every line has come back; an interrupt gives the vector taken. Where the shell has returned
no line is read. -/
def machineStep (l : Layout) (m : Except Stop Machine) (event : KernelEvent) : Option UInt8 × Except Stop Machine :=
  match m with
  | .error e => (none, .error e)
  | .ok m =>
    match event with
    | .line call =>
      if m.returned then (none, .ok m)
      else (none, do
        let (returned, shell) ← m.shell.shellLine memfsDirDrivers call.line.bytes call.args
        .ok { m with shell, returned })
    | .ports call => (none, .ok { m with devices := (portStep m.devices call).2 })
    | .irq line => let r := interrupt l m line; (r.1, .ok r.2)
    | .enableInterrupts => (none, .ok { m with interruptFlag := true })
    | .disableInterrupts => (none, .ok { m with interruptFlag := false })

/-! ### The start -/

/-- What has been printed before the shell starts. -/
def bootActs : List Act :=
  [.clear, .printk "BasedOS Kernel v0.1\n" [], .printk "=== Starting File System Test ===\n" [],
   .printk "Mounted memory filesystem at /\n" [], .printk "Creating test file...\n" [],
   .printk "Failed to create test file\n" []]

/-- The plain shell the kernel starts. -/
def PlainShell.booted : PlainShell :=
  PlainShell.start
    { PlainShell.initial Machine.detectMemory (Machine.detectMemory - 0x100000) 0 with acts := bootActs }

/-- The shell starts with a tidy table. -/
theorem booted_tidy : Tidy PlainShell.booted := ⟨by decide, by decide +kernel⟩

/-- What the kernel knows, which no line changes. -/
structure Knows (a : PlainShell) : Prop where
  uptimeSeconds : a.uptimeSeconds = 0
  totalMemory : a.totalMemory = Machine.detectMemory
  freeMemory : a.freeMemory = Machine.detectMemory - 0x100000

theorem booted_knows : Knows PlainShell.booted := ⟨rfl, rfl, rfl⟩

/-- The entries of the table. -/
def entries (l : Layout) (n : UInt8) : Option Gate :=
  if n = 0x20 then some (.kernel l.timerCallback) else if n = 0x21 then some (.kernel l.keyboardHandler) else none

/-- What is true of the kernel from the loop of the shell on: the controllers and the table of interrupts are set up,
the tasks and the file systems are these, and the shell is that one. -/
structure Running (l : Layout) (files : Vfs Memfs) (tasks : Scheduler) (m : Machine) (a : PlainShell) : Prop where
  devices : Initialised m.devices
  gate : gateAt m.table m.idtr = entries l
  tasks : m.tasks = tasks
  ready : m.interruptsEnabled = true ∧ m.memoryManagerReady = true
  shell : RecordRepresents files m.shell a
  knows : Knows a

/-- The entries, from a table of zeros. -/
theorem entries_registered (l : Layout) {table : Mem} (hzero : table.bytes l.idt 2048 = List.replicate 2048 0) :
    let r := initInterrupts table l.idt l.idtp l.keyboardHandler
    gateAt (registerInterruptHandler r.1 l.idt 0x20 l.timerCallback) r.2 = entries l := by
  intro r
  have hregister : r.2 = ⟨idtLimit, l.idt⟩ := lidt_initInterrupts l.placed table l.keyboardHandler
  rw [hregister, registerInterruptHandler, gateAt_setGate l.placed.table, gateAt_initInterrupts l.placed]
  funext n
  unfold entries
  split_ifs with htimer hkey
  · rw [htimer, Function.update_self]
  · rw [Function.update_of_ne htimer, hkey, Function.update_self]
  · rw [Function.update_of_ne htimer, Function.update_of_ne hkey, gateAt_zero hzero]

/-- The main task stays alone in the ring while others take blocks of the heap. -/
theorem TaskRing.grown {s : Scheduler} {ring : List UInt32} (h : TaskRing s ring) {heap : Heap} (hok : heap.Ok)
    (hle : s.heap.heapPos.toNat ≤ heap.heapPos.toNat) (uptimeSeconds : UInt32) :
    TaskRing { s with heap := heap, uptimeSeconds := uptimeSeconds } ring :=
  { h with
    ok := hok
    below := fun p hp => Nat.lt_of_lt_of_le (h.below p hp) hle
    room := Nat.le_trans h.room hle }

/-- **The start of the scheduler**, on the heap as the kernel is loaded. -/
theorem initScheduler_loaded (mem : Mem) (task : UInt32 → Task) :
    TaskRing (initScheduler (.initial ⟨mem, 0, 0, 0⟩ task)) [0] ∧
      (initScheduler (.initial ⟨mem, 0, 0, 0⟩ task)).heap = ⟨mem, 20, 0, 0⟩ ∧
      (initScheduler (.initial ⟨mem, 0, 0, 0⟩ task)).uptimeSeconds = 0 := by
  have hok : (⟨mem, 0, 0, 0⟩ : Heap).Ok := ⟨show (0 : UInt32).toNat % 4 = 0 by decide, Nat.zero_le 0x10000⟩
  exact ⟨(initScheduler_ring hok rfl).1, rfl, rfl⟩

/-- `kmain` before it mounts the root. -/
def Machine.setUp (l : Layout) (m : Machine) : Machine :=
  ((m.setSystem (m.system.act [.clear])).initMemoryManager.initEnhancedInterrupts l).schedule initScheduler

/-- What is left to do then. -/
theorem kmain_eq (l : Layout) (m : Machine) : kmain l m = (do
    let (mounted, s) := (m.setUp l).system.mountRoot memfsDirDrivers
    let s := if mounted ≠ 0 then s.printk "Failed to mount root filesystem!\n" [] else s
    let s ← fsTest memfsDirDrivers (s.printk "BasedOS Kernel v0.1\n" [])
    let shell ← inside (RecordShell.start s)
    .ok { m.setUp l with shell }) := rfl

/-- The file systems as the kernel is loaded, when the scheduler has its task. -/
def loadedFiles (mem : Mem) (data : Memfs) : Vfs Memfs := ⟨⟨⟨mem, 20, 0, 0⟩, data⟩, none, fun _ => .free, []⟩

/-- What is set up. -/
structure IsSetUp (l : Layout) (mem : Mem) (task : UInt32 → Task) (data : Memfs) (stack : Mem) (m : Machine) :
    Prop where
  devices : Initialised m.devices
  gate : gateAt m.table m.idtr = entries l
  ready : m.interruptsEnabled = true ∧ m.memoryManagerReady = true
  scheduler : m.scheduler = initScheduler (.initial ⟨mem, 0, 0, 0⟩ task)
  system : m.system = (System.initial (loadedFiles mem data) Machine.detectMemory (Machine.detectMemory - 0x100000) 0
    stack).act [.clear]
  interruptFlag : m.interruptFlag = false
  returned : m.returned = false

theorem setUp_loaded (l : Layout) (devices : Devices) {table : Mem}
    (hzero : table.bytes l.idt 2048 = List.replicate 2048 0) (mem : Mem) (idtr : Idtr) (task : UInt32 → Task)
    (data : Memfs) (stack : Mem) :
    IsSetUp l mem task data stack ((Machine.loaded devices table mem idtr task data stack).setUp l) where
  devices := initDevices_initialised devices
  gate := entries_registered l hzero
  ready := ⟨rfl, rfl⟩
  scheduler := rfl
  system := rfl
  interruptFlag := rfl
  returned := rfl

/-- The roots of `kmain` and of its test after it, and the shell. -/
theorem IsSetUp.kmain {l : Layout} {mem : Mem} {task : UInt32 → Task} {data : Memfs} {stack : Mem} {m : Machine}
    (h : IsSetUp l mem task data stack (m.setUp l)) :
    ∃ files shell, kmain l m = .ok { m.setUp l with shell } ∧ RecordRepresents files shell PlainShell.booted ∧
      files.world.heap.Ok ∧ files.world.heap.heapPos.toNat = 5108 := by
  have hok : (⟨mem, 20, 0, 0⟩ : Heap).Ok :=
    ⟨show (20 : UInt32).toNat % 4 = 0 by decide, show (20 : UInt32).toNat ≤ 0x10000 by decide⟩
  have hpos : (20 : UInt32).toNat = 20 := rfl
  obtain ⟨files₁, p₁, hmount, -, hok₁, hpos₁⟩ := initialise_bareRoot (s := loadedFiles mem data) hok
    (show (20 : UInt32).toNat + 2544 ≤ 0x10000 by omega) memdisk rootPath rfl
  change files₁.world.heap.heapPos.toNat = (20 : UInt32).toNat + 2544 at hpos₁
  obtain ⟨files, p, htest, hbare, hok₂, hpos₂⟩ := fsTest_bareRoot
    (s := ((m.setUp l).system.setVfs files₁).printk "BasedOS Kernel v0.1\n" []) hok₁
    (show files₁.world.heap.heapPos.toNat + 2544 ≤ 0x10000 by omega)
  change files.world.heap.heapPos.toNat = files₁.world.heap.heapPos.toNat + 2544 at hpos₂
  have hmounted : vfsMount memfsDrivers (memfsInitialize (vfsInitialize (m.setUp l).system.vfs)) memdisk rootPath
      memfsName = (0, files₁) := by
    rw [h.system]
    exact hmount
  have hinitial : Represents files
      ((System.initial files Machine.detectMemory (Machine.detectMemory - 0x100000) 0 stack).act bootActs)
      { PlainShell.initial Machine.detectMemory (Machine.detectMemory - 0x100000) 0 with acts := bootActs } :=
    (initial_represents hbare _ _ 0 stack).act bootActs
  obtain ⟨shell, hstart, hrep⟩ := start_represents hinitial rfl
  refine ⟨files, shell, ?_, hrep, hok₂, by omega⟩
  have hfine : ¬ ((0 : Int32) ≠ 0) := not_not.mpr rfl
  have htested : fsTest memfsDirDrivers (((m.setUp l).system.setVfs files₁).printk "BasedOS Kernel v0.1\n" []) =
      .ok ((System.initial files Machine.detectMemory (Machine.detectMemory - 0x100000) 0 stack).act bootActs) := by
    rw [htest, h.system]
    rfl
  rw [kmain_eq]
  simp only [mountRoot_of hmounted, if_neg hfine, htested, bind, Except.bind, hstart, inside]

/-- **The kernel starts**: whatever the memory holds, `kmain` comes to the loop of the shell. -/
theorem kmain_running (l : Layout) (devices : Devices) {table : Mem}
    (hzero : table.bytes l.idt 2048 = List.replicate 2048 0) (mem : Mem) (idtr : Idtr) (task : UInt32 → Task)
    (data : Memfs) (stack : Mem) :
    ∃ files tasks m, kmain l (.loaded devices table mem idtr task data stack) = .ok m ∧
      Running l files tasks m PlainShell.booted ∧ m.interruptFlag = false ∧ m.returned = false ∧
      TaskRing tasks [0] ∧ tasks.heap.heapPos.toNat = 5108 := by
  have h := setUp_loaded l devices hzero mem idtr task data stack
  generalize Machine.loaded devices table mem idtr task data stack = m at h
  obtain ⟨files, shell, hkernel, hrep, hok, hpos⟩ := h.kmain
  obtain ⟨hring, hheap, -⟩ := initScheduler_loaded mem task
  have htasks : ({ m.setUp l with shell } : Machine).tasks =
      { initScheduler (.initial ⟨mem, 0, 0, 0⟩ task) with heap := files.world.heap, uptimeSeconds := 0 } := by
    simp only [Machine.tasks, Machine.system, h.scheduler, hrep.vars.vfs, hrep.vars.uptimeSeconds,
      booted_knows.uptimeSeconds]
  have hle : (initScheduler (.initial ⟨mem, 0, 0, 0⟩ task)).heap.heapPos.toNat ≤ files.world.heap.heapPos.toNat := by
    rw [hheap, hpos]
    show (20 : UInt32).toNat ≤ 5108
    decide
  exact ⟨files, _, { m.setUp l with shell }, hkernel, ⟨h.devices, h.gate, htasks, h.ready, hrep, booted_knows⟩,
    h.interruptFlag, h.returned, hring.grown hok hle 0, hpos⟩

/-! ### From then on -/

section Events

variable {l : Layout} {files : Vfs Memfs} {tasks : Scheduler} {m : Machine} {a : PlainShell}

/-- The line that is entered. -/
def KernelEvent.line? : KernelEvent → Option Line
  | .line call => some call.line
  | _ => none

/-- The lines that are entered. -/
def linesOf (events : List KernelEvent) : List Line := events.filterMap KernelEvent.line?

/-- The kernel runs, and its shell has returned if that of the other has. -/
def RunningAs (l : Layout) (files : Vfs Memfs) (tasks : Scheduler) (m : Machine) (x : Bool × PlainShell) : Prop :=
  Running l files tasks m x.2 ∧ m.returned = x.1

/-- **An interrupt**: none but the keyboard's is taken, and that only when the flag is set. -/
theorem Running.interrupt (h : Running l files tasks m a) (line : Fin 8) :
    Running l files tasks (interrupt l m line).2 a ∧ (Kernel.interrupt l m line).2.returned = m.returned ∧
      ∀ vector, (Kernel.interrupt l m line).1 = some vector → vector = 0x21 ∧ m.interruptFlag = true := by
  have hkeyboard : entries l 0x21 = some (.kernel l.keyboardHandler) := rfl
  have htimer : ¬ (Gate.kernel l.keyboardHandler).offset = l.timerCallback := l.differ
  have hself : (Gate.kernel l.keyboardHandler).offset = l.keyboardHandler := rfl
  unfold Kernel.interrupt
  rw [h.devices.delivers]
  by_cases hflag : m.interruptFlag = true
  · by_cases hline : line = 1
    · simp only [hflag, hline, if_true, h.gate, hkeyboard]
      rw [if_neg htimer, if_pos hself]
      refine ⟨{ h with devices := h.devices.outs (writes_harmless .keyboardHandler) }, rfl, ?_⟩
      rintro vector ⟨⟩
      exact ⟨rfl, trivial⟩
    · rw [if_neg hline, ite_self]
      exact ⟨h, rfl, nofun⟩
  · rw [if_neg hflag]
    exact ⟨h, rfl, nofun⟩

/-- What the kernel knows stays as it was. -/
theorem Knows.enter (h : Knows a) (line : Line) : Gives (fun x => Knows x.2) (a.enter line) := by
  refine (line_changes a line.bytes).bind fun a' ha' => gives_ok ?_
  exact ⟨ha'.uptimeSeconds.trans h.uptimeSeconds, ha'.totalMemory.trans h.totalMemory,
    ha'.freeMemory.trans h.freeMemory⟩

/-- **A line.** -/
theorem Running.line (h : Running l files tasks m a) (hreturned : m.returned = false) (call : LineCall) :
    Corresponds (RunningAs l files tasks) (machineStep l (.ok m) (.line call)).2 (a.enter call.line) := by
  have hline := (h.shell.shellLine (K := memfsDirDrivers) call).and_gives (h.knows.enter call.line)
  have hnot : ¬ m.returned = true := by rw [hreturned]; exact Bool.false_ne_true
  simp only [machineStep, if_neg hnot]
  rw [← map_eq_bind]
  refine hline.map_left ?_
  rintro ⟨returned, shell⟩ x ⟨⟨hleft, hshell⟩, hknows⟩
  have hshell : RecordRepresents files shell x.2 := hshell
  have htasks : ({ m with shell, returned } : Machine).tasks = tasks := by
    rw [← h.tasks]
    simp only [Machine.tasks, Machine.system, hshell.vars.vfs, h.shell.vars.vfs, hshell.vars.uptimeSeconds,
      h.shell.vars.uptimeSeconds, hknows.uptimeSeconds, h.knows.uptimeSeconds]
  exact ⟨⟨h.devices, h.gate, htasks, h.ready, hshell, hknows⟩, hleft⟩

theorem run_plainStep_error (e : Stop) (lines : List Line) : (run plainStep (.error e) lines).2 = .error e := by
  induction lines with
  | nil => rfl
  | cons line lines ih => exact ih

/-- **Any event.** -/
theorem machineStep_running {r : Except Stop Machine} {r' : Except Stop (Bool × PlainShell)}
    (h : Corresponds (RunningAs l files tasks) r r') (event : KernelEvent) :
    Corresponds (RunningAs l files tasks) (machineStep l r event).2 (run plainStep r' (linesOf [event])).2 ∧
      ∀ vector, (machineStep l r event).1 = some vector → vector = 0x21 ∧ ∃ m, r = .ok m ∧ m.interruptFlag = true := by
  cases r with
  | error e =>
    cases r' with
    | ok x => exact h.elim
    | error e' =>
      obtain rfl : e = e' := h
      rw [run_plainStep_error]
      exact ⟨corresponds_error, nofun⟩
  | ok m =>
    cases r' with
    | error e' => exact h.elim
    | ok x =>
      obtain ⟨left, a⟩ := x
      obtain ⟨h, hreturned⟩ : RunningAs l files tasks m (left, a) := h
      cases event with
      | line call =>
        have hnone : (machineStep l (.ok m) (.line call)).1 = none := by
          dsimp only [machineStep]
          split <;> rfl
        refine ⟨?_, fun vector hv => absurd (hnone.symm.trans hv) (Option.some_ne_none vector).symm⟩
        cases left with
        | false => exact h.line hreturned call
        | true =>
          have hstay : (machineStep l (.ok m) (.line call)).2 = .ok m := by
            simp only [machineStep, if_pos hreturned]
          rw [hstay]
          exact ⟨h, hreturned⟩
      | ports call => exact ⟨⟨{ h with devices := h.devices.outs (writes_harmless call) }, hreturned⟩, nofun⟩
      | irq line =>
        obtain ⟨hrunning, hsame, htaken⟩ := h.interrupt line
        exact ⟨⟨hrunning, hsame.trans hreturned⟩, fun vector hv => ⟨(htaken vector hv).1, m, rfl, (htaken vector hv).2⟩⟩
      | enableInterrupts => exact ⟨⟨{ h with }, hreturned⟩, nofun⟩
      | disableInterrupts => exact ⟨⟨{ h with }, hreturned⟩, nofun⟩

/-- Only `enable_interrupts` sets the flag. -/
theorem machineStep_flag {m m' : Machine} {event : KernelEvent} (hstep : (machineStep l (.ok m) event).2 = .ok m')
    (hevent : event ≠ .enableInterrupts) (hflag : m.interruptFlag = false) : m'.interruptFlag = false := by
  cases event with
  | line call =>
    unfold machineStep at hstep
    dsimp only at hstep
    split at hstep
    · cases hstep
      exact hflag
    · obtain ⟨x, -, hx⟩ := bind_eq_ok.mp hstep
      cases hx
      exact hflag
  | ports call =>
    cases hstep
    exact hflag
  | irq line =>
    have hnone : (if m.interruptFlag = true then m.devices.delivers line else none) = none := by rw [hflag]; rfl
    have hsame : (Kernel.interrupt l m line).2 = m := by rw [Kernel.interrupt, hnone]
    cases hstep
    rw [hsame]
    exact hflag
  | enableInterrupts => exact absurd rfl hevent
  | disableInterrupts =>
    cases hstep
    rfl

theorem linesOf_cons (event : KernelEvent) (events : List KernelEvent) :
    linesOf (event :: events) = linesOf [event] ++ linesOf events := by
  rw [linesOf, linesOf, linesOf, ← List.filterMap_append]
  rfl

theorem run_plainStep_append (r : Except Stop (Bool × PlainShell)) (lines lines' : List Line) :
    (run plainStep r (lines ++ lines')).2 = (run plainStep (run plainStep r lines).2 lines').2 := by
  induction lines generalizing r with
  | nil => rfl
  | cons line lines ih => exact ih _

/-- **Any events.** -/
theorem run_running {r : Except Stop Machine} {r' : Except Stop (Bool × PlainShell)}
    (h : Corresponds (RunningAs l files tasks) r r') (events : List KernelEvent) :
    Corresponds (RunningAs l files tasks) (run (machineStep l) r events).2 (run plainStep r' (linesOf events)).2 ∧
      ∀ vector, some vector ∈ (run (machineStep l) r events).1 →
        vector = 0x21 ∧ ((∀ m, r = .ok m → m.interruptFlag = false) → .enableInterrupts ∈ events) := by
  induction events generalizing r r' with
  | nil => exact ⟨h, nofun⟩
  | cons event events ih =>
    obtain ⟨hstep, htaken⟩ := machineStep_running h event
    obtain ⟨hrun, hrest⟩ := ih hstep
    rw [linesOf_cons, run_plainStep_append]
    refine ⟨hrun, fun vector hvector => ?_⟩
    rcases List.mem_cons.mp hvector with hnow | hlater
    · obtain ⟨hkeyboard, m, hm, hflag⟩ := htaken vector hnow.symm
      refine ⟨hkeyboard, fun hclear => ?_⟩
      rw [hclear m hm] at hflag
      cases hflag
    · obtain ⟨hkeyboard, henabled⟩ := hrest vector hlater
      refine ⟨hkeyboard, fun hclear => ?_⟩
      by_cases hevent : event = .enableInterrupts
      · rw [hevent]
        exact List.mem_cons_self
      · refine List.mem_cons_of_mem event (henabled fun m' hm' => ?_)
        cases r with
        | error e => cases hm'
        | ok m => exact machineStep_flag hm' hevent (hclear m rfl)

/-- The parts of the kernel are ready. -/
theorem Running.isSubsystemReady (h : Running l files tasks m a) (hring : TaskRing tasks [0]) :
    ∀ subsystem ∈ subsystems, m.isSubsystemReady subsystem = true := by
  have hactive : m.scheduler.schedulerActive = true := by
    have hsame : m.tasks.schedulerActive = tasks.schedulerActive := congrArg Scheduler.schedulerActive h.tasks
    exact hsame.trans hring.active
  simp only [subsystems, List.forall_mem_cons, List.not_mem_nil, false_imp_iff, implies_true, and_true,
    Machine.isSubsystemReady]
  refine ⟨?_, ?_, ?_⟩
  · exact h.ready.1
  · exact hactive
  · exact h.ready.2

end Events

/-- **The kernel from its start**, with its devices and its memory in any state: whatever interrupts are asked for and
whatever is written to the ports in between, its shell does with the lines what the plain shell does, and returns
when that does. No interrupt is taken but the keyboard's, and not even that one unless `enable_interrupts` is
called; so no second is ever counted, the main task is the only one there is, and all the parts of the kernel are
said to be ready. -/
theorem kernel_run (l : Layout) (devices : Devices) {table : Mem}
    (hzero : table.bytes l.idt 2048 = List.replicate 2048 0) (mem : Mem) (idtr : Idtr) (task : UInt32 → Task)
    (data : Memfs) (stack : Mem) (events : List KernelEvent) :
    let r := run (machineStep l) (kmain l (.loaded devices table mem idtr task data stack)) events
    ∃ files tasks, TaskRing tasks [0] ∧
      Corresponds (fun m x => RecordRepresents files m.shell x.2 ∧ m.returned = x.1 ∧ m.tasks = tasks ∧
          m.getUptime = 0 ∧ m.getMemoryStats = (Machine.detectMemory, Machine.detectMemory - 0x100000) ∧
          ∀ subsystem ∈ subsystems, m.isSubsystemReady subsystem = true) r.2
        (run plainStep (.ok (false, PlainShell.booted)) (linesOf events)).2 ∧
      ∀ vector, some vector ∈ r.1 → vector = 0x21 ∧ .enableInterrupts ∈ events := by
  obtain ⟨files, tasks, m, hkernel, hrunning, hflag, hreturned, hring, -⟩ :=
    kmain_running l devices hzero mem idtr task data stack
  rw [hkernel]
  have hstart : Corresponds (RunningAs l files tasks) (.ok m : Except Stop Machine) (.ok (false, PlainShell.booted)) :=
    ⟨hrunning, hreturned⟩
  obtain ⟨hrun, htaken⟩ := run_running hstart events
  refine ⟨files, tasks, hring, hrun.mono fun m x h => ⟨h.1.shell, h.2, h.1.tasks, ?uptime, ?memory,
    h.1.isSubsystemReady hring⟩, fun vector hvector => ⟨(htaken vector hvector).1, (htaken vector hvector).2 ?clear⟩⟩
  case uptime => exact h.1.shell.vars.uptimeSeconds.trans h.1.knows.uptimeSeconds
  case memory =>
    exact Prod.ext (h.1.shell.vars.totalMemory.trans h.1.knows.totalMemory)
      (h.1.shell.vars.freeMemory.trans h.1.knows.freeMemory)
  case clear =>
    rintro m' ⟨⟩
    exact hflag

/-- The parts of the kernel at small addresses. -/
def smallLayout : Layout where
  idt := 0x8000
  idtp := 0x8800
  keyboardHandler := 0x1234
  timerCallback := 0x5678
  placed := placed_small
  differ := by decide

/-- The kernel with no memory set, and its devices off. -/
def smallMachine : Machine :=
  .loaded devicesOff (fun _ => 0) (fun _ => 0) ⟨0, 0⟩ (fun _ => ⟨0, 0, 0, 0, none⟩)
    ⟨fun _ => ⟨.empty, 0, none, false, []⟩, 0⟩ fun _ => 0

/-- An alias with a name of 32 characters, the timer and the keyboard, then that name with what it runs on into. -/
def smallEvents : List KernelEvent := [.enableInterrupts, .line longName.1, .irq 0, .irq 1, .line longName.2]

theorem kernel_run_small :
    let r := run (machineStep smallLayout) (kmain smallLayout smallMachine) smallEvents
    ∃ files tasks, TaskRing tasks [0] ∧
      Corresponds (fun m x => RecordRepresents files m.shell x.2 ∧ m.returned = x.1 ∧ m.tasks = tasks ∧
          m.getUptime = 0 ∧ m.getMemoryStats = (Machine.detectMemory, Machine.detectMemory - 0x100000) ∧
          ∀ subsystem ∈ subsystems, m.isSubsystemReady subsystem = true) r.2
        (run plainStep (.ok (false, PlainShell.booted)) (linesOf smallEvents)).2 ∧
      ∀ vector, some vector ∈ r.1 → vector = 0x21 ∧ KernelEvent.enableInterrupts ∈ smallEvents :=
  kernel_run smallLayout devicesOff (Mem.bytes_const 0 0x8000 2048) _ _ _ _ _ smallEvents

/-- The kernel still reads lines if the plain shell does. -/
theorem stillReads_iff {l : Layout} {files : Vfs Memfs} {tasks : Scheduler} {r : Except Stop Machine}
    {r' : Except Stop (Bool × PlainShell)} (h : Corresponds (RunningAs l files tasks) r r') :
    (∃ m, r = .ok m ∧ m.returned = false) ↔ StillReads r' := by
  cases r with
  | error e =>
    refine iff_of_false (by rintro ⟨m, ⟨⟩, -⟩) ?_
    rintro ⟨a, rfl⟩
    exact h
  | ok m =>
    cases r' with
    | error e => exact h.elim
    | ok x =>
      obtain ⟨left, a⟩ := x
      have hsame : m.returned = left := h.2
      constructor
      · rintro ⟨m', ⟨⟩, hreturned⟩
        exact ⟨a, by rw [← hsame, hreturned]⟩
      · rintro ⟨a', ⟨⟩⟩
        exact ⟨m, rfl, hsame⟩

/-- **When the kernel still reads lines**: just when no line was `exit`, halted or reset it, or divided the least
number by `-1`, whatever else has happened in between. -/
theorem kernel_stillReads (l : Layout) (devices : Devices) {table : Mem}
    (hzero : table.bytes l.idt 2048 = List.replicate 2048 0) (mem : Mem) (idtr : Idtr) (task : UInt32 → Task)
    (data : Memfs) (stack : Mem) (events : List KernelEvent) :
    (∃ m, (run (machineStep l) (kmain l (.loaded devices table mem idtr task data stack)) events).2 = .ok m ∧
        m.returned = false) ↔
      Along plainStep ReturnsAt (.ok (false, PlainShell.booted)) (linesOf events) := by
  obtain ⟨files, tasks, m, hkernel, hrunning, -, hreturned, -⟩ :=
    kmain_running l devices hzero mem idtr task data stack
  have hstart : Corresponds (RunningAs l files tasks) (.ok m : Except Stop Machine) (.ok (false, PlainShell.booted)) :=
    ⟨hrunning, hreturned⟩
  have htidy : Gives (fun x : Bool × PlainShell => Tidy x.2) (.ok (false, PlainShell.booted) : Except Stop _) :=
    gives_ok booted_tidy
  have hreads : StillReads (.ok (false, PlainShell.booted) : Except Stop _) := ⟨_, rfl⟩
  rw [hkernel, stillReads_iff (run_running hstart events).1, run_stillReads htidy]
  exact and_iff_right hreads

theorem kernel_stillReads_small :
    ∃ m, (run (machineStep smallLayout) (kmain smallLayout smallMachine) smallEvents).2 = .ok m ∧
      m.returned = false := by
  have hother : ∀ totalMemory, ¬ Stops totalMemory [120] [] := fun _ => by
    simp only [Stops, show commandOf [120] = .other by decide +kernel, not_false_iff]
  have halias : ∀ totalMemory command, ¬ Stops totalMemory (ascii ['a', 'l', 'i', 'a', 's']) [command, [120]] :=
    fun _ _ => by
      simp only [Stops, show commandOf (ascii ['a', 'l', 'i', 'a', 's']) = .alias_ by decide +kernel, not_false_iff]
  refine (kernel_stillReads smallLayout devicesOff (Mem.bytes_const 0 0x8000 2048) _ _ _ _ _ smallEvents).mpr
    ⟨?_, ?_, trivial⟩
  · rintro a ⟨⟩
    have hwords : resolvedWords PlainShell.booted.table longName.1.line.bytes =
        [ascii ['a', 'l', 'i', 'a', 's'], List.replicate 32 97, [120]] := by decide +kernel
    refine ⟨by decide, ?_⟩
    rw [LineReturns, hwords]
    rintro cmd args ⟨⟩
    exact halias _ _
  · intro a ha
    have hwords : (plainStep (.ok (false, PlainShell.booted)) longName.1.line).2.map
        (fun x => resolvedWords x.2.table longName.2.line.bytes) = .ok [[120]] := by decide +kernel
    rw [ha] at hwords
    have hwords : resolvedWords a.table longName.2.line.bytes = [[120]] := Except.ok.inj hwords
    refine ⟨by decide, ?_⟩
    rw [LineReturns, hwords]
    rintro cmd args ⟨⟩
    exact hother _

end Basedos.Kernel
