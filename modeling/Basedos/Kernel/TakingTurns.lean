import Basedos.Kernel.Tasks
import Basedos.Lib.RoundRobin

/-!
# Tasks take turns

The scheduler of `kernel/kernel.c` as what it is for: tasks that take turns on the processor, each
with registers of its own.

## The model

The abstract machine is that of `Lib.RoundRobin`, with the two registers `esp` and `ebp` for a
context. A task's registers are the processor's while the task is current, and those its
`task_t` holds while it is not (`registers`). `turn` is what a tick and a call of `create_task` are
to the abstract machine: the end of a turn, and a task that joins behind the main task or
nothing, when there is no memory for it.

## What is proved

* `TakesTurns.step` — the scheduler's step is the abstract machine's.
* `task_runs` — **no task starves**: whatever tasks are created meanwhile, a task is current at some time
  within as many ticks as there are other tasks in the end.
* `task_resumes` — **the registers are kept**: a task that is current again finds the registers with which it
  was interrupted, whatever the other tasks had in them.
* `task_starts` — and when it is first current, the end of its stack in both.
-/

namespace Basedos.Kernel

open Basedos.Lib

/-- The registers of a task: the processor's if it is current, else the ones saved. -/
def Scheduler.registers (s : Scheduler) (p : UInt32) : UInt32 × UInt32 :=
  if s.currentTask = some p then (s.esp, s.ebp) else ((s.task p).esp, (s.task p).ebp)

/-- The end of the stack `create_task` takes next: of a block of 4096 bytes, or 4096 if there is none. -/
def stackEnd (heapAddress : UInt32) (heap : Heap) : UInt32 :=
  (match (kmalloc (kmalloc heap taskSize).2 4096).1 with | some p => heapAddress + p | none => 0) + 4096

/-- What an operation is to tasks that take turns. -/
def turn (heapAddress : UInt32) (s : Scheduler) : TaskOp → Turn UInt32 (UInt32 × UInt32)
  | .timer esp ebp => .tick (esp, ebp)
  | .createTask _ =>
    if (createTask heapAddress s).1 = 0 then .idle
    else .join s.heap.heapPos (stackEnd heapAddress s.heap, stackEnd heapAddress s.heap)

/-- The scheduler's tasks take these turns; `main` is the main task. -/
structure TakesTurns (main : UInt32) (s : Scheduler) (T : Turns UInt32 (UInt32 × UInt32)) : Prop where
  ring : ∃ t, TaskRing s (main :: t) ∧ T.turns.Perm (main :: t)
  links : Ring s.next T.turns
  currentTask : s.currentTask = T.turns.head?
  context : ∀ p ∈ T.turns, T.context p = s.registers p

variable {main heapAddress p : UInt32} {s s' : Scheduler} {T : Turns UInt32 (UInt32 × UInt32)}

/-! ### The registers -/

/-- **A switch** changes the registers of no task but the one interrupted. -/
theorem timerCallback_registers {c n : UInt32} (hactive : s.schedulerActive = true) (hc : s.currentTask = some c)
    (hn : s.next c = some n) (esp ebp : UInt32) (p : UInt32) :
    (timerCallback { s with esp := esp, ebp := ebp }).registers p = Function.update s.registers c (esp, ebp) p := by
  have hn' : (s.task c).next = some n := hn
  obtain ⟨ticks, uptimeSeconds, hcount⟩ := countTick_eq { s with esp := esp, ebp := ebp }
  simp only [timerCallback, hcount]
  simp only [hc, hn', hactive, if_true, Scheduler.setTask, Scheduler.registers]
  by_cases hpc : p = c
  · subst hpc
    rw [Function.update_self]
    by_cases hpn : n = p
    · subst hpn
      simp only [if_true, Function.update_self]
    · simp only [Option.some.injEq, if_neg hpn, Function.update_self]
  · rw [Function.update_of_ne hpc]
    have hcp : c ≠ p := Ne.symm hpc
    by_cases hpn : n = p
    · subst hpn
      simp only [Scheduler.registers, hc, Option.some.injEq, if_true, if_neg hcp, Function.update_of_ne hpc]
    · simp only [Scheduler.registers, hc, Option.some.injEq, if_neg hpn, if_neg hcp, Function.update_of_ne hpc]

/-- A task linked in: of every task only the link may change. -/
theorem linkTask_part {β : Type} {g : Task → β} (hg : ∀ t n, g { t with next := n } = g t) (s : Scheduler)
    (new p : UInt32) : g ((linkTask s new).task p) = g (s.task p) := by
  unfold linkTask
  cases s.taskQueue with
  | none => exact update_part (hg _ _) p
  | some q =>
    simp only [Scheduler.setTask]
    rw [update_part (hg _ _), update_part (hg _ _)]

/-- And the processor's registers do not. -/
theorem linkTask_frame (s : Scheduler) (new : UInt32) :
    (linkTask s new).currentTask = s.currentTask ∧ (linkTask s new).esp = s.esp ∧ (linkTask s new).ebp = s.ebp := by
  unfold linkTask
  cases s.taskQueue <;> exact ⟨rfl, rfl, rfl⟩

/-- **A task made** leaves the registers of the others, and has the end of its stack in both. -/
theorem createTask_registers (hok : s.heap.Ok) (hactive : s.schedulerActive = true)
    (hcurrent : s.currentTask ≠ some s.heap.heapPos) (hmade : (createTask heapAddress s).1 ≠ 0) (p : UInt32) :
    (createTask heapAddress s).2.registers p =
      Function.update s.registers s.heap.heapPos (stackEnd heapAddress s.heap, stackEnd heapAddress s.heap) p := by
  obtain ⟨-, hk⟩ := kmalloc_small hok taskSize (by decide)
  revert hmade
  unfold createTask stackEnd
  rcases hr : kmalloc s.heap taskSize with ⟨new, h₁⟩
  simp only [hr] at hk
  simp only [hactive, not_true_eq_false, if_false]
  rcases hk with ⟨rfl, -⟩ | ⟨rfl, -⟩
  · exact fun h => absurd rfl h
  · intro _
    simp only
    generalize (match (kmalloc h₁ 4096).1 with | some p => heapAddress + p | none => 0) + 4096 = esp
    generalize hs₁ : ({ s.setTask s.heap.heapPos
      { s.task s.heap.heapPos with id := s.nextTaskId, state := 1, esp := esp, ebp := esp } with
        heap := (kmalloc h₁ 4096).2, nextTaskId := s.nextTaskId + 1 } : Scheduler) = s₁
    obtain ⟨hcur, hesp, hebp⟩ := linkTask_frame s₁ s.heap.heapPos
    simp only [Scheduler.registers, hcur, hesp, hebp, linkTask_part (g := Task.esp) (fun _ _ => rfl),
      linkTask_part (g := Task.ebp) (fun _ _ => rfl)]
    subst hs₁
    simp only [Scheduler.setTask]
    by_cases hp : p = s.heap.heapPos
    · subst hp
      simp only [hcurrent, if_false, Function.update_self]
    · simp only [Function.update_of_ne hp]
      rfl

/-! ### One step -/

theorem TakesTurns.head {c : UInt32} (h : TakesTurns main s T) (hc : s.currentTask = some c) :
    ∃ t, T.turns = c :: t := by
  have hhead := h.currentTask.symm.trans hc
  cases hT : T.turns with
  | nil =>
    rw [hT] at hhead
    cases hhead
  | cons a t =>
    rw [hT] at hhead
    cases hhead
    exact ⟨t, rfl⟩

/-- **A tick** is the end of a turn. -/
theorem TakesTurns.timer (h : TakesTurns main s T) (esp ebp : UInt32) :
    TakesTurns main (timerCallback { s with esp := esp, ebp := ebp }) (T.step main (.tick (esp, ebp))) := by
  obtain ⟨l, hring, hperm⟩ := h.ring
  obtain ⟨c, hcl, hc⟩ := hring.current
  obtain ⟨n, -, hn⟩ := hring.next_mem hcl
  obtain ⟨t, hT⟩ := h.head hc
  have hs := hring.timer esp ebp
  have hstep : T.step main (.tick (esp, ebp)) = ⟨t ++ [c], Function.update T.context c (esp, ebp)⟩ := by
    simp only [Turns.step, hT]
  have hlinks := h.links
  rw [hT] at hlinks hperm
  rw [hstep]
  refine ⟨⟨l, hring.switched hs, (List.perm_append_singleton c t).trans hperm⟩, ?_, ?_, fun p hp => ?_⟩
  · rw [hs.next]
    exact hlinks.rotate ⟨1, by rw [List.rotate_cons_succ, List.rotate_zero]⟩
  · rw [hs.currentTask, hc, Option.bind_some]
    exact hlinks.next_head
  · change Function.update T.context c (esp, ebp) p = _
    rw [timerCallback_registers hring.active hc hn]
    by_cases hpc : p = c
    · rw [hpc, Function.update_self, Function.update_self]
    · rw [Function.update_of_ne hpc, Function.update_of_ne hpc]
      refine h.context p ?_
      rw [hT]
      exact ((List.perm_append_singleton c t).mem_iff).mp hp

/-- **A task made** joins behind the main task. -/
theorem TakesTurns.createTask (h : TakesTurns main s T) (heapAddress entryPoint : UInt32) :
    TakesTurns main (Kernel.createTask heapAddress s).2
      (T.step main (turn heapAddress s (.createTask entryPoint))) := by
  obtain ⟨t, hring, hperm⟩ := h.ring
  have hne : s.heap.heapPos ≠ main := fun he => hring.new_not_mem (he ▸ List.mem_cons_self)
  have hmain : main ∈ T.turns := hperm.mem_iff.mpr List.mem_cons_self
  have hnew : s.heap.heapPos ∉ T.turns := fun hmem => hring.new_not_mem (hperm.mem_iff.mp hmem)
  have hcurrent : s.currentTask ≠ some s.heap.heapPos := by
    obtain ⟨c, hcl, hc⟩ := hring.current
    rw [hc]
    rintro ⟨⟩
    exact hring.new_not_mem hcl
  rcases createTask_cases heapAddress hring.ok hring.active hring.queue hne with
    ⟨heap, heq, hok, hpos⟩ | ⟨s', heq, hc⟩
  · simp only [turn, heq, if_true, Turns.step]
    exact ⟨⟨t, { hring with ok := hok, below := hpos ▸ hring.below, room := hpos ▸ hring.room }, hperm⟩,
      h.links, h.currentTask, h.context⟩
  · have hid : s.nextTaskId ≠ 0 := by
      intro h0
      have hnext := hring.nextTaskId
      rw [h0] at hnext
      cases hnext
    have hmade : (Kernel.createTask heapAddress s).1 ≠ 0 := by
      rw [heq]
      exact hid
    have hregisters := createTask_registers hring.ok hring.active hcurrent hmade
    rw [heq] at hregisters
    simp only [turn, heq, if_neg hid, Turns.step]
    refine ⟨⟨_, hring.insert hc, ?_⟩, ?_, ?_, fun p hp => ?_⟩
    · have hswap := (insertBehind_perm hmain s.heap.heapPos).trans (hperm.cons s.heap.heapPos)
      exact hswap.trans (List.Perm.swap _ _ _)
    · exact h.links.insertBehind hmain hnew hc.next_queue hc.next_new hc.next
    · rw [hc.currentTask, h.currentTask]
      exact (head_insertBehind _ _ _).symm
    · change Function.update T.context s.heap.heapPos _ p = _
      rw [hregisters]
      by_cases hpn : p = s.heap.heapPos
      · rw [hpn, Function.update_self, Function.update_self]
      · rw [Function.update_of_ne hpn, Function.update_of_ne hpn]
        refine h.context p ?_
        have hmem := (insertBehind_perm hmain s.heap.heapPos).mem_iff.mp hp
        exact (List.mem_cons.mp hmem).resolve_left hpn

/-- **One step** of the scheduler is one of tasks that take turns. -/
theorem TakesTurns.step (h : TakesTurns main s T) (heapAddress : UInt32) (op : TaskOp) :
    TakesTurns main (taskStep heapAddress s op).2 (T.step main (turn heapAddress s op)) := by
  cases op with
  | createTask entryPoint => exact h.createTask heapAddress entryPoint
  | timer esp ebp => exact h.timer esp ebp

/-- At the start it is the main task's turn. -/
theorem initScheduler_takesTurns {heap : Heap} (hok : heap.Ok) (task : UInt32 → Task)
    (hinit : (initScheduler (.initial heap task)).schedulerActive = true) :
    TakesTurns heap.heapPos (initScheduler (.initial heap task))
      ⟨[heap.heapPos], (initScheduler (.initial heap task)).registers⟩ := by
  obtain ⟨hring, -, -⟩ := initScheduler_ring hok hinit
  obtain ⟨c, hcl, hc⟩ := hring.current
  rw [List.mem_singleton] at hcl
  subst hcl
  exact ⟨⟨[], hring, List.Perm.refl _⟩, hring.ring, hc, fun _ _ => rfl⟩

/-- **After any run** the tasks take turns. -/
theorem TakesTurns.run (h : TakesTurns main s T) (heapAddress : UInt32) (ops : List TaskOp) :
    ∃ T', TakesTurns main (Lib.run (taskStep heapAddress) s ops).2 T' :=
  run_inv' (I := fun s => ∃ T, TakesTurns main s T) (fun _ op ⟨_, h⟩ => ⟨_, h.step heapAddress op⟩) ⟨T, h⟩ ops

theorem TakesTurns.inRing_iff (h : TakesTurns main s T) (p : UInt32) : InRing s p ↔ p ∈ T.turns := by
  obtain ⟨t, hring, hperm⟩ := h.ring
  rw [hring.inRing_iff, hperm.mem_iff]

/-! ### No task starves -/

/-- The tasks there are: each has taken an id from `next_task_id`, which starts at 1. -/
def Scheduler.tasks (s : Scheduler) : ℕ := s.nextTaskId.toNat - 1

/-- A tick of the timer. -/
def TaskOp.isTimer : TaskOp → Bool
  | .timer _ _ => true
  | .createTask _ => false

theorem TakesTurns.tasks (h : TakesTurns main s T) : s.tasks = T.turns.length := by
  obtain ⟨t, hring, hperm⟩ := h.ring
  rw [Scheduler.tasks, hring.nextTaskId, hperm.length_eq]
  rfl

/-- The turns `p` has to wait for are at most `k`. -/
def Waits (main p : UInt32) (k : ℕ) (s : Scheduler) : Prop :=
  ∃ T, TakesTurns main s T ∧ p ∈ T.turns ∧ T.turns.idxOf p ≤ k

theorem Waits.current (h : Waits main p 0 s) : s.currentTask = some p := by
  obtain ⟨T, hT, hp, hwait⟩ := h
  rw [hT.currentTask]
  exact Turns.head_of_wait hp (Nat.le_zero.mp hwait)

/-- **A tick** is one turn fewer to wait for. -/
theorem Waits.timer {k : ℕ} (h : Waits main p (k + 1) s) (hp : s.currentTask ≠ some p) (esp ebp : UInt32) :
    Waits main p k (taskStep heapAddress s (.timer esp ebp)).2 ∧
      (taskStep heapAddress s (.timer esp ebp)).2.tasks = s.tasks := by
  obtain ⟨T, hT, hmem, hwait⟩ := h
  have hT' := hT.step heapAddress (.timer esp ebp)
  have hmain : main ∈ T.turns := by
    obtain ⟨t, -, hperm⟩ := hT.ring
    exact hperm.mem_iff.mpr List.mem_cons_self
  have hperm : (T.step main (.tick (esp, ebp))).turns.Perm T.turns := Turns.turns_perm hmain
  have hne : T.turns.idxOf p ≠ 0 := fun h0 => hp (hT.currentTask.trans (Turns.head_of_wait hmem h0))
  have hless : (T.step main (.tick (esp, ebp))).turns.idxOf p + 1 = T.turns.idxOf p :=
    Turns.wait_tick hmem hne (esp, ebp)
  refine ⟨⟨_, hT', hperm.mem_iff.mpr hmem, ?_⟩, ?_⟩
  · simp only [turn]
    omega
  · rw [hT'.tasks, hT.tasks]
    exact hperm.length_eq

/-- **A task made** is one turn more, at most, and one task more. -/
theorem Waits.createTask {k : ℕ} (h : Waits main p k s) (heapAddress entryPoint : UInt32) :
    ∃ d, Waits main p (k + d) (taskStep heapAddress s (.createTask entryPoint)).2 ∧
      (taskStep heapAddress s (.createTask entryPoint)).2.tasks = s.tasks + d := by
  obtain ⟨T, hT, hmem, hwait⟩ := h
  have hT' := hT.step heapAddress (.createTask entryPoint)
  have hmain : main ∈ T.turns := by
    obtain ⟨t, -, hperm⟩ := hT.ring
    exact hperm.mem_iff.mpr List.mem_cons_self
  simp only [hT'.tasks, hT.tasks]
  by_cases hmade : (Kernel.createTask heapAddress s).1 = 0
  · simp only [turn, if_pos hmade, Turns.step] at hT' ⊢
    exact ⟨0, ⟨T, hT', hmem, hwait⟩, rfl⟩
  · simp only [turn, if_neg hmade] at hT' ⊢
    have hperm := insertBehind_perm hmain s.heap.heapPos
    exact ⟨1, ⟨_, hT', hperm.mem_iff.mpr (List.mem_cons_of_mem _ hmem),
      (Turns.wait_join hmem hmain _ _).trans (Nat.succ_le_succ hwait)⟩, hperm.length_eq⟩

/-- **No task starves**: a task that is there is current some time in every run with as many ticks as there
are other tasks at its end. -/
theorem task_runs {heap : Heap} (hok : heap.Ok) (task : UInt32 → Task)
    (hinit : (initScheduler (.initial heap task)).schedulerActive = true) (heapAddress : UInt32)
    (ops ops' : List TaskOp) (p : UInt32) :
    let s := (run (taskStep heapAddress) (initScheduler (.initial heap task)) ops).2
    InRing s p → (run (taskStep heapAddress) s ops').2.tasks ≤ ops'.countP TaskOp.isTimer + 1 →
      ∃ n, (run (taskStep heapAddress) s (ops'.take n)).2.currentTask = some p := by
  intro s hp hticks
  obtain ⟨T, hT⟩ := (initScheduler_takesTurns hok task hinit).run heapAddress ops
  have hmem := (hT.inRing_iff p).mp hp
  have hwait := List.idxOf_lt_length_of_mem hmem
  refine run_reaches (t := TaskOp.isTimer) (W := Waits heap.heapPos p) (f := Scheduler.tasks)
    (fun s h => h.current) ?tick ?other ⟨T, hT, hmem, le_rfl⟩ ?ticks
  case tick =>
    intro k s op htimer h hne
    cases op with
    | createTask entryPoint => cases htimer
    | timer esp ebp => exact h.timer hne esp ebp
  case other =>
    intro k s op htimer h
    cases op with
    | createTask entryPoint => exact h.createTask heapAddress entryPoint
    | timer esp ebp => cases htimer
  case ticks =>
    have htasks : s.tasks = T.turns.length := hT.tasks
    omega

theorem task_runs_small :
    let s := (run (taskStep 0x8000) (initScheduler (.initial .initial fun _ => ⟨0, 0, 0, 0, none⟩)) smallOps).2
    ∃ n, (run (taskStep 0x8000) s
      (([.timer 1 2, .createTask 0, .timer 3 4, .timer 5 6] : List TaskOp).take n)).2.currentTask = some 0 :=
  task_runs Heap.initial_ok (fun _ => ⟨0, 0, 0, 0, none⟩) rfl 0x8000 smallOps
    [.timer 1 2, .createTask 0, .timer 3 4, .timer 5 6] 0
    ⟨4136, by decide +kernel, 2, by decide +kernel⟩ (by decide +kernel)

/-! ### The registers of a task -/

/-- The timer does not interrupt the task. -/
def NotInterrupted (p : UInt32) (s : Scheduler) : TaskOp → Prop
  | .timer _ _ => s.currentTask ≠ some p
  | .createTask _ => True

/-- The task takes turns, and has these registers. -/
def HasRegisters (main p : UInt32) (registers : UInt32 × UInt32) (s : Scheduler) : Prop :=
  ∃ T, TakesTurns main s T ∧ p ∈ T.turns ∧ s.registers p = registers

/-- **A step** leaves them, unless it interrupts the task. -/
theorem HasRegisters.step {registers : UInt32 × UInt32} {op : TaskOp} (h : HasRegisters main p registers s)
    (hop : NotInterrupted p s op) (heapAddress : UInt32) :
    HasRegisters main p registers (taskStep heapAddress s op).2 := by
  obtain ⟨T, hT, hmem, hregisters⟩ := h
  have hT' := hT.step heapAddress op
  obtain ⟨t, hring, hperm⟩ := hT.ring
  have hmem' : p ∈ (T.step main (turn heapAddress s op)).turns :=
    (Turns.turns_perm (hperm.mem_iff.mpr List.mem_cons_self)).mem_iff.mpr (List.mem_append_right _ hmem)
  refine ⟨_, hT', hmem', ?_⟩
  rw [← hT'.context p hmem', ← hregisters, ← hT.context p hmem]
  refine Turns.context_step (fun a k hjoin => ?_) fun k htick => ?_
  · have ha : a = s.heap.heapPos := by
      cases op with
      | timer esp ebp => cases hjoin
      | createTask entryPoint =>
        simp only [turn] at hjoin
        split_ifs at hjoin
        cases hjoin
        rfl
    rintro rfl
    exact hring.new_not_mem (ha ▸ hperm.mem_iff.mp hmem)
  · cases op with
    | timer esp ebp => exact fun hhead => hop (hT.currentTask.trans hhead)
    | createTask entryPoint =>
      simp only [turn] at htick
      split_ifs at htick

theorem HasRegisters.run {registers : UInt32 × UInt32} {ops : List TaskOp} (h : HasRegisters main p registers s)
    (hops : Along (taskStep heapAddress) (NotInterrupted p) s ops) :
    HasRegisters main p registers (Lib.run (taskStep heapAddress) s ops).2 :=
  run_inv (fun _ _ h hop => h.step hop heapAddress) h hops

/-- The processor's registers are those of the task that is current. -/
theorem HasRegisters.current {registers : UInt32 × UInt32} (h : HasRegisters main p registers s)
    (hp : s.currentTask = some p) : (s.esp, s.ebp) = registers := by
  obtain ⟨T, -, -, hregisters⟩ := h
  rwa [Scheduler.registers, if_pos hp] at hregisters

/-- **The registers are kept**: a task that is interrupted finds its registers as they were when it is next
current. -/
theorem task_resumes {heap : Heap} (hok : heap.Ok) (task : UInt32 → Task)
    (hinit : (initScheduler (.initial heap task)).schedulerActive = true) (heapAddress : UInt32)
    (ops ops' : List TaskOp) (p esp ebp : UInt32) :
    let s := (run (taskStep heapAddress) (initScheduler (.initial heap task)) ops).2
    let s₁ := (taskStep heapAddress s (.timer esp ebp)).2
    let s₂ := (run (taskStep heapAddress) s₁ ops').2
    s.currentTask = some p → Along (taskStep heapAddress) (NotInterrupted p) s₁ ops' → s₂.currentTask = some p →
      s₂.esp = esp ∧ s₂.ebp = ebp := by
  intro s s₁ s₂ hp hops hp₂
  obtain ⟨T, hT⟩ := (initScheduler_takesTurns hok task hinit).run heapAddress ops
  obtain ⟨t, hturns⟩ := hT.head hp
  obtain ⟨l, hring, hperm⟩ := hT.ring
  obtain ⟨n, -, hn⟩ := hring.next_mem (hperm.mem_iff.mp (hturns ▸ List.mem_cons_self))
  have hT₁ := hT.timer esp ebp
  have hmem : p ∈ (T.step heap.heapPos (.tick (esp, ebp))).turns := by
    simp [Turns.step, hturns]
  have hregisters : s₁.registers p = (esp, ebp) :=
    (timerCallback_registers hring.active hp hn esp ebp p).trans (Function.update_self ..)
  have hholds : HasRegisters heap.heapPos p (esp, ebp) s₁ := ⟨_, hT₁, hmem, hregisters⟩
  have hend := (hholds.run hops).current hp₂
  exact ⟨congrArg Prod.fst hend, congrArg Prod.snd hend⟩

theorem task_resumes_small :
    let s := (run (taskStep 0x8000) (initScheduler (.initial .initial fun _ => ⟨0, 0, 0, 0, none⟩))
      [.createTask 0]).2
    let s₁ := (taskStep 0x8000 s (.timer 1 2)).2
    let s₂ := (run (taskStep 0x8000) s₁ [.createTask 0, .timer 3 4]).2
    s₂.esp = 1 ∧ s₂.ebp = 2 :=
  task_resumes Heap.initial_ok (fun _ => ⟨0, 0, 0, 0, none⟩) rfl 0x8000 [.createTask 0]
    [.createTask 0, .timer 3 4] 0 1 2 (by decide +kernel)
    ⟨trivial, (by decide +kernel : (some 20 : Ptr) ≠ some 0), trivial⟩ (by decide +kernel)

/-- **A task made** has the end of its stack in both registers when it is first current. -/
theorem task_starts {heap : Heap} (hok : heap.Ok) (task : UInt32 → Task)
    (hinit : (initScheduler (.initial heap task)).schedulerActive = true) (heapAddress : UInt32)
    (ops ops' : List TaskOp) (entryPoint : UInt32) :
    let s := (run (taskStep heapAddress) (initScheduler (.initial heap task)) ops).2
    let s₁ := (taskStep heapAddress s (.createTask entryPoint)).2
    let s₂ := (run (taskStep heapAddress) s₁ ops').2
    (createTask heapAddress s).1 ≠ 0 → Along (taskStep heapAddress) (NotInterrupted s.heap.heapPos) s₁ ops' →
      s₂.currentTask = some s.heap.heapPos →
      s₂.esp = stackEnd heapAddress s.heap ∧ s₂.ebp = stackEnd heapAddress s.heap := by
  intro s s₁ s₂ hmade hops hp₂
  obtain ⟨T, hT⟩ := (initScheduler_takesTurns hok task hinit).run heapAddress ops
  obtain ⟨t, hring, hperm⟩ := hT.ring
  have hT₁ := hT.createTask heapAddress entryPoint
  have hmem : s.heap.heapPos ∈ (T.step heap.heapPos (turn heapAddress s (.createTask entryPoint))).turns := by
    simp only [turn, if_neg hmade]
    exact (insertBehind_perm (hperm.mem_iff.mpr List.mem_cons_self) _).mem_iff.mpr List.mem_cons_self
  have hcurrent : s.currentTask ≠ some s.heap.heapPos := by
    obtain ⟨c, hcl, hc⟩ := hring.current
    intro he
    cases hc.symm.trans he
    exact hring.new_not_mem hcl
  have hregisters : s₁.registers s.heap.heapPos = (stackEnd heapAddress s.heap, stackEnd heapAddress s.heap) :=
    (createTask_registers hring.ok hring.active hcurrent hmade _).trans (Function.update_self ..)
  have hholds : HasRegisters heap.heapPos s.heap.heapPos
      (stackEnd heapAddress s.heap, stackEnd heapAddress s.heap) s₁ := ⟨_, hT₁, hmem, hregisters⟩
  have hend := (hholds.run hops).current hp₂
  exact ⟨congrArg Prod.fst hend, congrArg Prod.snd hend⟩

end Basedos.Kernel
