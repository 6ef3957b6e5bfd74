import Basedos.Kernel.Memory
import Basedos.Lib.Ring
import Basedos.Lib.Run
import Mathlib.Data.List.ReduceOption
import Mathlib.Logic.Function.Basic

/-!
# The task scheduler

The tasks of `kernel/kernel.c`: `init_scheduler` makes the main task, `create_task` links a
new task in behind `task_queue`, and `timer_callback` makes the next task current.

## The model

A task is named by its address. Each `task_t` is a block of its own from `kmalloc`, so the
tasks are a record at each address, and only the heap's position is looked at, not where the
20 bytes lie. The memory a task's stack takes is not modelled beyond its being taken.

The inline assembly of `timer_callback` stores the registers `esp` and `ebp` in the task
that was current and loads them from the one that is; what they are when the interrupt comes
is up to what has run, so each switch is given its own.

## What is proved

* `tasks_ring` — **the ring**: after any run, the links from `current_task` lead through the main
  task and every task created, once each, and back; their ids are different and not 0; and as
  many switches as there are tasks make each of them current once.
* `oneRunning_iff` — **exactly when** the task that is current is the one marked as running in
  every state of a run: no switch is made while there is more than one task.
-/

namespace Basedos.Kernel

open Basedos.Lib

/-- `task_t`. -/
structure Task where
  /-- The number of the task. -/
  id : UInt32
  /-- The stack pointer saved. -/
  esp : UInt32
  /-- The base pointer saved. -/
  ebp : UInt32
  /-- 0 is running, 1 ready, 2 blocked. -/
  state : UInt32
  /-- The task linked to. -/
  next : Ptr

/-- `sizeof(task_t)`. -/
def taskSize : UInt32 := 20

/-- The scheduler's variables, the heap, and the two registers. -/
structure Scheduler where
  /-- The heap. -/
  heap : Heap
  /-- The task at an address. -/
  task : UInt32 → Task
  /-- `current_task`. -/
  currentTask : Ptr
  /-- `task_queue`. -/
  taskQueue : Ptr
  /-- `next_task_id`. -/
  nextTaskId : UInt32
  /-- `kernel_status.scheduler_active`. -/
  schedulerActive : Bool
  /-- `ticks` of `timer_callback`. -/
  ticks : UInt32
  /-- `kernel_status.uptime_seconds`. -/
  uptimeSeconds : UInt32
  /-- The stack pointer. -/
  esp : UInt32
  /-- The base pointer. -/
  ebp : UInt32

/-- The variables as the kernel is loaded; the heap is as it is when `init_scheduler` is called. -/
def Scheduler.initial (heap : Heap) (task : UInt32 → Task) : Scheduler :=
  ⟨heap, task, none, none, 1, false, 0, 0, 0, 0⟩

/-- A task changed. -/
def Scheduler.setTask (s : Scheduler) (p : UInt32) (t : Task) : Scheduler :=
  { s with task := Function.update s.task p t }

/-- `init_scheduler`. -/
def initScheduler (s : Scheduler) : Scheduler :=
  match kmalloc s.heap taskSize with
  | (none, h) => { s with heap := h, currentTask := none }
  | (some p, h) =>
    { s.setTask p { s.task p with id := s.nextTaskId, state := 0, next := some p } with
      heap := h, currentTask := some p, nextTaskId := s.nextTaskId + 1, taskQueue := some p,
      schedulerActive := true }

/-- The first half of `timer_callback`: a tick is counted, and a second at the hundredth. -/
def countTick (s : Scheduler) : Scheduler :=
  if s.ticks + 1 ≥ 100 then { s with ticks := 0, uptimeSeconds := s.uptimeSeconds + 1 }
  else { s with ticks := s.ticks + 1 }

/-- `timer_callback`. -/
def timerCallback (s : Scheduler) : Scheduler :=
  let s := countTick s
  match s.currentTask with
  | none => s
  | some current =>
    match (s.task current).next with
    | none => s
    | some next =>
      if s.schedulerActive then
        let s := s.setTask current { s.task current with esp := s.esp, ebp := s.ebp }
        { s with currentTask := some next, esp := (s.task next).esp, ebp := (s.task next).ebp }
      else s

/-- The end of `create_task`: the task at `new` is linked in behind `task_queue`. -/
def linkTask (s : Scheduler) (new : UInt32) : Scheduler :=
  match s.taskQueue with
  | some queue =>
    let s := s.setTask new { s.task new with next := (s.task queue).next }
    s.setTask queue { s.task queue with next := some new }
  | none => { s.setTask new { s.task new with next := some new } with taskQueue := some new }

/-- `create_task`, with the heap's own address, from which a stack's is counted. -/
def createTask (heapAddress : UInt32) (s : Scheduler) : UInt32 × Scheduler :=
  if ¬ s.schedulerActive then (0, s)
  else
    match kmalloc s.heap taskSize with
    | (none, h) => (0, { s with heap := h })
    | (some new, h) =>
      let stack := kmalloc h 4096
      let esp := (match stack.1 with | some p => heapAddress + p | none => 0) + 4096
      let s := linkTask
        { s.setTask new { s.task new with id := s.nextTaskId, state := 1, esp := esp, ebp := esp } with
          heap := stack.2, nextTaskId := s.nextTaskId + 1 } new
      ((s.task new).id, s)

/-- What may happen to the scheduler. -/
inductive TaskOp where
  /-- `create_task` is called. Its argument is not used. -/
  | createTask (entryPoint : UInt32)
  /-- The timer ticks, with these registers. -/
  | timer (esp ebp : UInt32)

/-- One thing that happens; `create_task` gives an id. -/
def taskStep (heapAddress : UInt32) (s : Scheduler) : TaskOp → Option UInt32 × Scheduler
  | .createTask _ => let r := createTask heapAddress s; (some r.1, r.2)
  | .timer esp ebp => (none, timerCallback { s with esp := esp, ebp := ebp })

/-! ### The invariant -/

/-- Where a task links to. -/
def Scheduler.next (s : Scheduler) (p : UInt32) : Ptr := (s.task p).next

/-- The tasks `l`, from `task_queue` on, are a ring, and `current_task` is one of them. -/
structure TaskRing (s : Scheduler) (l : List UInt32) : Prop where
  ok : s.heap.Ok
  active : s.schedulerActive = true
  queue : s.taskQueue = l.head?
  ring : Ring s.next l
  current : ∃ c ∈ l, s.currentTask = some c
  /-- Each task is in a block of its own. -/
  below : ∀ p ∈ l, p.toNat < s.heap.heapPos.toNat
  room : 20 * l.length ≤ s.heap.heapPos.toNat
  nextTaskId : s.nextTaskId.toNat = l.length + 1
  id : ∀ p ∈ l, 0 < (s.task p).id.toNat ∧ (s.task p).id.toNat ≤ l.length
  ids : (l.map fun p => (s.task p).id).Nodup

variable {s s' : Scheduler} {l t : List UInt32} {q new : UInt32}

/-! ### A switch -/

/-- What a switch does: it goes one link on, and leaves the ring, the ids and the states. -/
structure Switched (s s' : Scheduler) : Prop where
  currentTask : s'.currentTask = s.currentTask.bind s.next
  heap : s'.heap = s.heap
  taskQueue : s'.taskQueue = s.taskQueue
  nextTaskId : s'.nextTaskId = s.nextTaskId
  schedulerActive : s'.schedulerActive = s.schedulerActive
  next : s'.next = s.next
  id : ∀ p, (s'.task p).id = (s.task p).id
  state : ∀ p, (s'.task p).state = (s.task p).state

/-- Counting a tick changes the two counts. -/
theorem countTick_eq (s : Scheduler) : ∃ ticks uptimeSeconds,
    countTick s = { s with ticks := ticks, uptimeSeconds := uptimeSeconds } := by
  unfold countTick
  split_ifs
  · exact ⟨_, _, rfl⟩
  · exact ⟨_, s.uptimeSeconds, rfl⟩

/-- A part of the tasks that a change to one leaves alone. -/
theorem update_part {β : Type*} {task : UInt32 → Task} {c : UInt32} {t : Task} {g : Task → β}
    (h : g t = g (task c)) (p : UInt32) : g (Function.update task c t p) = g (task p) := by
  by_cases hp : p = c
  · subst hp
    rw [Function.update_self, h]
  · rw [Function.update_of_ne hp]

theorem timerCallback_switched {c n : UInt32} (hactive : s.schedulerActive = true) (hc : s.currentTask = some c)
    (hn : s.next c = some n) (esp ebp : UInt32) :
    Switched s (timerCallback { s with esp := esp, ebp := ebp }) := by
  have hn' : (s.task c).next = some n := hn
  obtain ⟨ticks, uptimeSeconds, hcount⟩ := countTick_eq { s with esp := esp, ebp := ebp }
  simp only [timerCallback, hcount]
  simp only [hc, hn', hactive, if_true, Scheduler.setTask]
  exact ⟨by rw [hc]; exact hn.symm, rfl, rfl, rfl, hactive.symm,
    funext (update_part (g := Task.next) hn'.symm), update_part (g := Task.id) rfl,
    update_part (g := Task.state) rfl⟩

/-- A task of the ring links to a task of the ring. -/
theorem TaskRing.next_mem (h : TaskRing s l) {c : UInt32} (hc : c ∈ l) : ∃ n ∈ l, s.next c = some n := by
  obtain ⟨t, hr, hring⟩ := h.ring.from_mem hc
  have hhead := hring.next_head
  cases ht : t ++ [c] with
  | nil => simp at ht
  | cons n u =>
    rw [ht] at hhead
    refine ⟨n, hr.mem_iff.mpr ?_, hhead⟩
    have hmem : n ∈ t ++ [c] := ht ▸ List.mem_cons_self
    simpa [or_comm] using hmem

theorem TaskRing.timer (h : TaskRing s l) (esp ebp : UInt32) :
    Switched s (timerCallback { s with esp := esp, ebp := ebp }) := by
  obtain ⟨c, hc, hcurrent⟩ := h.current
  obtain ⟨n, -, hn⟩ := h.next_mem hc
  exact timerCallback_switched h.active hcurrent hn esp ebp

theorem TaskRing.switched (h : TaskRing s l) (hs : Switched s s') : TaskRing s' l := by
  obtain ⟨c, hc, hcurrent⟩ := h.current
  obtain ⟨n, hn, hnext⟩ := h.next_mem hc
  refine ⟨hs.heap ▸ h.ok, hs.schedulerActive.trans h.active, hs.taskQueue.trans h.queue, hs.next ▸ h.ring,
    ⟨n, hn, ?_⟩, hs.heap ▸ h.below, hs.heap ▸ h.room, hs.nextTaskId ▸ h.nextTaskId, fun p hp => ?_, ?_⟩
  · rw [hs.currentTask, hcurrent, Option.bind_some, hnext]
  · rw [hs.id]
    exact h.id p hp
  · simp only [hs.id]
    exact h.ids

/-! ### A creation -/

/-- What making the task at `new` does, behind the task at `queue`. -/
structure Created (s s' : Scheduler) (queue new : UInt32) : Prop where
  ok : s'.heap.Ok
  heapPos : new.toNat + 20 ≤ s'.heap.heapPos.toNat
  currentTask : s'.currentTask = s.currentTask
  taskQueue : s'.taskQueue = s.taskQueue
  nextTaskId : s'.nextTaskId = s.nextTaskId + 1
  schedulerActive : s'.schedulerActive = s.schedulerActive
  next_queue : s'.next queue = some new
  next_new : s'.next new = s.next queue
  next : ∀ p, p ≠ queue → p ≠ new → s'.next p = s.next p
  id_new : (s'.task new).id = s.nextTaskId
  id : ∀ p, p ≠ new → (s'.task p).id = (s.task p).id
  state_new : (s'.task new).state = 1
  state : ∀ p, p ≠ new → (s'.task p).state = (s.task p).state

/-- A block of a small size: `NULL`, or the next one. -/
theorem kmalloc_small {h : Heap} (hok : h.Ok) (size : UInt32) (hsize : size.toNat ≤ 4096) :
    (kmalloc h size).2.Ok ∧
      ((kmalloc h size).1 = none ∧ (kmalloc h size).2.heapPos = h.heapPos ∨
        (kmalloc h size).1 = some h.heapPos ∧
          (kmalloc h size).2.heapPos.toNat = h.heapPos.toNat + (size.toNat + 3) / 4 * 4) := by
  have hbound := hok.bounded
  refine ⟨kmalloc_ok hok size, ?_⟩
  rcases kmalloc_cases h size with ⟨-, heq⟩ | ⟨hle, heq⟩ <;> rw [heq]
  · exact .inl ⟨rfl, rfl⟩
  · exact .inr ⟨rfl, toNat_heapPos_add hok (by omega)⟩

/-- A task linked in behind another. -/
theorem linkTask_eq (hq : s.taskQueue = some q) (hne : new ≠ q) :
    linkTask s new = { s with
      task := Function.update (Function.update s.task new { s.task new with next := (s.task q).next }) q
        { s.task q with next := some new } } := by
  simp only [linkTask, hq, Scheduler.setTask, Function.update_of_ne hne.symm]

/-- The task at `new` filled in and linked in. -/
theorem linkTask_created {h : Heap} {t : Task} (hok : h.Ok) (hpos : new.toNat + 20 ≤ h.heapPos.toNat)
    (hq : s.taskQueue = some q) (hne : new ≠ q) (hid : t.id = s.nextTaskId) (hstate : t.state = 1) :
    Created s (linkTask { s.setTask new t with heap := h, nextTaskId := s.nextTaskId + 1 } new) q new := by
  rw [linkTask_eq (s := { s.setTask new t with heap := h, nextTaskId := s.nextTaskId + 1 }) hq hne]
  simp only [Scheduler.setTask, Function.update_self, Function.update_of_ne hne.symm, Function.update_idem]
  have hother : ∀ {β : Type} {g : Task → β} {t' : Task}, g t' = g (s.task q) → ∀ p, p ≠ new →
      g (Function.update (Function.update s.task new { t with next := (s.task q).next }) q t' p) =
        g (s.task p) := by
    intro β g t' hg p hp
    by_cases hpq : p = q
    · rw [hpq, Function.update_self, hg]
    · rw [Function.update_of_ne hpq, Function.update_of_ne hp]
  refine ⟨hok, hpos, rfl, rfl, rfl, rfl, ?_, ?_, fun p hpq hpn => ?_, ?_, hother rfl, ?_, hother rfl⟩
  · simp only [Scheduler.next, Function.update_self]
  · simp only [Scheduler.next, Function.update_of_ne hne, Function.update_self]
  · simp only [Scheduler.next, Function.update_of_ne hpq, Function.update_of_ne hpn]
  · simp only [Function.update_of_ne hne, Function.update_self, hid]
  · simp only [Function.update_of_ne hne, Function.update_self, hstate]

/-- **What `create_task` does**: it returns 0 and only the heap's count of failures changes, or it makes
a task behind `task_queue` and returns its id. -/
theorem createTask_cases (heapAddress : UInt32) (hok : s.heap.Ok) (hactive : s.schedulerActive = true)
    (hq : s.taskQueue = some q) (hne : s.heap.heapPos ≠ q) :
    (∃ h : Heap, createTask heapAddress s = (0, { s with heap := h }) ∧ h.Ok ∧ h.heapPos = s.heap.heapPos) ∨
    ∃ s', createTask heapAddress s = (s.nextTaskId, s') ∧ Created s s' q s.heap.heapPos := by
  obtain ⟨hok₁, hk⟩ := kmalloc_small hok taskSize (by decide)
  unfold createTask
  rcases hr : kmalloc s.heap taskSize with ⟨p, h₁⟩
  simp only [hr] at hok₁ hk
  simp only [hactive, not_true_eq_false, if_false]
  rcases hk with ⟨rfl, hpos⟩ | ⟨rfl, hpos⟩
  · exact .inl ⟨h₁, rfl, hok₁, hpos⟩
  · obtain ⟨hok₂, hk₂⟩ := kmalloc_small hok₁ 4096 (by decide)
    have hsize : taskSize.toNat = 20 := rfl
    have hpos₂ : s.heap.heapPos.toNat + 20 ≤ (kmalloc h₁ 4096).2.heapPos.toNat := by
      rcases hk₂ with ⟨-, hpos₂⟩ | ⟨-, hpos₂⟩ <;> rw [hpos₂] <;> omega
    simp only
    generalize (match (kmalloc h₁ 4096).1 with | some p => heapAddress + p | none => 0) + 4096 = esp
    have hcreated := linkTask_created hok₂ hpos₂ hq hne
      (t := { s.task s.heap.heapPos with id := s.nextTaskId, state := 1, esp := esp, ebp := esp }) rfl rfl
    refine .inr ⟨_, Prod.ext ?_ ?_, hcreated⟩
    · exact hcreated.id_new
    · rfl

/-- The ids of the tasks of a ring. -/
def Scheduler.ids (s : Scheduler) (l : List UInt32) : List UInt32 := l.map fun p => (s.task p).id

/-- A new task is at an address no other has. -/
theorem TaskRing.new_not_mem (h : TaskRing s l) : s.heap.heapPos ∉ l :=
  fun hmem => Nat.lt_irrefl _ (h.below _ hmem)

theorem Created.ids (hc : Created s s' q new) (hnew : new ∉ q :: t) :
    (s'.ids (q :: new :: t)).Perm (s.ids (q :: t) ++ [s.nextTaskId]) := by
  rw [List.mem_cons, not_or] at hnew
  have ht : ∀ p ∈ t, (s'.task p).id = (s.task p).id := fun p hp => hc.id p fun he => hnew.2 (he ▸ hp)
  simp only [Scheduler.ids, List.map_cons, hc.id q (Ne.symm hnew.1), hc.id_new, List.map_congr_left ht,
    List.cons_append]
  exact (List.perm_append_singleton _ _).symm.cons _

theorem TaskRing.insert (h : TaskRing s (q :: t)) (hc : Created s s' q s.heap.heapPos) :
    TaskRing s' (q :: s.heap.heapPos :: t) := by
  have hnew := h.new_not_mem
  have hnew' := hnew
  rw [List.mem_cons, not_or] at hnew'
  have hids := hc.ids hnew
  have hbound := h.ok.bounded
  have hpos := hc.heapPos
  have hroom := h.room
  have hnext := h.nextTaskId
  have hmem : ∀ p, p ∈ q :: s.heap.heapPos :: t ↔ p = s.heap.heapPos ∨ p ∈ q :: t := fun p => by
    simp only [List.mem_cons]
    tauto
  have hle : ∀ p ∈ q :: t, (s'.task p).id = (s.task p).id := fun p hp => hc.id p fun he => hnew (he ▸ hp)
  simp only [List.length_cons] at hroom hnext
  obtain ⟨c, hcl, hcurrent⟩ := h.current
  refine ⟨hc.ok, hc.schedulerActive.trans h.active, hc.taskQueue.trans h.queue, ?ring,
    ⟨c, (hmem c).mpr (.inr hcl), hc.currentTask.trans hcurrent⟩, ?below, ?room, ?nextTaskId, ?id, ?ids⟩
  case ring =>
    refine h.ring.insert hnew hc.next_queue hc.next_new fun p hp => hc.next p ?_ fun he => hnew'.2 (he ▸ hp)
    rintro rfl
    exact (List.nodup_cons.mp h.ring.nodup).1 hp
  case below =>
    intro p hp
    rcases (hmem p).mp hp with rfl | hp
    · omega
    · have := h.below p hp
      omega
  case room =>
    simp only [List.length_cons]
    omega
  case nextTaskId =>
    rw [hc.nextTaskId, UInt32.toNat_add, hnext]
    simp only [List.length_cons, UInt32.reduceToNat]
    omega
  case id =>
    intro p hp
    simp only [List.length_cons]
    rcases (hmem p).mp hp with rfl | hp
    · rw [hc.id_new]
      omega
    · have := h.id p hp
      rw [hle p hp]
      simp only [List.length_cons] at this
      omega
  case ids =>
    refine hids.nodup_iff.mpr (List.nodup_append.mpr ⟨h.ids, List.nodup_singleton _, ?_⟩)
    rintro a ha b hb rfl
    obtain ⟨p, hp, rfl⟩ := List.mem_map.mp ha
    have := h.id p hp
    simp only [List.length_cons] at this
    rw [List.mem_singleton] at hb
    rw [← hb] at hnext
    omega

/-! ### Any run -/

/-- The ids `create_task` returned for the tasks it made. -/
def created (replies : List (Option UInt32)) : List UInt32 := replies.reduceOption.filter (· ≠ 0)

/-- **One step keeps the ring**, with the new task's id. -/
theorem TaskRing.step (h : TaskRing s l) (heapAddress : UInt32) (op : TaskOp) :
    ∃ l', TaskRing (taskStep heapAddress s op).2 l' ∧
      ((taskStep heapAddress s op).2.ids l').Perm (s.ids l ++ created [(taskStep heapAddress s op).1]) := by
  cases op with
  | timer esp ebp =>
    have hs := h.timer esp ebp
    refine ⟨l, h.switched hs, ?_⟩
    have hids : (taskStep heapAddress s (.timer esp ebp)).2.ids l = s.ids l :=
      List.map_congr_left fun p _ => hs.id p
    rw [hids]
    exact List.Perm.of_eq (List.append_nil _).symm
  | createTask entryPoint =>
    cases l with
    | nil =>
      obtain ⟨c, hc, -⟩ := h.current
      cases hc
    | cons q t =>
      have hq : s.taskQueue = some q := h.queue
      have hne : s.heap.heapPos ≠ q := fun he => h.new_not_mem (he ▸ List.mem_cons_self)
      rcases createTask_cases heapAddress h.ok h.active hq hne with ⟨heap, heq, hok, hpos⟩ | ⟨s', heq, hc⟩
      · simp only [taskStep, heq]
        refine ⟨q :: t, { h with ok := hok, below := ?_, room := ?_ }, List.Perm.of_eq (List.append_nil _).symm⟩
        · exact hpos ▸ h.below
        · exact hpos ▸ h.room
      · have hid : s.nextTaskId ≠ 0 := by
          intro h0
          have := h.nextTaskId
          rw [h0] at this
          simp at this
        have hcreated : created [some s.nextTaskId] = [s.nextTaskId] := by
          simp [created, List.reduceOption, hid]
        simp only [taskStep, heq, hcreated]
        exact ⟨_, h.insert hc, hc.ids h.new_not_mem⟩

/-- Any run keeps the ring, with the new tasks' ids. -/
theorem TaskRing.run_ids (h : TaskRing s l) (heapAddress : UInt32) (ops : List TaskOp) :
    ∃ l', TaskRing (run (taskStep heapAddress) s ops).2 l' ∧
      ((run (taskStep heapAddress) s ops).2.ids l').Perm
        (s.ids l ++ created (run (taskStep heapAddress) s ops).1) := by
  induction ops generalizing s l with
  | nil => exact ⟨l, h, List.Perm.of_eq (List.append_nil _).symm⟩
  | cons op ops ih =>
    obtain ⟨l₁, h₁, hids₁⟩ := h.step heapAddress op
    obtain ⟨l₂, h₂, hids₂⟩ := ih h₁
    refine ⟨l₂, h₂, hids₂.trans ?_⟩
    have happend : created (run (taskStep heapAddress) s (op :: ops)).1 =
        created [(taskStep heapAddress s op).1] ++
          created (run (taskStep heapAddress) (taskStep heapAddress s op).2 ops).1 := by
      simp only [created, run_cons, ← List.filter_append, ← List.reduceOption_append, List.singleton_append]
    rw [happend, ← List.append_assoc]
    exact hids₁.append_right _

/-- The main task, alone in the ring. -/
theorem initScheduler_ring {heap : Heap} {task : UInt32 → Task} (hok : heap.Ok)
    (hinit : (initScheduler (.initial heap task)).schedulerActive = true) :
    let s := initScheduler (.initial heap task)
    TaskRing s [heap.heapPos] ∧ s.ids [heap.heapPos] = [1] ∧ (s.task heap.heapPos).state = 0 := by
  obtain ⟨hok₁, hk⟩ := kmalloc_small hok taskSize (by decide)
  have hsize : taskSize.toNat = 20 := rfl
  unfold initScheduler at hinit ⊢
  rcases hr : kmalloc heap taskSize with ⟨p, h₁⟩
  simp only [hr] at hok₁ hk
  simp only [Scheduler.initial, hr] at hinit ⊢
  rcases hk with ⟨rfl, -⟩ | ⟨rfl, hpos⟩
  · cases hinit
  · have htask : ∀ t : Task, Function.update task heap.heapPos t heap.heapPos = t := fun t => Function.update_self ..
    simp only [Scheduler.setTask, Scheduler.ids, List.map_singleton, htask, and_true]
    refine ⟨hok₁, rfl, rfl, .single ?_, ⟨_, List.mem_singleton_self _, rfl⟩, fun p hp => ?_, ?_, rfl,
      fun p hp => ?_, List.nodup_singleton _⟩
    · simp only [Scheduler.next, htask]
    · rw [List.mem_singleton.mp hp]
      change heap.heapPos.toNat < h₁.heapPos.toNat
      omega
    · change 20 * 1 ≤ h₁.heapPos.toNat
      omega
    · rw [List.mem_singleton.mp hp]
      simp only [htask]
      exact ⟨by decide, le_refl 1⟩

/-! ### The ring -/

/-- The tasks the links lead to from `current_task` on, in `k` steps. -/
def visited (s : Scheduler) (k : ℕ) : List Ptr := (List.range k).map fun i => s.currentTask.bind (walk s.next i)

/-- The tasks that switches with these registers make current, one after the other. -/
def currents : Scheduler → List (UInt32 × UInt32) → List Ptr
  | _, [] => []
  | s, r :: rs =>
    let s' := timerCallback { s with esp := r.1, ebp := r.2 }
    s'.currentTask :: currents s' rs

/-- What is asked of the tasks with these ids. -/
structure VisitsAll (s : Scheduler) (ids : List UInt32) : Prop where
  /-- Each is visited once. -/
  visits : ((visited s ids.length).map fun p => p.map fun a => (s.task a).id).Perm (ids.map some)
  /-- The links come back after as many steps as there are tasks. -/
  back : s.currentTask.bind (walk s.next ids.length) = s.currentTask
  /-- No id is 0. -/
  nonzero : 0 ∉ ids
  /-- No two ids are the same. -/
  distinct : ids.Nodup
  /-- As many switches as there are tasks make each current once. -/
  switches : ∀ regs : List (UInt32 × UInt32), regs.length = ids.length →
    (currents s regs).Perm (visited s ids.length)

/-- Switches go along the links. -/
theorem TaskRing.currents (h : TaskRing s l) {c : UInt32} (hc : s.currentTask = some c)
    (regs : List (UInt32 × UInt32)) :
    currents s regs = (List.range regs.length).map fun k => walk s.next (k + 1) c := by
  induction regs generalizing s c with
  | nil => rfl
  | cons r regs ih =>
    have hs := h.timer r.1 r.2
    have hcl : c ∈ l := by
      obtain ⟨c', hc', hcurrent⟩ := h.current
      rw [hc] at hcurrent
      cases hcurrent
      exact hc'
    obtain ⟨n, -, hn⟩ := h.next_mem hcl
    have hcurrent := hs.currentTask.trans (by rw [hc, Option.bind_some, hn])
    rw [Kernel.currents, ih (h.switched hs) hcurrent, List.length_cons, List.range_succ_eq_map, List.map_cons,
      List.map_map, hcurrent, hs.next]
    congr 1
    · simp [walk, hn]
    · refine List.map_congr_left fun k _ => ?_
      simp only [Function.comp]
      rw [walk.eq_def s.next (k.succ + 1)]
      simp only [hn, Option.bind_some]

/-- What the invariant says of the tasks. -/
theorem TaskRing.visitsAll (h : TaskRing s l) {ids : List UInt32} (hids : (s.ids l).Perm ids) :
    VisitsAll s ids := by
  obtain ⟨c, hcl, hc⟩ := h.current
  obtain ⟨t, hr, hring⟩ := h.ring.from_mem hcl
  have hlen : ids.length = (c :: t).length := by
    rw [← hids.length_eq, ← hr.perm.length_eq, Scheduler.ids, List.length_map]
  have hvisited : visited s ids.length = (c :: t).map some := by
    simp only [visited, hc, Option.bind_some, hlen, hring.orbit]
  refine ⟨?_, ?_, fun h0 => ?_, hids.nodup_iff.mp h.ids, fun regs hregs => ?_⟩
  · rw [hvisited, List.map_map]
    have hmap : (List.map ((fun p : Ptr => p.map fun a => (s.task a).id) ∘ some) (c :: t)) =
        (s.ids (c :: t)).map some := by rw [Scheduler.ids, List.map_map]; rfl
    rw [hmap]
    exact ((hr.perm.symm.map _).trans hids).map some
  · rw [hc, Option.bind_some, hlen, hring.walk_length]
  · obtain ⟨p, hp, hid⟩ := List.mem_map.mp (hids.mem_iff.mpr h0)
    have := h.id p hp
    rw [hid] at this
    simp at this
  · rw [h.currents hc, hvisited, hregs, hlen, hring.orbit_succ]
    exact (List.perm_append_singleton c t).map some

/-- **The ring of tasks**, after any run: the main task's id is 1. -/
theorem tasks_ring {heap : Heap} (hok : heap.Ok) (task : UInt32 → Task)
    (hinit : (initScheduler (.initial heap task)).schedulerActive = true) (heapAddress : UInt32)
    (ops : List TaskOp) :
    let r := run (taskStep heapAddress) (initScheduler (.initial heap task)) ops
    VisitsAll r.2 (1 :: created r.1) := by
  obtain ⟨hring, hids, -⟩ := initScheduler_ring hok hinit
  obtain ⟨l, hl, hperm⟩ := hring.run_ids heapAddress ops
  rw [hids] at hperm
  exact hl.visitsAll hperm

/-- Two tasks created, with switches between. -/
def smallOps : List TaskOp := [.timer 1 2, .createTask 0, .timer 3 4, .timer 5 6, .createTask 0, .timer 7 8]

theorem tasks_ring_small :
    VisitsAll (run (taskStep 0x8000) (initScheduler (.initial .initial fun _ => ⟨0, 0, 0, 0, none⟩)) smallOps).2
      [1, 2, 3] :=
  tasks_ring Heap.initial_ok (fun _ => ⟨0, 0, 0, 0, none⟩) rfl 0x8000 smallOps

/-! ### The mark of the running task -/

/-- A task the links lead to from `current_task`. -/
def InRing (s : Scheduler) (p : UInt32) : Prop := ∃ c, s.currentTask = some c ∧ ∃ k, walk s.next k c = some p

/-- Of the tasks in the ring, the one that is current is marked as running and the others as ready. -/
def OneRunning (s : Scheduler) : Prop :=
  (∃ c, s.currentTask = some c) ∧ ∀ p, InRing s p → (s.task p).state = if s.currentTask = some p then 0 else 1

/-- A switch leads back to the task that is current: there is no other. -/
def Alone (s : Scheduler) : TaskOp → Prop
  | .createTask _ => True
  | .timer _ _ => s.currentTask.bind s.next = s.currentTask

theorem TaskRing.inRing_iff (h : TaskRing s l) (p : UInt32) : InRing s p ↔ p ∈ l := by
  obtain ⟨c, hcl, hc⟩ := h.current
  obtain ⟨t, hr, hring⟩ := h.ring.from_mem hcl
  rw [hr.mem_iff, ← hring.walk_eq_some]
  constructor
  · rintro ⟨c', hc', hwalk⟩
    rw [hc] at hc'
    cases hc'
    exact hwalk
  · exact fun hwalk => ⟨c, hc, hwalk⟩

theorem TaskRing.oneRunning_mem (h : TaskRing s l) :
    OneRunning s ↔ ∀ p ∈ l, (s.task p).state = if s.currentTask = some p then 0 else 1 := by
  obtain ⟨c, -, hc⟩ := h.current
  exact ⟨fun hone p hp => hone.2 p ((h.inRing_iff p).mpr hp),
    fun hl => ⟨⟨c, hc⟩, fun p hp => hl p ((h.inRing_iff p).mp hp)⟩⟩

/-- A switch leaves the marks as they are, so it must lead back to the task that is current. -/
theorem TaskRing.oneRunning_timer (h : TaskRing s l) (hone : OneRunning s) (esp ebp : UInt32) :
    OneRunning (timerCallback { s with esp := esp, ebp := ebp }) ↔ s.currentTask.bind s.next = s.currentTask := by
  have hs := h.timer esp ebp
  have hstate := h.oneRunning_mem.mp hone
  rw [(h.switched hs).oneRunning_mem, hs.currentTask]
  constructor
  · intro hstate'
    obtain ⟨c, hcl, hc⟩ := h.current
    obtain ⟨n, hn, hnext⟩ := h.next_mem hcl
    have hrun := hstate' n hn
    rw [hs.state, hstate n hn, hc, Option.bind_some, hnext, if_pos rfl] at hrun
    rw [hc, Option.bind_some, hnext]
    by_contra hne
    rw [if_neg (Ne.symm hne)] at hrun
    cases hrun
  · intro halone p hp
    rw [hs.state, halone]
    exact hstate p hp

/-- A new task is marked as ready, and is not current. -/
theorem TaskRing.oneRunning_created (h : TaskRing s (q :: t)) (hc : Created s s' q s.heap.heapPos)
    (hone : OneRunning s) : OneRunning s' := by
  have hstate := h.oneRunning_mem.mp hone
  obtain ⟨c, hcl, hcurrent⟩ := h.current
  rw [(h.insert hc).oneRunning_mem, hc.currentTask]
  intro p hp
  by_cases hnew : p = s.heap.heapPos
  · subst hnew
    rw [hc.state_new, if_neg]
    rw [hcurrent]
    rintro ⟨⟩
    exact h.new_not_mem hcl
  · rw [hc.state p hnew]
    refine hstate p ?_
    simp only [List.mem_cons] at hp ⊢
    exact hp.imp_right fun hp => hp.resolve_left hnew

/-- A step keeps the marks if it is not a switch between two tasks. -/
theorem TaskRing.oneRunning_step (h : TaskRing s l) (hone : OneRunning s) (heapAddress : UInt32) (op : TaskOp) :
    OneRunning (taskStep heapAddress s op).2 ↔ Alone s op := by
  cases op with
  | timer esp ebp => exact h.oneRunning_timer hone esp ebp
  | createTask entryPoint =>
    refine iff_of_true ?_ trivial
    cases l with
    | nil =>
      obtain ⟨c, hc, -⟩ := h.current
      cases hc
    | cons q t =>
      have hne : s.heap.heapPos ≠ q := fun he => h.new_not_mem (he ▸ List.mem_cons_self)
      rcases createTask_cases heapAddress h.ok h.active h.queue hne with ⟨heap, heq, -, -⟩ | ⟨s', heq, hc⟩ <;>
        simp only [taskStep, heq]
      · exact hone
      · exact h.oneRunning_created hc hone

/-- **When the task that is current is the one marked as running**, in every state of a run: when no
switch of the run is made while there is more than one task. -/
theorem oneRunning_iff {heap : Heap} (hok : heap.Ok) (task : UInt32 → Task)
    (hinit : (initScheduler (.initial heap task)).schedulerActive = true) (heapAddress : UInt32)
    (ops : List TaskOp) :
    (∀ n, OneRunning (run (taskStep heapAddress) (initScheduler (.initial heap task)) (ops.take n)).2) ↔
      Along (taskStep heapAddress) Alone (initScheduler (.initial heap task)) ops := by
  obtain ⟨hring, -, hstate⟩ := initScheduler_ring hok hinit
  refine always_iff_along (J := fun s => ∃ l, TaskRing s l) ?_ ?_ ⟨_, hring⟩ ?_ ops
  · rintro s op ⟨l, hl⟩
    obtain ⟨l', hl', -⟩ := hl.step heapAddress op
    exact ⟨l', hl'⟩
  · rintro s op ⟨l, hl⟩ hone
    exact hl.oneRunning_step hone heapAddress op
  · obtain ⟨c, hcl, hc⟩ := hring.current
    rw [List.mem_singleton] at hcl
    refine hring.oneRunning_mem.mpr fun p hp => ?_
    rw [List.mem_singleton.mp hp, hstate, hc, hcl, if_pos rfl]

theorem oneRunning_small :
    OneRunning (run (taskStep 0x8000) (initScheduler (.initial .initial fun _ => ⟨0, 0, 0, 0, none⟩))
      (([.timer 1 2, .createTask 0] : List TaskOp).take 2)).2 :=
  (oneRunning_iff Heap.initial_ok (fun _ => ⟨0, 0, 0, 0, none⟩) rfl 0x8000
    [.timer 1 2, .createTask 0]).mpr ⟨rfl, trivial, trivial⟩ 2

/-- A task created, and a switch to it: it is current, and marked as ready. -/
theorem not_forall_oneRunning : ¬ ∀ (heap : Heap) (task : UInt32 → Task), heap.Ok →
    (initScheduler (.initial heap task)).schedulerActive = true → ∀ (heapAddress : UInt32) (ops : List TaskOp),
      OneRunning (run (taskStep heapAddress) (initScheduler (.initial heap task)) ops).2 := by
  intro h
  obtain ⟨-, hstate⟩ := h .initial (fun _ => ⟨0, 0, 0, 0, none⟩) Heap.initial_ok rfl 0x8000
    [.createTask 0, .timer 1 2]
  have hready := hstate 20 ⟨20, by decide +kernel, 0, rfl⟩
  revert hready
  decide +kernel

end Basedos.Kernel
