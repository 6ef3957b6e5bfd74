import Basedos.Kernel.Tasks

/-!
# The stacks of the tasks

`create_task` takes two blocks from the heap, one for the task and 4096 bytes for its stack. It
tests the first for `NULL` and not the second: 4096 is added to what `kmalloc` returned, and the sum is
where the new task's stack begins.

## The model

A stack is told by the registers stored in its task: they point to the end of the block
(`StackAt`). The main task runs on the stack the kernel was started on and has none in the heap.

## What is proved

`createTask_stacks_iff` — **when every task has a stack of its own**: a run of calls of `create_task` all either
return 0 and leave the ring of tasks as it was, or give the new task a block apart from every task and
every other stack, just when no call of the run finds room for the task and none for the stack.
-/

namespace Basedos.Kernel

open Basedos.Lib

/-! ### What is asked of a call -/

/-- The registers stored in a task point to the end of the 4096 bytes at `b` in the heap. -/
structure StackAt (heapAddress : UInt32) (t : Task) (b : UInt32) : Prop where
  esp : t.esp = heapAddress + b + 4096
  ebp : t.ebp = t.esp

/-- A call that returns 0, and leaves the tasks and their ring as they were. -/
structure FailsCleanly (heapAddress : UInt32) (s : Scheduler) : Prop where
  ret : (createTask heapAddress s).1 = 0
  task : (createTask heapAddress s).2.task = s.task
  currentTask : (createTask heapAddress s).2.currentTask = s.currentTask
  taskQueue : (createTask heapAddress s).2.taskQueue = s.taskQueue

/-- A call that returns a new id and links in the task at `new`, with the stack at `b`. -/
structure GivesStack (heapAddress main : UInt32) (s : Scheduler) (new b : UInt32) : Prop where
  /-- The id returned is the new task's, and no other's. -/
  id : ((createTask heapAddress s).2.task new).id = (createTask heapAddress s).1
  nonzero : (createTask heapAddress s).1 ≠ 0
  newId : ∀ p, InRing s p → (s.task p).id ≠ (createTask heapAddress s).1
  /-- The new task is linked in, and no other is. -/
  fresh : ¬ InRing s new
  linked : ∀ p, InRing (createTask heapAddress s).2 p ↔ p = new ∨ InRing s p
  /-- The stack is a block from `kmalloc`, inside the heap. -/
  block : (kmalloc (kmalloc s.heap taskSize).2 4096).1 = some b
  inside : b.toNat + 4096 ≤ 0x10000
  stack : StackAt heapAddress ((createTask heapAddress s).2.task new) b
  /-- It overlaps no task, and the stack of no other. -/
  apartTask : ∀ p, InRing (createTask heapAddress s).2 p → Apart b 4096 p 20
  apartStack : ∀ p c, InRing s p → p ≠ main → StackAt heapAddress (s.task p) c → Apart b 4096 c 4096

/-- **What is asked of a call of `create_task`**: it fails and leaves the ring, or it gives the new task a stack
of its own. -/
def CreatesSoundly (heapAddress main : UInt32) (s : Scheduler) : Prop :=
  FailsCleanly heapAddress s ∨ ∃ new b, GivesStack heapAddress main s new b

/-- If there is room for the task, there is room for its stack. -/
def StackFits (s : Scheduler) : Prop :=
  s.schedulerActive = true → s.heap.heapPos.toNat + 20 ≤ 0x10000 → s.heap.heapPos.toNat + 20 + 4096 ≤ 0x10000

instance (s : Scheduler) : Decidable (StackFits s) := inferInstanceAs (Decidable (_ → _ → _))

/-- One call. -/
def createStep (heapAddress : UInt32) (s : Scheduler) (_entryPoint : UInt32) : UInt32 × Scheduler :=
  createTask heapAddress s

variable {heapAddress main : UInt32} {s s' : Scheduler} {l t : List UInt32} {q new b c : UInt32}

/-- The registers tell where the stack is. -/
theorem StackAt.unique {t : Task} (h : StackAt heapAddress t b) (h' : StackAt heapAddress t c) : c = b := by
  have hesp := h'.esp.symm.trans h.esp
  rwa [UInt32.add_left_inj, UInt32.add_right_inj] at hesp

/-! ### What a call does -/

/-- The registers stored, after a task is filled in and linked in. -/
theorem linkTask_registers {h : Heap} {t : Task} {n : UInt32} (hq : s.taskQueue = some q) (hne : new ≠ q) :
    let s' := linkTask { s.setTask new t with heap := h, nextTaskId := n } new
    s'.heap = h ∧ (s'.task new).esp = t.esp ∧ (s'.task new).ebp = t.ebp ∧
      ∀ p, p ≠ new → (s'.task p).esp = (s.task p).esp ∧ (s'.task p).ebp = (s.task p).ebp := by
  intro s'
  have heq : s' = _ := linkTask_eq (s := { s.setTask new t with heap := h, nextTaskId := n }) hq hne
  rw [heq]
  simp only [Scheduler.setTask, Function.update_self, Function.update_of_ne hne.symm, Function.update_idem]
  refine ⟨trivial, ?_, ?_, fun p hp => ?_⟩
  · rw [Function.update_of_ne hne, Function.update_self]
  · rw [Function.update_of_ne hne, Function.update_self]
  · by_cases hpq : p = q
    · rw [hpq, Function.update_self]
      exact ⟨rfl, rfl⟩
    · rw [Function.update_of_ne hpq, Function.update_of_ne hp]
      exact ⟨rfl, rfl⟩

/-- Linking a task in does not change its id. -/
theorem linkTask_id (hq : s.taskQueue = some q) (hne : new ≠ q) :
    ((linkTask s new).task new).id = (s.task new).id := by
  simp only [linkTask_eq hq hne, Function.update_of_ne hne, Function.update_self]

/-- A block of a size that fits. -/
theorem kmalloc_room {h : Heap} (hok : h.Ok) {size : UInt32} (hfit : h.heapPos.toNat + size.toNat ≤ 0x10000) :
    (kmalloc h size).1 = some h.heapPos ∧ (kmalloc h size).2.Ok ∧
      (kmalloc h size).2.heapPos.toNat = h.heapPos.toNat + (size.toNat + 3) / 4 * 4 := by
  have hok' := kmalloc_ok hok size
  rcases kmalloc_cases h size with ⟨hlt, -⟩ | ⟨-, heq⟩
  · omega
  · rw [heq] at hok' ⊢
    exact ⟨rfl, hok', toNat_heapPos_add hok hfit⟩

/-- A block of a small size that does not fit. -/
theorem kmalloc_noRoom {h : Heap} (hok : h.Ok) {size : UInt32} (hsize : size.toNat ≤ 4096)
    (hfull : 0x10000 < h.heapPos.toNat + size.toNat) :
    kmalloc h size = (none, { h with failures := h.failures + 1 }) := by
  have := hok.bounded
  rcases kmalloc_cases h size with ⟨-, heq⟩ | ⟨hle, -⟩
  · exact heq
  · omega

/-- What a call does that finds room for both blocks: the stack at `b` is the 4096 bytes behind the task. -/
structure WithStack (heapAddress : UInt32) (s s' : Scheduler) (queue b : UInt32) : Prop where
  created : Created s s' queue s.heap.heapPos
  block : (kmalloc (kmalloc s.heap taskSize).2 4096).1 = some b
  behind : b.toNat = s.heap.heapPos.toNat + 20
  heapPos : s'.heap.heapPos.toNat = b.toNat + 4096
  stack : StackAt heapAddress (s'.task s.heap.heapPos) b
  esp : ∀ p, p ≠ s.heap.heapPos → (s'.task p).esp = (s.task p).esp
  ebp : ∀ p, p ≠ s.heap.heapPos → (s'.task p).ebp = (s.task p).ebp

theorem createTask_room (heapAddress : UInt32) (hok : s.heap.Ok) (hactive : s.schedulerActive = true)
    (hq : s.taskQueue = some q) (hne : s.heap.heapPos ≠ q) (hfit : s.heap.heapPos.toNat + 20 + 4096 ≤ 0x10000) :
    ∃ s' b, createTask heapAddress s = (s.nextTaskId, s') ∧ WithStack heapAddress s s' q b := by
  have hsize : taskSize.toNat = 20 := rfl
  have hstack : (4096 : UInt32).toNat = 4096 := rfl
  obtain ⟨hk, hok₁, hpos⟩ := kmalloc_room hok (show s.heap.heapPos.toNat + taskSize.toNat ≤ 0x10000 by omega)
  rcases hr : kmalloc s.heap taskSize with ⟨p, h₁⟩
  simp only [hr] at hk hok₁ hpos
  subst hk
  obtain ⟨hk₂, hok₂, hpos₂⟩ := kmalloc_room hok₁ (show h₁.heapPos.toNat + (4096 : UInt32).toNat ≤ 0x10000 by omega)
  simp only [createTask, hactive, not_true_eq_false, if_false, hr, hk₂]
  have hcreated := linkTask_created hok₂ (show s.heap.heapPos.toNat + 20 ≤ _ by omega) hq hne
    (t := { s.task s.heap.heapPos with
      id := s.nextTaskId, state := 1, esp := heapAddress + h₁.heapPos + 4096,
      ebp := heapAddress + h₁.heapPos + 4096 }) rfl rfl
  obtain ⟨hheap, hesp, hebp, hothers⟩ := linkTask_registers (h := (kmalloc h₁ 4096).2) (n := s.nextTaskId + 1)
    (t := { s.task s.heap.heapPos with
      id := s.nextTaskId, state := 1, esp := heapAddress + h₁.heapPos + 4096,
      ebp := heapAddress + h₁.heapPos + 4096 }) hq hne
  refine ⟨_, h₁.heapPos, Prod.ext hcreated.id_new rfl, hcreated, ?_, by omega, ?_, ⟨hesp, hebp.trans hesp.symm⟩,
    fun p hp => (hothers p hp).1, fun p hp => (hothers p hp).2⟩
  · rw [hr, hk₂]
  · rw [hheap]
    omega

/-- A call that finds room for the task returns its id, whether or not there is room for the stack. -/
theorem createTask_ret (heapAddress : UInt32) (hok : s.heap.Ok) (hactive : s.schedulerActive = true)
    (hq : s.taskQueue = some q) (hne : s.heap.heapPos ≠ q) (hroom : s.heap.heapPos.toNat + 20 ≤ 0x10000) :
    (createTask heapAddress s).1 = s.nextTaskId := by
  obtain ⟨hk, -, -⟩ := kmalloc_room hok (show s.heap.heapPos.toNat + taskSize.toNat ≤ 0x10000 from hroom)
  rcases hr : kmalloc s.heap taskSize with ⟨p, h₁⟩
  simp only [hr] at hk
  subst hk
  simp only [createTask, hactive, not_true_eq_false, if_false, hr]
  refine (linkTask_id ?_ hne).trans ?_
  · exact hq
  · simp only [Scheduler.setTask, Function.update_self]

/-- A call that finds no room for the task. -/
theorem createTask_noRoom (heapAddress : UInt32) (hok : s.heap.Ok) (hactive : s.schedulerActive = true)
    (hfull : 0x10000 < s.heap.heapPos.toNat + 20) :
    createTask heapAddress s = (0, { s with heap := { s.heap with failures := s.heap.failures + 1 } }) := by
  have hsize : taskSize.toNat = 20 := rfl
  have hk := kmalloc_noRoom hok (show taskSize.toNat ≤ 4096 by omega) (by omega)
  simp only [createTask, hactive, not_true_eq_false, if_false, hk]

/-! ### The stacks there are -/

/-- The tasks `l` and their stacks, in the part of the heap handed out. -/
structure Stacked (heapAddress main : UInt32) (s : Scheduler) (l : List UInt32) : Prop where
  ring : TaskRing s l
  room : ∀ p ∈ l, p.toNat + 20 ≤ s.heap.heapPos.toNat
  stack : ∀ p ∈ l, p ≠ main → ∃ b, StackAt heapAddress (s.task p) b ∧ b.toNat + 4096 ≤ s.heap.heapPos.toNat

theorem mem_insert {p : UInt32} : p ∈ q :: new :: t ↔ p = new ∨ p ∈ q :: t := by
  simp only [List.mem_cons]
  exact or_left_comm

/-- The new stack lies behind everything handed out before. -/
theorem Stacked.givesStack (h : Stacked heapAddress main s (q :: t)) (hw : WithStack heapAddress s s' q b)
    (heq : createTask heapAddress s = (s.nextTaskId, s')) (hfit : b.toNat + 4096 ≤ 0x10000) :
    GivesStack heapAddress main s s.heap.heapPos b := by
  have hring := h.ring.insert hw.created
  have hids := h.ring.nextTaskId
  have hbehind := hw.behind
  have hlinked : ∀ p, InRing s' p ↔ p = s.heap.heapPos ∨ InRing s p := by
    intro p
    rw [hring.inRing_iff, h.ring.inRing_iff, mem_insert]
  constructor
  case id => rw [heq]; exact hw.created.id_new
  case nonzero =>
    rw [heq]
    intro h0
    simp only at h0
    rw [h0] at hids
    simp at hids
  case newId =>
    rw [heq]
    intro p hp hid
    have hle := (h.ring.id p ((h.ring.inRing_iff p).mp hp)).2
    rw [hid, hids] at hle
    omega
  case fresh => rw [h.ring.inRing_iff]; exact h.ring.new_not_mem
  case linked => rw [heq]; exact hlinked
  case block => exact hw.block
  case inside => exact hfit
  case stack => rw [heq]; exact hw.stack
  case apartTask =>
    rw [heq]
    intro p hp
    rcases (hlinked p).mp hp with rfl | hp
    · exact .inr (by omega)
    · have := h.room p ((h.ring.inRing_iff p).mp hp)
      exact .inr (by omega)
  case apartStack =>
    intro p c hp hmain hc
    obtain ⟨b', hb', hbelow⟩ := h.stack p ((h.ring.inRing_iff p).mp hp) hmain
    rw [hb'.unique hc]
    exact .inr (by omega)

theorem Stacked.insert (h : Stacked heapAddress main s (q :: t)) (hw : WithStack heapAddress s s' q b) :
    Stacked heapAddress main s' (q :: s.heap.heapPos :: t) := by
  have hbehind := hw.behind
  have hpos := hw.heapPos
  refine ⟨h.ring.insert hw.created, fun p hp => ?_, fun p hp hmain => ?_⟩
  · rcases mem_insert.mp hp with rfl | hp
    · omega
    · have := h.room p hp
      omega
  · rcases mem_insert.mp hp with rfl | hp
    · exact ⟨b, hw.stack, by omega⟩
    · obtain ⟨c, hc, hbelow⟩ := h.stack p hp hmain
      have hne : p ≠ s.heap.heapPos := fun he => h.ring.new_not_mem (he ▸ hp)
      exact ⟨c, ⟨(hw.esp p hne).trans hc.esp, (hw.ebp p hne).trans (hc.ebp.trans (hw.esp p hne).symm)⟩, by omega⟩

/-- **A call that fits** does what is asked of it. -/
theorem Stacked.creates (h : Stacked heapAddress main s l) (hfits : StackFits s) :
    CreatesSoundly heapAddress main s ∧ ∃ l', Stacked heapAddress main (createTask heapAddress s).2 l' := by
  by_cases hroom : s.heap.heapPos.toNat + 20 ≤ 0x10000
  · have hfit := hfits h.ring.active hroom
    cases l with
    | nil =>
      obtain ⟨c, hc, -⟩ := h.ring.current
      cases hc
    | cons q t =>
      have hne : s.heap.heapPos ≠ q := fun he => h.ring.new_not_mem (he ▸ List.mem_cons_self)
      obtain ⟨s', b, heq, hw⟩ := createTask_room heapAddress h.ring.ok h.ring.active h.ring.queue hne hfit
      have hbehind := hw.behind
      refine ⟨.inr ⟨_, b, h.givesStack hw heq (by omega)⟩, q :: s.heap.heapPos :: t, ?_⟩
      rw [heq]
      exact h.insert hw
  · have heq := createTask_noRoom heapAddress h.ring.ok h.ring.active (Nat.not_le.mp hroom)
    refine ⟨.inl ?_, l, ?_⟩
    · constructor <;> rw [heq]
    · rw [heq]
      exact ⟨{ h.ring with ok := ⟨h.ring.ok.aligned, h.ring.ok.bounded⟩ }, h.room, h.stack⟩

/-- **A call that finds room for the task and none for its stack** links the task in all the same. -/
theorem Stacked.not_creates (h : Stacked heapAddress main s l) (hno : ¬ StackFits s) :
    ¬ CreatesSoundly heapAddress main s := by
  simp only [StackFits, h.ring.active, forall_const, Classical.not_imp, Nat.not_le] at hno
  obtain ⟨hroom, hfull⟩ := hno
  have hsize : taskSize.toNat = 20 := rfl
  have hstack : (4096 : UInt32).toNat = 4096 := rfl
  obtain ⟨hk, hok₁, hpos⟩ := kmalloc_room h.ring.ok (show s.heap.heapPos.toNat + taskSize.toNat ≤ 0x10000 by omega)
  have hnone := kmalloc_noRoom hok₁ hstack.le (by omega)
  rintro (hfails | ⟨new, b, hgives⟩)
  · cases l with
    | nil =>
      obtain ⟨c, hc, -⟩ := h.ring.current
      cases hc
    | cons q t =>
      have hne : s.heap.heapPos ≠ q := fun he => h.ring.new_not_mem (he ▸ List.mem_cons_self)
      have hret := createTask_ret heapAddress h.ring.ok h.ring.active h.ring.queue hne hroom
      have hids := h.ring.nextTaskId
      rw [← hret, hfails.ret] at hids
      simp at hids
  · have hblock := hgives.block
    rw [hnone] at hblock
    cases hblock

/-! ### Runs -/

/-- The main task, and no stack in the heap. -/
theorem initScheduler_stacked {heap : Heap} {task : UInt32 → Task} (heapAddress : UInt32) (hok : heap.Ok)
    (hinit : (initScheduler (.initial heap task)).schedulerActive = true) :
    Stacked heapAddress heap.heapPos (initScheduler (.initial heap task)) [heap.heapPos] := by
  have hring := (initScheduler_ring hok hinit).1
  refine ⟨hring, fun p hp => ?_, fun p hp hmain => absurd (List.mem_singleton.mp hp) hmain⟩
  rw [List.mem_singleton.mp hp]
  have hsize : taskSize.toNat = 20 := rfl
  obtain ⟨-, hk⟩ := kmalloc_small hok taskSize (by decide)
  unfold initScheduler at hinit ⊢
  rcases hr : kmalloc heap taskSize with ⟨p, h₁⟩
  simp only [hr] at hk
  simp only [Scheduler.initial, hr] at hinit ⊢
  rcases hk with ⟨rfl, -⟩ | ⟨rfl, hpos⟩
  · cases hinit
  · simp only
    omega

/-- **When every task has a stack of its own**: in a run of calls of `create_task`, from any state of the heap,
each call either fails and leaves the ring or gives the new task a stack of its own, just when none of
them finds room for the task and none for the stack. -/
theorem createTask_stacks_iff {heap : Heap} (hok : heap.Ok) (task : UInt32 → Task) (heapAddress : UInt32)
    (calls : List UInt32) :
    Along (createStep heapAddress) (fun s _ => CreatesSoundly heapAddress heap.heapPos s)
        (initScheduler (.initial heap task)) calls ↔
      Along (createStep heapAddress) (fun s _ => StackFits s) (initScheduler (.initial heap task)) calls := by
  refine along_congr_of (J := fun s => s.schedulerActive = false ∨ ∃ l, Stacked heapAddress heap.heapPos s l)
    ?_ ?_ ?_ calls
  · rintro s _ (hinactive | ⟨l, h⟩) hfits
    · refine .inl ?_
      simp only [createStep, createTask, hinactive, Bool.false_eq_true, not_false_eq_true, if_true]
    · exact .inr (h.creates hfits).2
  · rintro s _ (hinactive | ⟨l, h⟩)
    · refine iff_of_true (.inl ?_) fun hactive => ?_
      · constructor <;>
          simp only [createTask, hinactive, Bool.false_eq_true, not_false_eq_true, if_true]
      · rw [hinactive] at hactive
        cases hactive
    · exact ⟨fun hs => by_contra fun hno => h.not_creates hno hs, fun hfits => (h.creates hfits).1⟩
  · cases hinit : (initScheduler (.initial heap task)).schedulerActive with
    | false => exact .inl rfl
    | true => exact .inr ⟨_, initScheduler_stacked heapAddress hok hinit⟩

/-- Two tasks, in an empty heap. -/
theorem createTask_stacks_small :
    Along (createStep 0x8000) (fun s _ => CreatesSoundly 0x8000 0 s)
      (initScheduler (.initial .initial fun _ => ⟨0, 0, 0, 0, none⟩)) [0, 0] :=
  (createTask_stacks_iff Heap.initial_ok (fun _ => ⟨0, 0, 0, 0, none⟩) 0x8000 [0, 0]).mpr (by decide +kernel)

/-- A heap with 60 bytes left, where the main task is made: the next call returns the id 2, and the
stack of the new task ends at 4096. -/
theorem not_forall_createsSoundly :
    let heap := (kmalloc .initial 65476).2
    let s := initScheduler (.initial heap fun _ => ⟨0, 0, 0, 0, none⟩)
    heap.Ok ∧ (createTask 0x8000 s).1 = 2 ∧ ((createTask 0x8000 s).2.task 65496).esp = 4096 ∧
      ¬ CreatesSoundly 0x8000 heap.heapPos s := by
  have hok : (kmalloc .initial 65476).2.Ok := kmalloc_ok Heap.initial_ok 65476
  refine ⟨hok, by decide +kernel, by decide +kernel, fun hs => ?_⟩
  exact (initScheduler_stacked 0x8000 hok (by decide +kernel)).not_creates (by decide +kernel) hs

end Basedos.Kernel
