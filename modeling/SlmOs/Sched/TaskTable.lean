import SlmOs.Foundation.Transition
import SlmOs.Sched.Kernel
import SlmOs.Vmm.PageTable

/-!
# The task table and the reuse of its slots

`kernel/sched/task.c` keeps all tasks in one table.  A slot is free if its `id` is
zero; the functions that create a task take the first free slot and write its
fields one by one, and `task_destroy` clears some of them.  A field that no creator
writes keeps what the task before has left in it.

The fields are those that the scheduler, the sleep queue, IPC and the priority
inheritance read, in the ARM64 build.  Slots are numbers, addresses too.
-/

namespace SlmOs.Sched.Reuse

open Function Foundation Vmm

/-! ## Slots -/

structure CpuContext where
  x19 : Nat := 0
  x20 : Nat := 0
  x21 : Nat := 0
  /-- `x22` to `x28`. -/
  calleeSaved : List Nat := List.replicate 7 0
  x29 : Nat := 0
  x30 : Nat := 0
  sp : Nat := 0
  v : List Nat := List.replicate 32 0
  fpcr : Nat := 0
  fpsr : Nat := 0
  daif : Nat := 0
  deriving DecidableEq, Repr

@[ext]
structure TaskFlags where
  idle : Bool := false
  wakeupPending : Bool := false
  deriving DecidableEq, Repr

/-- `struct task`.  The defaults are those of the zeroed table. -/
structure TaskSlot where
  id : Nat := 0
  name : List Char := []
  state : TaskState := .ready
  next : Option Nat := none
  context : CpuContext := {}
  stackBase : Nat := 0
  stackTop : Nat := 0
  cpuAffinity : Nat := 0
  assignedCpu : Nat := 0
  priority : Nat := 0
  effectivePriority : Nat := 0
  inputWait : Nat := 0
  piPriority : Nat := 0
  piMutexesHeld : Nat := 0
  deadlineNs : Nat := 0
  wakeTimeNs : Nat := 0
  sleepNext : Option Nat := none
  switches : Nat := 0
  cleanup : Nat := 0
  cleanupArg : Nat := 0
  isUser : Bool := false
  flags : TaskFlags := {}
  userEntry : Nat := 0
  userL1Pa : Nat := 0
  userStackTop : Nat := 0
  userStackPhys : Nat := 0
  userVaNext : Nat := 0
  userAsid : Nat := 0
  generation : Nat := 0
  /-- Only with `CONFIG_AI_SCHEDULER`, as `aiPriority`. -/
  arrivalTimeNs : Nat := 0
  aiPriority : Nat := 0
  deriving DecidableEq, Repr

def maxTasks : Nat := 64

def taskNameLen : Nat := 16

def stackSize : Nat := 0x40000

def cpuAffinityAny : Nat := 0xFFFFFFFF

def taskAiPriorityNone : Nat := 0xFF

def taskPriorityNormal : Nat := 4

structure TaskTable where
  slots : Nat → TaskSlot
  nextTaskId : Nat

namespace TaskTable

def modify (T : TaskTable) (i : Nat) (f : TaskSlot → TaskSlot) : TaskTable :=
  { T with slots := update T.slots i (f (T.slots i)) }

def allocTaskSlot (T : TaskTable) : Option Nat :=
  (List.range maxTasks).find? fun i => (T.slots i).id = 0

def claimSlot (T : TaskTable) : Option (Nat × TaskTable) :=
  match T.allocTaskSlot with
  | none => none
  | some i =>
    some (i, { T.modify i fun t => { t with id := T.nextTaskId } with
      nextTaskId := (T.nextTaskId + 1) % 2 ^ 32 })

def initSlot (f : TaskSlot → TaskSlot) (r : Nat × TaskTable) : Nat × TaskTable :=
  (r.1, r.2.modify r.1 f)

end TaskTable

/-! ## The creators -/

def strCopyName (name : Option (List Char)) : List Char :=
  ((name.getD "unnamed".toList).takeWhile (· ≠ '\x00')).take (taskNameLen - 1)

def clampPriority (priority : Nat) : Nat :=
  if priority > taskPriorityMax then taskPriorityMax else priority

def initAlloc (name : Option (List Char)) (priority : Nat) (t : TaskSlot) : TaskSlot :=
  { t with
    name := strCopyName name
    state := .ready
    next := none
    cpuAffinity := cpuAffinityAny
    assignedCpu := 0
    priority := clampPriority priority
    effectivePriority := clampPriority priority
    piPriority := 0
    piMutexesHeld := 0
    aiPriority := taskAiPriorityNone
    inputWait := 0
    deadlineNs := 0
    wakeTimeNs := 0
    sleepNext := none
    switches := 0
    stackBase := 0
    stackTop := 0
    context := {}
    cleanup := 0
    cleanupArg := 0
    isUser := false
    userEntry := 0
    userL1Pa := 0
    userStackTop := 0
    userStackPhys := 0
    userVaNext := 0
    userAsid := 0 }

/-- The fields that `task_create_with_priority` writes; `wrapper` is `task_entry_wrapper`. -/
def initCreate (wrapper : Nat) (stack : Nat) (name : Option (List Char)) (entry arg priority : Nat)
    (t : TaskSlot) : TaskSlot :=
  { t with
    name := strCopyName name
    state := .ready
    next := none
    cpuAffinity := cpuAffinityAny
    assignedCpu := 0
    priority := clampPriority priority
    effectivePriority := clampPriority priority
    piPriority := 0
    piMutexesHeld := 0
    aiPriority := taskAiPriorityNone
    deadlineNs := 0
    wakeTimeNs := 0
    sleepNext := none
    switches := 0
    stackBase := stack
    stackTop := stack + stackSize
    context :=
      { sp := stack + stackSize
        x30 := wrapper
        x29 := 0
        daif := 0x080
        x19 := entry
        x20 := arg }
    cleanup := 0
    cleanupArg := 0
    isUser := false
    userEntry := 0
    userL1Pa := 0
    userStackTop := 0
    userStackPhys := 0
    userVaNext := 0
    userAsid := 0 }

def initUser (entryVa l1 stackTop stackPage vaNext asid : Nat) (t : TaskSlot) : TaskSlot :=
  { t with
    isUser := true
    userEntry := entryVa
    userL1Pa := l1
    userStackTop := stackTop
    userStackPhys := stackPage
    userVaNext := vaNext
    userAsid := asid }

def initElf (wrapper cleanup stack sp entry argc argv info : Nat) (t : TaskSlot) : TaskSlot :=
  { t with
    stackBase := stack
    stackTop := stack + stackSize
    context := { t.context with
      sp := sp, x30 := wrapper, x29 := 0, x19 := entry, x20 := argc, x21 := argv }
    cleanup := cleanup
    cleanupArg := info }

def userStackTop : Nat := userStackPageVa + pageSize

def userElfStackTop : Nat := userMmapVaStart

structure Image where
  taskEntryWrapper : Nat
  userTaskWrapper : Nat
  elfEntryWrapper : Nat
  elfCleanup : Nat
  textUserStart : Nat
  textUserEnd : Nat
  deriving DecidableEq, Repr

/-- What the memory managers give a user task; a failure is `none`, and 0 for the ASID. -/
structure UserMemory where
  l1 : Option Nat
  asid : Nat
  /-- Whether every page of the program has been mapped. -/
  textMapped : Bool
  stackPage : Option Nat
  stackMapped : Bool
  deriving DecidableEq, Repr

structure ElfStack where
  stack : Nat
  sp : Nat
  argc : Nat
  argv : Nat
  infoCopy : Nat
  deriving DecidableEq, Repr

namespace TaskTable

variable (img : Image) (T : TaskTable)

def taskAlloc (name : Option (List Char)) (priority : Nat) : Option (Nat × TaskTable) :=
  T.claimSlot.map (initSlot (initAlloc name priority))

def taskCreateWithPriority (stack : Option Nat) (name : Option (List Char))
    (entry arg priority : Nat) : Option (Nat × TaskTable) :=
  match stack with
  | none => none
  | some stack =>
    T.claimSlot.map (initSlot (initCreate img.taskEntryWrapper stack name entry arg priority))

def taskCreate (stack : Option Nat) (name : Option (List Char)) (entry arg : Nat) :
    Option (Nat × TaskTable) :=
  T.taskCreateWithPriority img stack name entry arg taskPriorityNormal

def userEntryVa (entry : Nat) : Nat :=
  if img.textUserStart ≤ entry ∧ entry < img.textUserEnd then
    userTextVa + (entry - img.textUserStart)
  else entry

def taskCreateUser (mem : UserMemory) (stack : Option Nat) (name : Option (List Char))
    (userEntry arg priority : Nat) : Option (Nat × TaskTable) :=
  match mem.l1 with
  | none => none
  | some l1 =>
    if mem.asid = 0 then none
    else if img.textUserStart % pageSize ≠ 0 ∨
        (img.textUserEnd - img.textUserStart) % pageSize ≠ 0 ∨
        img.textUserEnd - img.textUserStart = 0 then none
    else if ¬mem.textMapped then none
    else
      match mem.stackPage with
      | none => none
      | some page =>
        if ¬mem.stackMapped then none
        else
          (T.taskCreateWithPriority img stack name img.userTaskWrapper arg priority).map
            (initSlot (initUser (userEntryVa img userEntry) l1 userStackTop page
              userMmapVaStart mem.asid))

/-- The program has been loaded with the given entry point, or could not be. -/
def taskCreateUserElf (mem : UserMemory) (entryVa : Option Nat) (stack : Option Nat)
    (name : Option (List Char)) (priority : Nat) : Option (Nat × TaskTable) :=
  match mem.l1 with
  | none => none
  | some l1 =>
    if mem.asid = 0 then none
    else
      match entryVa with
      | none => none
      | some entryVa =>
        match mem.stackPage with
        | none => none
        | some page =>
          if ¬mem.stackMapped then none
          else
            (T.taskCreateWithPriority img stack name img.userTaskWrapper 0 priority).map
              (initSlot (initUser entryVa l1 userElfStackTop page userMmapVaStart mem.asid))

/-- `elf_create_task_with_args`, once the entry point has been found and the stack laid out. -/
def elfCreateTask (entry : Option Nat) (stack : Option ElfStack) (name : Option (List Char)) :
    Option (Nat × TaskTable) :=
  match entry with
  | none => none
  | some entry =>
    match stack with
    | none => none
    | some e =>
      (T.taskAlloc (some (name.getD "elf_task".toList)) taskPriorityNormal).map
        (initSlot (initElf img.elfEntryWrapper img.elfCleanup e.stack e.sp entry
          e.argc e.argv e.infoCopy))

/-- `task_destroy`; destroying an idle task is a panic. -/
def taskDestroy (i : Nat) : Option TaskTable :=
  if (T.slots i).flags.idle then none
  else if (T.slots i).state ≠ .terminated then some T
  else
    some (T.modify i fun t =>
      { t with
        id := 0
        name := []
        stackBase := 0
        stackTop := 0
        cleanup := 0
        cleanupArg := 0
        isUser := false
        userEntry := 0
        userL1Pa := 0
        userStackTop := 0
        userStackPhys := 0
        userVaNext := 0
        userAsid := 0
        generation := (t.generation + 1) % 2 ^ 32 })

end TaskTable

/-- A call of one of the creators, with what it gets from the memory managers. -/
inductive Creation where
  | alloc (name : Option (List Char)) (priority : Nat)
  | createWithPriority (stack : Option Nat) (name : Option (List Char))
      (entry arg priority : Nat)
  | create (stack : Option Nat) (name : Option (List Char)) (entry arg : Nat)
  | createUser (mem : UserMemory) (stack : Option Nat) (name : Option (List Char))
      (userEntry arg priority : Nat)
  | createUserElf (mem : UserMemory) (entryVa : Option Nat) (stack : Option Nat)
      (name : Option (List Char)) (priority : Nat)
  | elfCreate (entry : Option Nat) (stack : Option ElfStack) (name : Option (List Char))
  deriving DecidableEq, Repr

namespace Creation

def run (img : Image) (T : TaskTable) : Creation → Option (Nat × TaskTable)
  | alloc name priority => T.taskAlloc name priority
  | createWithPriority stack name entry arg priority =>
    T.taskCreateWithPriority img stack name entry arg priority
  | create stack name entry arg => T.taskCreate img stack name entry arg
  | createUser mem stack name userEntry arg priority =>
    T.taskCreateUser img mem stack name userEntry arg priority
  | createUserElf mem entryVa stack name priority =>
    T.taskCreateUserElf img mem entryVa stack name priority
  | elfCreate entry stack name => T.elfCreateTask img entry stack name

/-- `task_alloc` resets `input_wait`; `task_create_with_priority` does not. -/
def resetsInputWait : Creation → Bool
  | alloc .. | elfCreate .. => true
  | createWithPriority .. | create .. | createUser .. | createUserElf .. => false

end Creation

/-! ## What is left of the task before -/

/--
The fields but `generation`, as the kernel sees them in a build with or without
`CONFIG_AI_SCHEDULER`.
-/
def TaskSlot.seen (ai : Bool) (t : TaskSlot) : TaskSlot :=
  { t with
    generation := 0
    arrivalTimeNs := if ai then t.arrivalTimeNs else 0
    aiPriority := if ai then t.aiPriority else 0 }

/-- Two slots carry the same in the fields that a creator does not write. -/
def SameLeft (ai resets : Bool) (t u : TaskSlot) : Prop :=
  t.flags = u.flags ∧ (resets ∨ t.inputWait = u.inputWait) ∧
    (ai → t.arrivalTimeNs = u.arrivalTimeNs)

/--
`f` writes every field that is seen, but `id`, `flags`, the arrival time and, unless
`resets`, `input_wait`.
-/
structure Writes (f : TaskSlot → TaskSlot) (resets : Bool) : Prop where
  id_eq : ∀ t, (f t).id = t.id
  seen_iff : ∀ ai t u, t.id = u.id → ((f t).seen ai = (f u).seen ai ↔ SameLeft ai resets t u)

theorem writes_initAlloc (name : Option (List Char)) (priority : Nat) :
    Writes (initAlloc name priority) true where
  id_eq _ := rfl
  seen_iff ai t u hid := by
    simp only [TaskSlot.seen, initAlloc, SameLeft, TaskSlot.mk.injEq, hid]
    cases ai <;> simp

theorem writes_initCreate (wrapper stack : Nat) (name : Option (List Char))
    (entry arg priority : Nat) :
    Writes (initCreate wrapper stack name entry arg priority) false where
  id_eq _ := rfl
  seen_iff ai t u hid := by
    simp only [TaskSlot.seen, initCreate, SameLeft, TaskSlot.mk.injEq, hid]
    cases ai <;> simp <;> tauto

theorem writes_initUser (wrapper stack : Nat) (name : Option (List Char))
    (entry arg priority entryVa l1 top page vaNext asid : Nat) :
    Writes (initUser entryVa l1 top page vaNext asid ∘
      initCreate wrapper stack name entry arg priority) false where
  id_eq _ := rfl
  seen_iff ai t u hid := by
    simp only [TaskSlot.seen, initCreate, initUser, Function.comp, SameLeft, TaskSlot.mk.injEq, hid]
    cases ai <;> simp <;> tauto

theorem writes_initElf (name : Option (List Char))
    (priority wrapper cleanup stack sp entry argc argv info : Nat) :
    Writes (initElf wrapper cleanup stack sp entry argc argv info ∘
      initAlloc name priority) true where
  id_eq _ := rfl
  seen_iff ai t u hid := by
    simp only [TaskSlot.seen, initAlloc, initElf, Function.comp, SameLeft, TaskSlot.mk.injEq, hid]
    cases ai <;> simp

theorem map_initSlot_initSlot (r : Option (Nat × TaskTable)) (f g : TaskSlot → TaskSlot) :
    (r.map (TaskTable.initSlot f)).map (TaskTable.initSlot g) =
      r.map (TaskTable.initSlot (g ∘ f)) := by
  cases r <;> simp [TaskTable.initSlot, TaskTable.modify]

variable {i : Nat} {T' : TaskTable} {c : Creation}

theorem Creation.run_some (h : c.run img T = some (i, T')) : ∃ f, Writes f c.resetsInputWait ∧
      ∀ S : TaskTable, c.run img S = S.claimSlot.map (TaskTable.initSlot f) := by
  cases c with
  | alloc name priority => exact ⟨_, writes_initAlloc name priority, fun _ => rfl⟩
  | createWithPriority stack name entry arg priority | create stack name entry arg =>
    cases stack with
    | none => simp [run, TaskTable.taskCreate, TaskTable.taskCreateWithPriority] at h
    | some stack => exact ⟨_, writes_initCreate .., fun _ => rfl⟩
  | createUser mem stack name userEntry arg priority =>
    obtain ⟨l1, asid, textMapped, page, stackMapped⟩ := mem
    cases l1 with
    | none => simp [run, TaskTable.taskCreateUser] at h
    | some l1 =>
    cases page with
    | none => simp [run, TaskTable.taskCreateUser] at h
    | some page =>
    cases stack with
    | none => simp [run, TaskTable.taskCreateUser, TaskTable.taskCreateWithPriority] at h
    | some stack =>
      -- no check that the call has passed looks at the table
      simp only [run, TaskTable.taskCreateUser] at h ⊢
      split_ifs at h ⊢
      exact ⟨_, writes_initUser .., fun S => map_initSlot_initSlot ..⟩
  | createUserElf mem entryVa stack name priority =>
    obtain ⟨l1, asid, textMapped, page, stackMapped⟩ := mem
    cases l1 with
    | none => simp [run, TaskTable.taskCreateUserElf] at h
    | some l1 =>
    cases entryVa with
    | none => simp [run, TaskTable.taskCreateUserElf] at h
    | some entryVa =>
    cases page with
    | none => simp [run, TaskTable.taskCreateUserElf] at h
    | some page =>
    cases stack with
    | none => simp [run, TaskTable.taskCreateUserElf, TaskTable.taskCreateWithPriority] at h
    | some stack =>
      simp only [run, TaskTable.taskCreateUserElf] at h ⊢
      split_ifs at h ⊢
      exact ⟨_, writes_initUser .., fun S => map_initSlot_initSlot ..⟩
  | elfCreate entry stack name =>
    cases entry with
    | none => simp [run, TaskTable.elfCreateTask] at h
    | some entry =>
    cases stack with
    | none => simp [run, TaskTable.elfCreateTask] at h
    | some e => exact ⟨_, writes_initElf .., fun S => map_initSlot_initSlot ..⟩

def TaskTable.unused (T : TaskTable) (i : Nat) : TaskTable :=
  T.modify i fun _ => {}

theorem allocTaskSlot_free {T : TaskTable} (h : T.allocTaskSlot = some i) : (T.slots i).id = 0 := by
  simpa using List.find?_some h

theorem allocTaskSlot_unused {T : TaskTable} (h : T.allocTaskSlot = some i) :
    (T.unused i).allocTaskSlot = some i := by
  have hsame : ∀ j, ((T.unused i).slots j).id = (T.slots j).id := by
    intro j
    rcases eq_or_ne j i with rfl | hne
    · simp [TaskTable.unused, TaskTable.modify, allocTaskSlot_free h]
    · simp [TaskTable.unused, TaskTable.modify, hne]
  simpa only [TaskTable.allocTaskSlot, hsame] using h

theorem filled_of_claim {T : TaskTable} {f : TaskSlot → TaskSlot}
    (h : T.claimSlot.map (TaskTable.initSlot f) = some (i, T')) :
    T.allocTaskSlot = some i ∧
      T'.slots = update T.slots i (f { T.slots i with id := T.nextTaskId }) := by
  unfold TaskTable.claimSlot at h
  split at h
  · cases h
  case h_2 j halloc =>
    obtain ⟨rfl, rfl⟩ := h
    exact ⟨halloc, by simp [TaskTable.modify]⟩

theorem claim_of_alloc {T : TaskTable} (h : T.allocTaskSlot = some i) (f : TaskSlot → TaskSlot) :
    ∃ T', T.claimSlot.map (TaskTable.initSlot f) = some (i, T') := by
  simp [TaskTable.claimSlot, h, TaskTable.initSlot]

/--
The task that a creator makes is the one that it makes in a slot that has never been
used, `generation` apart, exactly if the task before has left no flag behind, nor a
mark that it waits for input if the creator does not reset it, nor an arrival time in
a build with the AI scheduler.
-/
theorem created_as_unused_iff (img : Image) (ai : Bool) {T T' : TaskTable} {c : Creation}
    {i : Nat} (h : c.run img T = some (i, T')) :
    (∃ U, c.run img (T.unused i) = some (i, U) ∧ (T'.slots i).seen ai = (U.slots i).seen ai) ↔
      (T.slots i).flags = {} ∧ (c.resetsInputWait ∨ (T.slots i).inputWait = 0) ∧
        (ai → (T.slots i).arrivalTimeNs = 0) := by
  obtain ⟨f, hwrites, hrun⟩ := c.run_some h
  rw [hrun] at h
  obtain ⟨halloc, hslot⟩ := filled_of_claim h
  obtain ⟨U, hU⟩ := claim_of_alloc (allocTaskSlot_unused halloc) f
  obtain ⟨-, hslotU⟩ := filled_of_claim hU
  have hempty : (T.unused i).slots i = {} := by simp [TaskTable.unused, TaskTable.modify]
  have hsame : (T'.slots i).seen ai = (U.slots i).seen ai ↔
      SameLeft ai c.resetsInputWait (T.slots i) {} := by
    rw [hslot, hslotU, update_self, update_self, hempty]
    exact hwrites.seen_iff ai _ _ rfl
  constructor
  · rintro ⟨V, hV, hseen⟩
    obtain rfl : U = V := by simpa [hrun, hU] using hV
    exact hsame.mp hseen
  intro hleft
  exact ⟨U, by rw [hrun, hU], hsame.mpr hleft⟩

/-! ## Histories of the table -/

/--
What happens to the table: creations, `task_destroy`, and the steps of the kernel that
write the fields no creator writes.  `sleepWake` is `task_sleep_wake` for a task that
is not on the sleep queue, `sleepMs` the call of `task_sleep_ms` that takes the flag
back, `addTask` the time stamp of `scheduler_add_task`.
-/
inductive TableAction where
  | create (c : Creation)
  | destroy (i : Nat)
  | setState (i : Nat) (state : TaskState)
  | markIdle (i : Nat)
  | sleepWake (i : Nat)
  | sleepMs (i : Nat)
  | inputWait (i value : Nat)
  | addTask (i now : Nat)
  deriving DecidableEq, Repr

def tableStep (img : Image) (T : TaskTable) : TableAction → Option TaskTable
  | .create c => (c.run img T).map Prod.snd
  | .destroy i => T.taskDestroy i
  | .setState i state => some (T.modify i fun t => { t with state := state })
  | .markIdle i => some (T.modify i fun t => { t with flags := { t.flags with idle := true } })
  | .sleepWake i =>
    some (T.modify i fun t => { t with flags := { t.flags with wakeupPending := true } })
  | .sleepMs i =>
    some (T.modify i fun t => { t with flags := { t.flags with wakeupPending := false } })
  | .inputWait i value => some (T.modify i fun t => { t with inputWait := value })
  | .addTask i now => some (T.modify i fun t => { t with arrivalTimeNs := now })

def FreeSlotsTidy (T : TaskTable) : Prop :=
  ∀ i, (T.slots i).id = 0 → (T.slots i).flags = {} ∧ (T.slots i).inputWait = 0

theorem FreeSlotsTidy.modify (h : FreeSlotsTidy T) {f : TaskSlot → TaskSlot}
    (hf : (f (T.slots i)).id = 0 → (f (T.slots i)).flags = {} ∧ (f (T.slots i)).inputWait = 0) :
    FreeSlotsTidy (T.modify i f) := by
  intro j hj
  rcases eq_or_ne j i with rfl | hne
  · simp only [TaskTable.modify, update_self] at hj ⊢
    exact hf hj
  simp only [TaskTable.modify, update_of_ne hne] at hj ⊢
  exact h j hj

theorem FreeSlotsTidy.create {img : Image} {T : TaskTable} (h : FreeSlotsTidy T)
    (hid : T.nextTaskId ≠ 0) (hrun : c.run img T = some (i, T')) : FreeSlotsTidy T' := by
  obtain ⟨f, hwrites, hfill⟩ := c.run_some hrun
  rw [hfill] at hrun
  obtain ⟨-, hslots⟩ := filled_of_claim hrun
  intro j hj
  rw [hslots] at hj ⊢
  rcases eq_or_ne j i with rfl | hne
  · rw [update_self, hwrites.id_eq] at hj
    exact absurd hj hid
  rw [update_of_ne hne] at hj ⊢
  exact h j hj

def emptyTable : TaskTable where
  slots := fun _ => {}
  nextTaskId := 1

def someImage : Image where
  taskEntryWrapper := 0x81000
  userTaskWrapper := 0x82000
  elfEntryWrapper := 0x83000
  elfCleanup := 0x84000
  textUserStart := 0x80000
  textUserEnd := 0x81000

def newTask : Creation := .create (some 0x40000000) (some ['w']) 0x90000 0

/-- A task is woken while it is awake, and exits and is destroyed before it sleeps. -/
def wokenTask : List TableAction :=
  [.create newTask, .sleepWake 0, .setState 0 .terminated, .destroy 0]

theorem pending_wakeup_inherited :
    ∃ T T' U, exec (tableStep someImage) emptyTable wokenTask = some T ∧
      newTask.run someImage T = some (0, T') ∧
      newTask.run someImage (T.unused 0) = some (0, U) ∧
      (T'.slots 0).flags.wakeupPending = true ∧ (U.slots 0).flags.wakeupPending = false := by
  refine ⟨_, _, _, rfl, rfl, rfl, ?_, ?_⟩ <;> decide

theorem created_as_unused_iff_first : ∃ T', newTask.run someImage emptyTable = some (0, T') ∧
      ∃ U, newTask.run someImage (emptyTable.unused 0) = some (0, U) ∧
        (T'.slots 0).seen true = (U.slots 0).seen true := by
  have h : ∃ T', newTask.run someImage emptyTable = some (0, T') := ⟨_, rfl⟩
  obtain ⟨T', hT'⟩ := h
  exact ⟨T', hT', (created_as_unused_iff someImage true hT').mpr ⟨rfl, .inr rfl, fun _ => rfl⟩⟩

end SlmOs.Sched.Reuse
