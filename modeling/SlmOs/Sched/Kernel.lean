import Mathlib

/-!
# Tasks, run queues and their critical sections

The data of `kernel/sched/sched.c` that the scheduler works on, and the
functions that run under a run-queue lock.  Tasks and CPUs are numbers.  A run
queue is the list of the tasks reached from `head` along `next`, so that
`ready_count` is its length; a steal deque is the list of its slots from `top`
to `bottom`, where `none` is a slot cleared by `steal_deque_remove`.
-/

namespace SlmOs.Sched

open Function

inductive TaskState where
  | ready
  | running
  | blocked
  | terminated
  | destroyed
  deriving DecidableEq, Repr

def taskPriorityHigh : Nat := 6

def taskPriorityCritical : Nat := 7

def taskPriorityMax : Nat := 7

structure Task where
  state : TaskState
  /-- `none` is `CPU_AFFINITY_ANY`. -/
  cpuAffinity : Option Nat
  assignedCpu : Nat
  priority : Nat
  effectivePriority : Nat
  /-- `none` is `TASK_AI_PRIORITY_NONE`. -/
  aiPriority : Option Nat
  piPriority : Nat
  deadlineNs : Nat
  generation : Nat
  /-- `TASK_FLAG_IDLE`. -/
  isIdle : Bool
  deriving DecidableEq, Repr

structure RunQueue where
  queue : List Nat
  deque : List (Option (Nat × Nat))
  idleTask : Nat
  zombie : Option Nat
  current : Option Nat
  deriving DecidableEq, Repr

structure DeadlineThresholds where
  criticalNs : Nat
  highNs : Nat
  boostNs : Nat
  deriving DecidableEq, Repr

structure Kernel where
  task : Nat → Task
  rq : Nat → RunQueue
  cpuCount : Nat
  isolatedCores : Nat → Bool
  thresholds : DeadlineThresholds
  aiPriorityActions : Bool
  now : Nat

namespace Kernel

def setTask (k : Kernel) (t : Nat) (v : Task) : Kernel :=
  { k with task := update k.task t v }

def setState (k : Kernel) (t : Nat) (st : TaskState) : Kernel :=
  k.setTask t { k.task t with state := st }

def setRq (k : Kernel) (c : Nat) (q : RunQueue) : Kernel :=
  { k with rq := update k.rq c q }

def setQueue (k : Kernel) (c : Nat) (l : List Nat) : Kernel :=
  k.setRq c { k.rq c with queue := l }

def setDeque (k : Kernel) (c : Nat) (l : List (Option (Nat × Nat))) :
    Kernel :=
  k.setRq c { k.rq c with deque := l }

section

variable (k : Kernel)

@[simp] theorem setTask_rq (t : Nat) (v : Task) : (k.setTask t v).rq = k.rq := rfl

@[simp] theorem setTask_self (t : Nat) (v : Task) : (k.setTask t v).task t = v := update_self _ _ _

theorem setTask_of_ne (v : Task) (h : u ≠ t) :
    (k.setTask t v).task u = k.task u := update_of_ne h _ _

@[simp] theorem setState_rq (t : Nat) (st : TaskState) : (k.setState t st).rq = k.rq := rfl

@[simp] theorem setRq_task (c : Nat) (q : RunQueue) : (k.setRq c q).task = k.task := rfl

@[simp] theorem setRq_self (c : Nat) (q : RunQueue) : (k.setRq c q).rq c = q := update_self _ _ _

theorem setRq_of_ne (q : RunQueue) (h : d ≠ c) : (k.setRq c q).rq d = k.rq d := update_of_ne h _ _

@[simp] theorem setQueue_task (c : Nat) (l : List Nat) : (k.setQueue c l).task = k.task := rfl

@[simp] theorem setQueue_queue (c : Nat) (l : List Nat) : ((k.setQueue c l).rq c).queue = l := by
  simp [setQueue]

theorem setQueue_of_ne (l : List Nat) (h : d ≠ c) :
    (k.setQueue c l).rq d = k.rq d := setRq_of_ne k _ h

end

end Kernel

/-! ## Effective priority -/

def effectiveBasePriority (k : Kernel) (v : Task) : Nat :=
  match v.aiPriority with
  | some level => if k.aiPriorityActions then level else v.priority
  | none => v.priority

def setEffectivePriority (v : Task) (priority : Nat) : Task :=
  { v with
    effectivePriority :=
      if v.piPriority > priority then v.piPriority else priority }

def boostedPriority (k : Kernel) (base deadline : Nat) : Nat :=
  if k.now ≥ deadline then taskPriorityCritical
  else if deadline - k.now < k.thresholds.criticalNs then
    taskPriorityCritical
  else if deadline - k.now < k.thresholds.highNs then
    if base > taskPriorityHigh then base else taskPriorityHigh
  else if deadline - k.now < k.thresholds.boostNs then
    if base < taskPriorityMax then base + 1 else taskPriorityMax
  else base

def deadlineBoosted (k : Kernel) (v : Task) : Task :=
  if v.deadlineNs = 0 then
    setEffectivePriority v (effectiveBasePriority k v)
  else
    setEffectivePriority v (boostedPriority k (effectiveBasePriority k v) v.deadlineNs)

def updateDeadlineBoost (k : Kernel) (t : Nat) : Kernel :=
  k.setTask t (deadlineBoosted k (k.task t))

theorem deadlineBoosted_eq (k : Kernel) (v : Task) : deadlineBoosted k v =
      { v with effectivePriority := (deadlineBoosted k v).effectivePriority } := by
  unfold deadlineBoosted setEffectivePriority
  split <;> rfl

/-! ## Run queue operations -/

def insertByPriority (eff : Nat → Nat) (t : Nat) : List Nat → List Nat
  | [] => [t]
  | u :: l =>
    if eff u ≥ eff t then u :: insertByPriority eff t l else t :: u :: l

def addToCpuQueueLocked (k : Kernel) (t c : Nat) : Kernel :=
  let k := k.setTask t { k.task t with assignedCpu := c }
  let k := updateDeadlineBoost k t
  k.setQueue c (insertByPriority (fun u => (k.task u).effectivePriority) t (k.rq c).queue)

def removeFromCpuQueueLocked (k : Kernel) (t c : Nat) : Kernel × Bool :=
  if t ∈ (k.rq c).queue then (k.setQueue c ((k.rq c).queue.erase t), true)
  else (k, false)

theorem insertByPriority_perm (eff : Nat → Nat) (t : Nat) (l : List Nat) :
    (insertByPriority eff t l).Perm (t :: l) := by
  induction l with
  | nil => exact .refl _
  | cons u l ih =>
    rw [insertByPriority]
    split
    · exact (ih.cons u).trans (.swap t u l)
    · exact .refl _

theorem addToCpuQueueLocked_eq (k : Kernel) (t c : Nat) : ∃ e l, l.Perm (t :: (k.rq c).queue) ∧
      addToCpuQueueLocked k t c = (k.setTask t { k.task t with
          assignedCpu := c, effectivePriority := e }).setQueue c l := by
  let k₁ := k.setTask t { k.task t with assignedCpu := c }
  let e := (deadlineBoosted k₁ (k₁.task t)).effectivePriority
  let k₂ := k.setTask t { k.task t with
    assignedCpu := c, effectivePriority := e }
  have hboost : updateDeadlineBoost k₁ t = k₂ := by
    unfold updateDeadlineBoost
    rw [deadlineBoosted_eq]
    simp [k₁, k₂, e, Kernel.setTask]
  refine ⟨e, insertByPriority (fun u => (k₂.task u).effectivePriority) t
    (k.rq c).queue, insertByPriority_perm _ _ _, ?_⟩
  change Kernel.setQueue (updateDeadlineBoost k₁ t) c (insertByPriority
      (fun u => ((updateDeadlineBoost k₁ t).task u).effectivePriority) t
      ((updateDeadlineBoost k₁ t).rq c).queue) = _
  rw [hboost]
  rfl

variable {t : Nat}

theorem removeFromCpuQueueLocked_of_mem (h : t ∈ (k.rq c).queue) :
    removeFromCpuQueueLocked k t c = (k.setQueue c ((k.rq c).queue.erase t), true) := if_pos h

theorem removeFromCpuQueueLocked_of_not_mem (h : t ∉ (k.rq c).queue) :
    removeFromCpuQueueLocked k t c = (k, false) := if_neg h

/-! ### What the operations leave alone -/

variable {α : Type}

theorem setTask_field (f : Task → α) (k : Kernel) (h : f v = f (k.task t)) (u : Nat) :
    f ((k.setTask t v).task u) = f (k.task u) := by
  by_cases hu : u = t
  · subst hu
    rw [Kernel.setTask_self, h]
  · rw [Kernel.setTask_of_ne _ _ hu]

theorem updateDeadlineBoost_field (f : Task → α)
    (hf : ∀ v e, f { v with effectivePriority := e } = f v) (k : Kernel)
    (t u : Nat) : f ((updateDeadlineBoost k t).task u) = f (k.task u) :=
  setTask_field f k (by rw [deadlineBoosted_eq, hf]) u

@[simp] theorem updateDeadlineBoost_rq (k : Kernel) (t : Nat) :
    (updateDeadlineBoost k t).rq = k.rq := rfl

@[simp] theorem updateDeadlineBoost_state (k : Kernel) (t u : Nat) :
    ((updateDeadlineBoost k t).task u).state = (k.task u).state :=
  updateDeadlineBoost_field Task.state (fun _ _ => rfl) k t u

@[simp] theorem updateDeadlineBoost_assignedCpu (k : Kernel) (t u : Nat) :
    ((updateDeadlineBoost k t).task u).assignedCpu = (k.task u).assignedCpu :=
  updateDeadlineBoost_field Task.assignedCpu (fun _ _ => rfl) k t u

@[simp] theorem updateDeadlineBoost_isIdle (k : Kernel) (t u : Nat) :
    ((updateDeadlineBoost k t).task u).isIdle = (k.task u).isIdle :=
  updateDeadlineBoost_field Task.isIdle (fun _ _ => rfl) k t u

@[simp] theorem setState_state (k : Kernel) (t u : Nat) (st : TaskState) :
    ((k.setState t st).task u).state =
      if u = t then st else (k.task u).state := by
  unfold Kernel.setState
  by_cases hu : u = t
  · subst hu
    rw [Kernel.setTask_self, if_pos rfl]
  · rw [Kernel.setTask_of_ne _ _ hu, if_neg hu]

@[simp] theorem setState_assignedCpu (k : Kernel) (t u : Nat) (st : TaskState) :
    ((k.setState t st).task u).assignedCpu = (k.task u).assignedCpu := by
  apply setTask_field Task.assignedCpu
  rfl

@[simp] theorem setState_isIdle (k : Kernel) (t u : Nat) (st : TaskState) :
    ((k.setState t st).task u).isIdle = (k.task u).isIdle := by
  apply setTask_field Task.isIdle
  rfl

@[simp] theorem setState_effectivePriority (k : Kernel) (t u : Nat)
    (st : TaskState) : ((k.setState t st).task u).effectivePriority =
      (k.task u).effectivePriority := by
  apply setTask_field Task.effectivePriority
  rfl

theorem add_field (f : Task → α)
    (hf : ∀ v c e, f { v with assignedCpu := c, effectivePriority := e } = f v) (k : Kernel)
    (t c u : Nat) : f ((addToCpuQueueLocked k t c).task u) = f (k.task u) := by
  obtain ⟨e, l, -, heq⟩ := addToCpuQueueLocked_eq k t c
  rw [heq, Kernel.setQueue_task]
  exact setTask_field f k (hf _ _ _) u

@[simp] theorem add_state (k : Kernel) (t c u : Nat) :
    ((addToCpuQueueLocked k t c).task u).state = (k.task u).state :=
  add_field Task.state (fun _ _ _ => rfl) k t c u

@[simp] theorem add_isIdle (k : Kernel) (t c u : Nat) :
    ((addToCpuQueueLocked k t c).task u).isIdle = (k.task u).isIdle :=
  add_field Task.isIdle (fun _ _ _ => rfl) k t c u

@[simp] theorem add_assignedCpu (k : Kernel) (t c u : Nat) :
    ((addToCpuQueueLocked k t c).task u).assignedCpu =
      if u = t then c else (k.task u).assignedCpu := by
  obtain ⟨e, l, -, heq⟩ := addToCpuQueueLocked_eq k t c
  rw [heq, Kernel.setQueue_task]
  by_cases h : u = t
  · subst h
    rw [Kernel.setTask_self, if_pos rfl]
  · rw [Kernel.setTask_of_ne _ _ h, if_neg h]

theorem add_rq_of_ne (k : Kernel) (t : Nat) (h : d ≠ c) :
    (addToCpuQueueLocked k t c).rq d = k.rq d := by
  obtain ⟨e, l, -, heq⟩ := addToCpuQueueLocked_eq k t c
  rw [heq, Kernel.setQueue_of_ne _ _ h, Kernel.setTask_rq]

theorem add_rq_self (k : Kernel) (t c : Nat) : ∃ l, l.Perm (t :: (k.rq c).queue) ∧
      (addToCpuQueueLocked k t c).rq c = { k.rq c with queue := l } := by
  obtain ⟨e, l, hperm, heq⟩ := addToCpuQueueLocked_eq k t c
  refine ⟨l, hperm, ?_⟩
  rw [heq, Kernel.setQueue, Kernel.setRq_self, Kernel.setTask_rq]

/-! ## Steal deques -/

def stealDequeCapacity : Nat := 32

def stealDequePush (k : Kernel) (c t : Nat) : Kernel :=
  if (k.rq c).deque.length ≥ stealDequeCapacity then k
  else
    k.setDeque c ((k.rq c).deque ++ [some (t, (k.task t).generation)])

def stealSlots : List (Option (Nat × Nat)) → Option (Nat × Nat) × List (Option (Nat × Nat))
  | [] => (none, [])
  | none :: l => stealSlots l
  | some e :: l => (some e, l)

def stealDequeSteal (k : Kernel) (c : Nat) : Kernel × Option (Nat × Nat) :=
  let r := stealSlots (k.rq c).deque
  (k.setDeque c r.2, r.1)

def clearSlot (t : Nat) : List (Option (Nat × Nat)) → List (Option (Nat × Nat))
  | [] => []
  | none :: l => none :: clearSlot t l
  | some e :: l => if e.1 = t then none :: l else some e :: clearSlot t l

def stealDequeRemove (k : Kernel) (c t : Nat) : Kernel :=
  k.setDeque c (clearSlot t (k.rq c).deque)

/-! ## The critical section of `schedule` -/

/-- `none` is the panic on a dead task at the head of the queue. -/
def pickNextTask (k : Kernel) (c : Nat) : Option Nat :=
  match (k.rq c).queue with
  | [] => some (k.rq c).idleTask
  | t :: _ =>
    if (k.task t).state = .terminated ∨ (k.task t).state = .destroyed then
      none
    else some t

def requeueCurrent (k : Kernel) (c cur : Nat) : Kernel :=
  let k := k.setState cur .ready
  let k := if cur ≠ (k.rq c).idleTask then addToCpuQueueLocked k cur c else k
  match (k.rq c).queue with
  | [] => k
  | h :: _ => updateDeadlineBoost k h

def dispatch (k : Kernel) (c next : Nat) : Option Kernel :=
  let k :=
    if next ≠ (k.rq c).idleTask ∧ (k.rq c).queue.head? = some next then
      k.setQueue c (k.rq c).queue.tail
    else k
  match (k.rq c).current with
  | none =>
    let k := k.setState next .running
    some (k.setRq c { k.rq c with current := some next })
  | some cur =>
    if next = cur then
      if (k.task cur).state = .terminated ∨
          (k.task cur).state = .destroyed then none
      else some (k.setState cur .running)
    else
      let k := k.setState next .running
      let zombie :=
        if (k.task cur).state = .terminated then some cur
        else (k.rq c).zombie
      some (k.setRq c { k.rq c with zombie := zombie, current := some next })

/-- The section from picking a task to `task_set_current`; `none` is a panic. -/
def scheduleLocked (k : Kernel) (c : Nat) : Option Kernel :=
  match pickNextTask k c with
  | none => none
  | some next =>
    match (k.rq c).current with
    | none => dispatch k c next
    | some cur =>
      if (k.task cur).state = .running then
        let k := requeueCurrent k c cur
        match pickNextTask k c with
        | none => none
        | some next => dispatch k c next
      else dispatch k c next

def requeued (k : Kernel) (c : Nat) : List Nat :=
  match (k.rq c).current with
  | none => []
  | some cur =>
    if (k.task cur).state = .running ∧ cur ≠ (k.rq c).idleTask then [cur]
    else []

theorem pickNextTask_cases (h : pickNextTask k c = some next) :
    ((k.rq c).queue = [] ∧ next = (k.rq c).idleTask) ∨
      (∃ l, (k.rq c).queue = next :: l ∧ (k.task next).state ≠ .terminated ∧
        (k.task next).state ≠ .destroyed) := by
  unfold pickNextTask at h
  cases hq : (k.rq c).queue with
  | nil =>
    rw [hq] at h
    exact .inl ⟨rfl, (Option.some.inj h).symm⟩
  | cons t l =>
    rw [hq] at h
    dsimp only at h
    split at h
    · cases h
    rename_i hstate
    rw [not_or] at hstate
    obtain rfl := Option.some.inj h
    exact .inr ⟨l, rfl, hstate⟩

theorem requeueCurrent_rq_of_ne (k : Kernel) (cur : Nat)
    (h : d ≠ c) : (requeueCurrent k c cur).rq d = k.rq d := by
  unfold requeueCurrent
  dsimp only
  split_ifs
  · split <;> simp [add_rq_of_ne _ _ h]
  · split <;> simp

theorem requeueCurrent_rq_self (k : Kernel) (c cur : Nat) :
    ∃ l, l.Perm ((if cur ≠ (k.rq c).idleTask then [cur] else []) ++ (k.rq c).queue) ∧
      (requeueCurrent k c cur).rq c = { k.rq c with queue := l } := by
  unfold requeueCurrent
  dsimp only
  rw [Kernel.setState_rq]
  by_cases h : cur ≠ (k.rq c).idleTask
  · rw [if_pos h, if_pos h]
    obtain ⟨l, hperm, heq⟩ := add_rq_self (k.setState cur .ready) cur c
    refine ⟨l, hperm, ?_⟩
    split
    · exact heq
    rw [updateDeadlineBoost_rq]
    exact heq
  rw [if_neg h, if_neg h]
  refine ⟨(k.rq c).queue, .refl _, ?_⟩
  split <;> rfl

theorem requeueCurrent_state (k : Kernel) (c cur u : Nat) :
    ((requeueCurrent k c cur).task u).state =
      if u = cur then .ready else (k.task u).state := by
  unfold requeueCurrent
  dsimp only
  split_ifs <;> split <;> simp_all

theorem requeueCurrent_isIdle (k : Kernel) (c cur u : Nat) :
    ((requeueCurrent k c cur).task u).isIdle = (k.task u).isIdle := by
  unfold requeueCurrent
  dsimp only
  split_ifs <;> split <;> simp

theorem requeueCurrent_assignedCpu (k : Kernel) (c cur u : Nat) :
    ((requeueCurrent k c cur).task u).assignedCpu =
      if u = cur ∧ cur ≠ (k.rq c).idleTask then c
      else (k.task u).assignedCpu := by
  unfold requeueCurrent
  dsimp only
  rw [Kernel.setState_rq]
  by_cases h : cur ≠ (k.rq c).idleTask
  · rw [if_pos h]
    by_cases hu : u = cur
    · rw [if_pos ⟨hu, h⟩]
      split <;> simp [hu]
    rw [if_neg (fun hc => hu hc.1)]
    split <;> simp [hu]
  rw [if_neg h, if_neg (fun hc => h hc.2)]
  split <;> simp

structure Dispatched (k k' : Kernel) (c next : Nat) : Prop where
  others : ∀ d, d ≠ c → k'.rq d = k.rq d
  idleTask : (k'.rq c).idleTask = (k.rq c).idleTask
  current : (k'.rq c).current = some next
  queue : (k'.rq c).queue = (k.rq c).queue.tail
  state : ∀ t, (k'.task t).state =
    if t = next then .running else (k.task t).state
  assignedCpu : ∀ t, (k'.task t).assignedCpu = (k.task t).assignedCpu
  isIdle : ∀ t, (k'.task t).isIdle = (k.task t).isIdle
  effectivePriority : ∀ t, (k'.task t).effectivePriority = (k.task t).effectivePriority
  cpuCount : k'.cpuCount = k.cpuCount

theorem dispatch_spec (hpick : pickNextTask k c = some next)
    (hidle : (k.rq c).idleTask ∉ (k.rq c).queue)
    (h : dispatch k c next = some k') : Dispatched k k' c next := by
  -- the queue without its first task
  have hpop : (if next ≠ (k.rq c).idleTask ∧ (k.rq c).queue.head? = some next then
        k.setQueue c (k.rq c).queue.tail else k) =
      k.setQueue c (k.rq c).queue.tail := by
    rcases pickNextTask_cases hpick with ⟨hq, hnext⟩ | ⟨l, hq, -, -⟩
    · rw [if_neg (fun hc => hc.1 hnext), hq]
      change k = k.setRq c { k.rq c with queue := [] }
      rw [← hq, Kernel.setRq, update_eq_self]
    refine if_pos ⟨?_, by rw [hq]; rfl⟩
    rintro rfl
    exact hidle (by rw [hq]; exact List.mem_cons_self)
  unfold dispatch at h
  rw [hpop] at h
  dsimp only at h
  generalize hk₁ : k.setQueue c (k.rq c).queue.tail = k₁ at h
  have hrq : k₁.rq c = { k.rq c with queue := (k.rq c).queue.tail } := by
    rw [← hk₁, Kernel.setQueue, Kernel.setRq_self]
  have hothers : ∀ d, d ≠ c → k₁.rq d = k.rq d := fun d hd => by
    rw [← hk₁, Kernel.setQueue_of_ne _ _ hd]
  have htask : k₁.task = k.task := by rw [← hk₁, Kernel.setQueue_task]
  have hcount : k₁.cpuCount = k.cpuCount := by
    rw [← hk₁]
    rfl
  have hswitch : ∀ z, Dispatched k ((k₁.setState next .running).setRq c
        { k₁.rq c with zombie := z, current := some next }) c next := by
    intro z
    refine ⟨fun d hd => ?_, ?_, ?_, ?_, fun t => ?_, fun t => ?_, fun t => ?_, fun t => ?_, hcount⟩
    · rw [Kernel.setRq_of_ne _ _ hd, Kernel.setState_rq, hothers d hd]
    · rw [Kernel.setRq_self, hrq]
    · rw [Kernel.setRq_self]
    · rw [Kernel.setRq_self, hrq]
    · rw [Kernel.setRq_task, setState_state, htask]
    · rw [Kernel.setRq_task, setState_assignedCpu, htask]
    · rw [Kernel.setRq_task, setState_isIdle, htask]
    · rw [Kernel.setRq_task, setState_effectivePriority, htask]
  cases hcur : (k₁.rq c).current with
  | none =>
    rw [hcur] at h
    obtain rfl := Option.some.inj h
    exact hswitch _
  | some cur =>
    rw [hcur] at h
    dsimp only at h
    split at h
    · rename_i heq
      split at h
      · cases h
      obtain rfl := Option.some.inj h
      refine ⟨fun d hd => ?_, ?_, ?_, ?_, fun t => ?_, fun t => ?_,
        fun t => ?_, fun t => ?_, hcount⟩
      · rw [Kernel.setState_rq, hothers d hd]
      · rw [Kernel.setState_rq, hrq]
      · rw [Kernel.setState_rq, hcur, heq]
      · rw [Kernel.setState_rq, hrq]
      · rw [setState_state, htask, heq]
      · rw [setState_assignedCpu, htask]
      · rw [setState_isIdle, htask]
      · rw [setState_effectivePriority, htask]
    obtain rfl := Option.some.inj h
    exact hswitch _

structure Scheduled (k k' : Kernel) (c next : Nat) : Prop where
  others : ∀ d, d ≠ c → k'.rq d = k.rq d
  idleTask : (k'.rq c).idleTask = (k.rq c).idleTask
  current : (k'.rq c).current = some next
  queue : (next :: (k'.rq c).queue).Perm (requeued k c ++ (k.rq c).queue) ∨
    (requeued k c = [] ∧ (k.rq c).queue = [] ∧ (k'.rq c).queue = [] ∧
      next = (k.rq c).idleTask)
  assignedCpu : ∀ t, (k'.task t).assignedCpu =
    if t ∈ requeued k c then c else (k.task t).assignedCpu
  isIdle : ∀ t, (k'.task t).isIdle = (k.task t).isIdle
  alive : (k.task next).state ≠ .terminated ∧
      (k.task next).state ≠ .destroyed ∨ next = (k.rq c).idleTask
  state : ∀ t, t ≠ next → (k'.task t).state = (k.task t).state ∨
    ((k.task t).state = .running ∧ (k'.task t).state = .ready)
  nextState : (k'.task next).state = .running

theorem Dispatched.scheduled (hpick : pickNextTask k c = some next) (h : Dispatched k k' c next)
    (hback : requeued k c = []) : Scheduled k k' c next where
  others := h.others
  idleTask := h.idleTask
  current := h.current
  queue := by
    rw [hback, List.nil_append, h.queue]
    rcases pickNextTask_cases hpick with ⟨hq, hnext⟩ | ⟨l, hq, -, -⟩
    · exact .inr ⟨rfl, hq, by rw [hq]; rfl, hnext⟩
    left
    rw [hq]
    exact .refl _
  assignedCpu := by
    intro t
    rw [hback, h.assignedCpu, if_neg List.not_mem_nil]
  isIdle := h.isIdle
  alive := by
    rcases pickNextTask_cases hpick with ⟨-, hnext⟩ | ⟨l, -, h₁, h₂⟩
    · exact .inr hnext
    · exact .inl ⟨h₁, h₂⟩
  state := by
    intro t ht
    left
    rw [h.state, if_neg ht]
  nextState := by rw [h.state, if_pos rfl]

theorem Dispatched.scheduled_requeue (hcur : (k.rq c).current = some cur)
    (hrun : (k.task cur).state = .running)
    (hpick : pickNextTask (requeueCurrent k c cur) c = some next)
    (h : Dispatched (requeueCurrent k c cur) k' c next) : Scheduled k k' c next := by
  obtain ⟨l, hperm, hrq⟩ := requeueCurrent_rq_self k c cur
  have hback : requeued k c =
      if cur ≠ (k.rq c).idleTask then [cur] else [] := by
    unfold requeued
    rw [hcur]
    simp [hrun]
  have hmem : ∀ t, t ∈ requeued k c ↔ t = cur ∧ cur ≠ (k.rq c).idleTask := by
    intro t
    rw [hback]
    split
    · rename_i hne
      rw [List.mem_singleton]
      exact (and_iff_left hne).symm
    rename_i hne
    exact iff_of_false List.not_mem_nil fun hc => hne hc.2
  have hqueue : ((requeueCurrent k c cur).rq c).queue = l := by rw [hrq]
  refine ⟨fun d hd => ?_, ?_, h.current, ?_, fun t => ?_, fun t => ?_, ?_, fun t ht => ?_, ?_⟩
  · rw [h.others d hd, requeueCurrent_rq_of_ne _ _ hd]
  · rw [h.idleTask, hrq]
  · rw [h.queue, hqueue, hback]
    rcases pickNextTask_cases hpick with ⟨hq, hnext⟩ | ⟨l', hq, -, -⟩
    · rw [hqueue] at hq
      rw [hq] at hperm
      obtain ⟨h₁, h₂⟩ := List.append_eq_nil_iff.mp hperm.nil_eq.symm
      refine .inr ⟨h₁, h₂, by rw [hq]; rfl, ?_⟩
      rw [hnext, hrq]
    left
    rw [hqueue] at hq
    rw [hq] at hperm ⊢
    exact hperm
  · rw [h.assignedCpu, requeueCurrent_assignedCpu]
    exact if_congr (hmem t).symm rfl rfl
  · rw [h.isIdle, requeueCurrent_isIdle]
  · rcases pickNextTask_cases hpick with ⟨-, hnext⟩ | ⟨l', -, h₁, h₂⟩
    · right
      rw [hnext, hrq]
    · left
      rw [requeueCurrent_state] at h₁ h₂
      by_cases hn : next = cur
      · rw [hn, hrun]
        exact ⟨TaskState.noConfusion, TaskState.noConfusion⟩
      rw [if_neg hn] at h₁ h₂
      exact ⟨h₁, h₂⟩
  · rw [h.state, if_neg ht, requeueCurrent_state]
    by_cases htc : t = cur
    · right
      rw [if_pos htc, htc]
      exact ⟨hrun, rfl⟩
    left
    rw [if_neg htc]
  · rw [h.state, if_pos rfl]

theorem scheduleLocked_cases (hidle : (k.rq c).idleTask ∉ (k.rq c).queue)
    (h : scheduleLocked k c = some k') :
    (requeued k c = [] ∧ ∃ next, pickNextTask k c = some next ∧ Dispatched k k' c next) ∨
    ∃ cur next, (k.rq c).current = some cur ∧ (k.task cur).state = .running ∧
      pickNextTask (requeueCurrent k c cur) c = some next ∧
      Dispatched (requeueCurrent k c cur) k' c next := by
  unfold scheduleLocked at h
  cases hpick : pickNextTask k c with
  | none =>
    rw [hpick] at h
    cases h
  | some next =>
    rw [hpick] at h
    cases hcur : (k.rq c).current with
    | none =>
      rw [hcur] at h
      refine .inl ⟨?_, next, rfl, dispatch_spec hpick hidle h⟩
      unfold requeued
      rw [hcur]
    | some cur =>
      rw [hcur] at h
      dsimp only at h
      split at h
      · rename_i hrun
        obtain ⟨l, hperm, hrq⟩ := requeueCurrent_rq_self k c cur
        have hidle' : ((requeueCurrent k c cur).rq c).idleTask ∉
            ((requeueCurrent k c cur).rq c).queue := by
          rw [hrq]
          change (k.rq c).idleTask ∉ l
          rw [hperm.mem_iff, List.mem_append, not_or]
          refine ⟨?_, hidle⟩
          split
          · rename_i hne
            rw [List.mem_singleton]
            exact hne.symm
          · exact List.not_mem_nil
        cases hpick' : pickNextTask (requeueCurrent k c cur) c with
        | none =>
          rw [hpick'] at h
          cases h
        | some next' =>
          rw [hpick'] at h
          exact .inr ⟨cur, next', rfl, hrun, hpick', dispatch_spec hpick' hidle' h⟩
      rename_i hrun
      refine .inl ⟨?_, next, rfl, dispatch_spec hpick hidle h⟩
      unfold requeued
      rw [hcur]
      simp [hrun]

theorem scheduleLocked_spec (hidle : (k.rq c).idleTask ∉ (k.rq c).queue)
    (h : scheduleLocked k c = some k') : ∃ next, Scheduled k k' c next := by
  rcases scheduleLocked_cases hidle h with ⟨hback, next, hpick, hd⟩ |
    ⟨cur, next, hcur, hrun, hpick, hd⟩
  · exact ⟨next, hd.scheduled hpick hback⟩
  · exact ⟨next, hd.scheduled_requeue hcur hrun hpick⟩

/-! ## `task_destroy` -/

def taskDestroy (k : Kernel) (t : Nat) : Kernel :=
  if (k.task t).state ≠ .terminated then k
  else
    k.setTask t { k.task t with
      generation := ((k.task t).generation + 1) % 2 ^ 32 }

end SlmOs.Sched
