import SlmOs.Foundation.Transition
import SlmOs.Sched.Kernel

/-!
# The scheduler as a system of interleaved operations

Every critical section is one step, and so is every unlocked access between two
of them.  `op n` is the program counter of the `n`-th operation in progress, of
which there may be any number, and `sched c` that of the `schedule()` call on
CPU `c`.  A waker takes the task off its wait queue, makes it ready and goes on
as `scheduler_add_task`.
-/

namespace SlmOs.Sched

open Function Foundation

inductive OpPc where
  | done
  /-- `scheduler_add_task`: test the state. -/
  | addState (t : Nat)
  /-- `scheduler_add_task`: read the affinity or ask the policy. -/
  | addPlace (t : Nat)
  /-- `scheduler_add_task_to_cpu`: test the state and the CPU. -/
  | addCheck (t c : Nat)
  | addLock (t c : Nat)
  | addPublish (t c : Nat)
  | removeRead (t attempts : Nat)
  | removeLock (t c attempts : Nat)
  | termRead (t attempts : Nat)
  | termLock (t c attempts : Nat)
  | termDeque (t c : Nat)
  | migrState (t target : Nat)
  | migrAffinity (t target : Nat)
  | migrRead (t target : Nat)
  | migrLock (t old target : Nat)
  /-- `sched_rebalance_tick`: the ready counts read so far. -/
  | rebalScan (imbalanceMin : Nat) (counts : List Nat)
  | rebalLock (busy idle : Nat)
  | rebalReady (t idle : Nat)
  | rebalAssign (t idle : Nat)
  | affinityAssign (t c : Nat)
  deriving DecidableEq, Repr

inductive SchedPc where
  | out
  /-- `sched_try_steal`: test the isolation of this CPU. -/
  | steal
  /-- The `n`-th probe of the `i`-th victim. -/
  | probe (i n : Nat)
  | candidate (i n t gen : Nat)
  | stolen (t : Nat)
  | lock
  | destroy (z : Nat)
  | main
  deriving DecidableEq, Repr

structure Sys where
  kernel : Kernel
  op : Nat → OpPc
  sched : Nat → SchedPc
  /-- On the wait queue of some object. -/
  waiting : Nat → Bool
  panicked : Bool

namespace Sys

def setKernel (s : Sys) (k : Kernel) : Sys := { s with kernel := k }

def setOp (s : Sys) (n : Nat) (pc : OpPc) : Sys :=
  { s with op := update s.op n pc }

def setSched (s : Sys) (c : Nat) (pc : SchedPc) : Sys :=
  { s with sched := update s.sched c pc }

end Sys

/-! ## Operations -/

def maxAttempts : Nat := 8

def rebalanceCandidate (k : Kernel) (c : Nat) : Option Nat :=
  (k.rq c).queue.find? fun t =>
    t ≠ (k.rq c).idleTask ∧ (k.task t).cpuAffinity = none ∧ (k.task t).state = .ready

structure LoadScan where
  busy : Nat
  idle : Nat
  maxReady : Nat
  minReady : Nat
  deriving DecidableEq, Repr

def LoadScan.consider (r : LoadScan) (i ready : Nat) : LoadScan :=
  let r := if ready > r.maxReady then { r with maxReady := ready, busy := i }
    else r
  if ready < r.minReady then { r with minReady := ready, idle := i } else r

def loadScan (counts : List Nat) : LoadScan :=
  counts.zipIdx.foldl (fun r p => r.consider p.2 p.1) ⟨0, 0, 0, 2 ^ 32 - 1⟩

def rebalancePick (imbalanceMin : Nat) (counts : List Nat) : Option (Nat × Nat) :=
  let r := loadScan counts
  if r.busy = r.idle then none
  else if r.maxReady < (r.minReady + imbalanceMin) % 2 ^ 32 then none
  else some (r.busy, r.idle)

def migrateLocked (k : Kernel) (t old target : Nat) : Kernel :=
  if (k.task t).state = .ready then
    let r := removeFromCpuQueueLocked k t old
    if r.2 then addToCpuQueueLocked r.1 t target
    else k.setTask t { k.task t with assignedCpu := target }
  else k.setTask t { k.task t with assignedCpu := target }

/--
One step of operation `n`.  `choice` and `level` are the CPU and the AI level
that the placement policy comes up with.
-/
def stepOp (s : Sys) (n choice : Nat) (level : Option Nat) : Option Sys :=
  let k := s.kernel
  match s.op n with
  | .done => none
  | .addState t =>
    if (k.task t).state = .ready then some (s.setOp n (.addPlace t))
    else some (s.setOp n .done)
  | .addPlace t =>
    match (k.task t).cpuAffinity with
    | some c =>
      some ((s.setKernel (k.setTask t
        { k.task t with aiPriority := none })).setOp n (.addCheck t c))
    | none =>
      some ((s.setKernel (k.setTask t { k.task t with aiPriority := level })).setOp n
          (.addCheck t choice))
  | .addCheck t c =>
    if (k.task t).state = .ready ∧ c < k.cpuCount then
      some (s.setOp n (.addLock t c))
    else some (s.setOp n .done)
  | .addLock t c =>
    some ((s.setKernel (addToCpuQueueLocked k t c)).setOp n (.addPublish t c))
  | .addPublish t c =>
    if (k.task t).cpuAffinity = none ∧ t ≠ (k.rq c).idleTask then
      some ((s.setKernel (stealDequePush k c t)).setOp n .done)
    else some (s.setOp n .done)
  | .removeRead t attempts =>
    if attempts ≥ maxAttempts ∨ (k.task t).assignedCpu ≥ k.cpuCount then
      some (s.setOp n .done)
    else
      some (s.setOp n (.removeLock t (k.task t).assignedCpu attempts))
  | .removeLock t c attempts =>
    if (k.task t).assignedCpu ≠ c then
      some (s.setOp n (.removeRead t (attempts + 1)))
    else
      some ((s.setKernel (removeFromCpuQueueLocked k t c).1).setOp n .done)
  | .termRead t attempts =>
    if attempts ≥ maxAttempts ∨ (k.task t).assignedCpu ≥ k.cpuCount then
      some (s.setOp n .done)
    else
      some (s.setOp n (.termLock t (k.task t).assignedCpu attempts))
  | .termLock t c attempts =>
    if (k.task t).assignedCpu ≠ c then
      some (s.setOp n (.termRead t (attempts + 1)))
    else
      some ((s.setKernel (removeFromCpuQueueLocked (k.setState t .terminated) t c).1).setOp n
          (.termDeque t c))
  | .termDeque t c =>
    some ((s.setKernel (stealDequeRemove k c t)).setOp n .done)
  | .migrState t target =>
    if (k.task t).state = .running then some (s.setOp n .done)
    else some (s.setOp n (.migrAffinity t target))
  | .migrAffinity t target =>
    if (k.task t).cpuAffinity ≠ none ∧
        (k.task t).cpuAffinity ≠ some target then some (s.setOp n .done)
    else some (s.setOp n (.migrRead t target))
  | .migrRead t target =>
    if (k.task t).assignedCpu = target then some (s.setOp n .done)
    else some (s.setOp n (.migrLock t (k.task t).assignedCpu target))
  | .migrLock t old target =>
    some ((s.setKernel (migrateLocked k t old target)).setOp n .done)
  | .rebalScan imbalanceMin counts =>
    if counts.length < k.cpuCount then
      some (s.setOp n (.rebalScan imbalanceMin (counts ++ [(k.rq counts.length).queue.length])))
    else
      match rebalancePick imbalanceMin counts with
      | none => some (s.setOp n .done)
      | some (busy, idle) => some (s.setOp n (.rebalLock busy idle))
  | .rebalLock busy idle =>
    match rebalanceCandidate k busy with
    | none => some (s.setOp n .done)
    | some t =>
      some ((s.setKernel (removeFromCpuQueueLocked k t busy).1).setOp n (.rebalReady t idle))
  | .rebalReady t idle =>
    some ((s.setKernel (k.setState t .ready)).setOp n (.rebalAssign t idle))
  | .rebalAssign t idle =>
    some ((s.setKernel (k.setTask t
      { k.task t with assignedCpu := idle })).setOp n (.addCheck t idle))
  | .affinityAssign t c =>
    some ((s.setKernel (k.setTask t { k.task t with assignedCpu := c })).setOp n .done)

/-! ## `schedule` -/

def stealable (k : Kernel) (t gen victim : Nat) : Bool :=
  (k.task t).generation = gen ∧ (k.task t).state = .ready ∧
    (k.task t).assignedCpu = victim ∧ (k.task t).cpuAffinity = none ∧
    t ∈ (k.rq victim).queue

/--
One step of the `schedule()` call on CPU `c`; `skip` is the value read from
`preempt_disabled` of a victim.
-/
def stepSched (s : Sys) (c : Nat) (skip : Bool) : Option Sys :=
  let k := s.kernel
  match s.sched c with
  | .out => none
  | .steal =>
    if k.isolatedCores c then some (s.setSched c .lock)
    else some (s.setSched c (.probe 1 0))
  | .probe i n =>
    if i ≥ k.cpuCount then some (s.setSched c .lock)
    else if n ≥ stealDequeCapacity ∨ (n = 0 ∧ skip) then
      some (s.setSched c (.probe (i + 1) 0))
    else
      let r := stealDequeSteal k ((c + i) % k.cpuCount)
      match r.2 with
      | none => some ((s.setKernel r.1).setSched c (.probe (i + 1) 0))
      | some e =>
        some ((s.setKernel r.1).setSched c (.candidate i n e.1 e.2))
  | .candidate i n t gen =>
    let victim := (c + i) % k.cpuCount
    if stealable k t gen victim then
      some ((s.setKernel (removeFromCpuQueueLocked k t victim).1).setSched c (.stolen t))
    else some (s.setSched c (.probe i (n + 1)))
  | .stolen t =>
    some ((s.setKernel (addToCpuQueueLocked k t c)).setSched c .lock)
  | .lock =>
    match (k.rq c).zombie with
    | some z =>
      some ((s.setKernel (k.setRq c { k.rq c with zombie := none })).setSched
        c (.destroy z))
    | none =>
      match scheduleLocked k c with
      | none => some { s with panicked := true }
      | some k' => some ((s.setKernel k').setSched c .out)
  | .destroy z =>
    some ((s.setKernel (taskDestroy k z)).setSched c .main)
  | .main =>
    match scheduleLocked k c with
    | none => some { s with panicked := true }
    | some k' => some ((s.setKernel k').setSched c .out)

/-! ## The system -/

inductive Action where
  | callAdd (n t : Nat)
  | callRemove (n t : Nat)
  | callTerminate (n t : Nat)
  | callMigrate (n t target : Nat)
  | callRebalance (n imbalanceMin : Nat)
  | callSetAffinity (n t : Nat) (cpu : Option Nat)
  | op (n choice : Nat) (level : Option Nat)
  | schedule (c : Nat)
  | cpu (c : Nat) (skip : Bool)
  | block (c : Nat)
  /-- A waker takes a task off a wait queue. -/
  | wake (n t : Nat)
  | tick (ns : Nat)
  deriving DecidableEq, Repr

def start (s : Sys) (n : Nat) (pc : OpPc) : Option Sys :=
  if s.op n = .done then some (s.setOp n pc) else none

def step (s : Sys) (a : Action) : Option Sys :=
  if s.panicked then none
  else
    match a with
    | .callAdd n t => start s n (.addState t)
    | .callRemove n t => start s n (.removeRead t 0)
    | .callTerminate n t =>
      if (s.kernel.task t).isIdle then some { s with panicked := true }
      else start s n (.termRead t 0)
    | .callMigrate n t target =>
      if target ≥ s.kernel.cpuCount then none
      else start s n (.migrState t target)
    | .callRebalance n imbalanceMin => start s n (.rebalScan imbalanceMin [])
    | .callSetAffinity n t cpu =>
      match cpu with
      | some c =>
        if c < s.kernel.cpuCount then
          start (s.setKernel (s.kernel.setTask t { s.kernel.task t with cpuAffinity := some c })) n
            (.affinityAssign t c)
        else
          some (s.setKernel (s.kernel.setTask t { s.kernel.task t with cpuAffinity := some c }))
      | none =>
        some (s.setKernel (s.kernel.setTask t { s.kernel.task t with cpuAffinity := none }))
    | .op n choice level => stepOp s n choice level
    | .schedule c =>
      if s.sched c = .out ∧ c < s.kernel.cpuCount then
        if (s.kernel.rq c).queue = [] then some (s.setSched c .steal)
        else some (s.setSched c .lock)
      else none
    | .cpu c skip => stepSched s c skip
    | .block c =>
      match (s.kernel.rq c).current with
      | none => none
      | some t =>
        if (s.kernel.task t).isIdle ∨ s.sched c ≠ .out then none
        else
          some { (s.setKernel (s.kernel.setState t .blocked)) with
            waiting := update s.waiting t true }
    | .wake n t =>
      if s.waiting t then
        start { (s.setKernel (s.kernel.setState t .ready)) with
          waiting := update s.waiting t false } n (.addState t)
      else none
    | .tick ns =>
      some (s.setKernel { s.kernel with now := s.kernel.now + ns })

end SlmOs.Sched
