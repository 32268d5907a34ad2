import SlmOs.Sched.System

/-!
# What a step does

Every step of the system is one of a few effects: it links, unlinks or takes a
task, writes one field of one task, runs the critical section of `schedule`, or
is quiet.  The invariants of the scheduler are proved over these effects and not
over the code of each operation.
-/

namespace SlmOs.Sched

def OpPc.holds : OpPc → Option Nat
  | addState t => some t
  | addPlace t => some t
  | addCheck t _ => some t
  | addLock t _ => some t
  | rebalReady t _ => some t
  | rebalAssign t _ => some t
  | _ => none

/-- The task that an operation will link or make ready without another test. -/
def OpPc.committed : OpPc → Option Nat
  | addLock t _ => some t
  | rebalReady t _ => some t
  | _ => none

def OpPc.victim : OpPc → Option Nat
  | termRead t _ => some t
  | termLock t _ _ => some t
  | _ => none

def SchedPc.holds : SchedPc → Option Nat
  | stolen t => some t
  | _ => none

structure Quiet (k k' : Kernel) : Prop where
  queue : ∀ c, (k'.rq c).queue = (k.rq c).queue
  current : ∀ c, (k'.rq c).current = (k.rq c).current
  idleTask : ∀ c, (k'.rq c).idleTask = (k.rq c).idleTask
  state : ∀ t, (k'.task t).state = (k.task t).state
  assignedCpu : ∀ t, (k'.task t).assignedCpu = (k.task t).assignedCpu
  isIdle : ∀ t, (k'.task t).isIdle = (k.task t).isIdle

namespace Quiet

theorem refl (k : Kernel) : Quiet k k :=
  ⟨fun _ => rfl, fun _ => rfl, fun _ => rfl, fun _ => rfl, fun _ => rfl, fun _ => rfl⟩

theorem setTask (hstate : v.state = (k.task t).state)
    (hassigned : v.assignedCpu = (k.task t).assignedCpu)
    (hidle : v.isIdle = (k.task t).isIdle) : Quiet k (k.setTask t v) :=
  ⟨fun _ => rfl, fun _ => rfl, fun _ => rfl, setTask_field Task.state k hstate,
    setTask_field Task.assignedCpu k hassigned,
    setTask_field Task.isIdle k hidle⟩

theorem setRq (hqueue : q.queue = (k.rq c).queue) (hcurrent : q.current = (k.rq c).current)
    (hidle : q.idleTask = (k.rq c).idleTask) : Quiet k (k.setRq c q) := by
  refine ⟨fun d => ?_, fun d => ?_, fun d => ?_, fun _ => rfl, fun _ => rfl, fun _ => rfl⟩
  all_goals
    by_cases hd : d = c
    · subst hd
      rwa [Kernel.setRq_self]
    · rw [Kernel.setRq_of_ne _ _ hd]

theorem setDeque (k : Kernel) (c : Nat) (l : List (Option (Nat × Nat))) :
    Quiet k (k.setDeque c l) :=
  setRq rfl rfl rfl

theorem stealDequePush (k : Kernel) (c t : Nat) : Quiet k (stealDequePush k c t) := by
  unfold Sched.stealDequePush
  split
  · exact refl k
  · exact setDeque k c _

theorem taskDestroy (k : Kernel) (t : Nat) : Quiet k (taskDestroy k t) := by
  unfold Sched.taskDestroy
  split
  · exact refl k
  · apply setTask <;> rfl

end Quiet

/-! ## Operations -/

/-- `pc'` comes after `pc` without a task changing hands. -/
structure Follows (k : Kernel) (pc pc' : OpPc) : Prop where
  holds : ∀ t, pc'.holds = some t → pc.holds = some t
  committed : ∀ t, pc'.committed = some t → (k.task t).state = .ready
  victim : ∀ t, pc'.victim = some t → pc.victim = some t

theorem Follows.of_none (hholds : pc'.holds = none) (hcommitted : pc'.committed = none)
    (hvictim : pc'.victim = none) : Follows k pc pc' := by
  refine ⟨fun t ht => ?_, fun t ht => ?_, fun t ht => ?_⟩
  · rw [hholds] at ht
    cases ht
  · rw [hcommitted] at ht
    cases ht
  rw [hvictim] at ht
  cases ht

theorem Follows.of_eq (hholds : pc'.holds = pc.holds) (hcommitted : pc'.committed = none)
    (hvictim : pc'.victim = pc.victim) : Follows k pc pc' := by
  refine ⟨fun t ht => ?_, fun t ht => ?_, fun t ht => ?_⟩
  · rwa [← hholds]
  · rw [hcommitted] at ht
    cases ht
  · rwa [← hvictim]

inductive OpEffect (k : Kernel) : OpPc → Kernel → OpPc → Prop
  | quiet {pc pc' : OpPc} {k' : Kernel} (hk : Quiet k k')
      (hpc : Follows k pc pc') : OpEffect k pc k' pc'
  | link (t c : Nat) :
      OpEffect k (.addLock t c) (addToCpuQueueLocked k t c) (.addPublish t c)
  | unlink (t c attempts : Nat) :
      OpEffect k (.removeLock t c attempts) (removeFromCpuQueueLocked k t c).1 .done
  | terminate (t c attempts : Nat) (h : (k.task t).assignedCpu = c) :
      OpEffect k (.termLock t c attempts)
        (removeFromCpuQueueLocked (k.setState t .terminated) t c).1
        (.termDeque t c)
  | migrate (t old target : Nat) :
      OpEffect k (.migrLock t old target) (migrateLocked k t old target) .done
  | take (t busy idle : Nat) (h : rebalanceCandidate k busy = some t) :
      OpEffect k (.rebalLock busy idle) (removeFromCpuQueueLocked k t busy).1 (.rebalReady t idle)
  | ready (t idle : Nat) :
      OpEffect k (.rebalReady t idle) (k.setState t .ready) (.rebalAssign t idle)
  | assign (t idle : Nat) :
      OpEffect k (.rebalAssign t idle)
        (k.setTask t { k.task t with assignedCpu := idle }) (.addCheck t idle)
  | affinity (t c : Nat) :
      OpEffect k (.affinityAssign t c) (k.setTask t { k.task t with assignedCpu := c }) .done

theorem OpEffect.go (h : Follows k pc pc') : OpEffect k pc k pc' := .quiet (.refl k) h

theorem stepOp_effect (h : stepOp s n choice level = some s') :
    ∃ k' pc', s' = (s.setKernel k').setOp n pc' ∧ OpEffect s.kernel (s.op n) k' pc' := by
  cases hpc : s.op n with
  | done => simp [stepOp, hpc] at h
  | addState t =>
    simp only [stepOp, hpc] at h
    split at h
    · cases h
      exact ⟨_, _, rfl, .go (.of_eq rfl rfl rfl)⟩
    cases h
    exact ⟨_, _, rfl, .go (.of_none rfl rfl rfl)⟩
  | addPlace t =>
    simp only [stepOp, hpc] at h
    split at h
    all_goals
      cases h
      refine ⟨_, _, rfl, .quiet (.setTask ?_ ?_ ?_) (.of_eq rfl rfl rfl)⟩ <;> rfl
  | addCheck t c =>
    simp only [stepOp, hpc] at h
    split at h
    · rename_i hready
      cases h
      refine ⟨_, _, rfl, .go ⟨fun u hu => hu, fun u hu => ?_, fun u hu => hu⟩⟩
      cases hu
      exact hready.1
    cases h
    exact ⟨_, _, rfl, .go (.of_none rfl rfl rfl)⟩
  | addLock t c =>
    simp only [stepOp, hpc] at h
    cases h
    exact ⟨_, _, rfl, .link t c⟩
  | addPublish t c =>
    simp only [stepOp, hpc] at h
    split at h
    · cases h
      exact ⟨_, _, rfl, .quiet (.stealDequePush _ c t) (.of_none rfl rfl rfl)⟩
    cases h
    exact ⟨_, _, rfl, .go (.of_none rfl rfl rfl)⟩
  | removeRead t attempts | migrState t target | migrAffinity t target | migrRead t target =>
    simp only [stepOp, hpc] at h
    split at h
    all_goals
      cases h
      exact ⟨_, _, rfl, .go (.of_none rfl rfl rfl)⟩
  | removeLock t c attempts =>
    simp only [stepOp, hpc] at h
    split at h
    · cases h
      exact ⟨_, _, rfl, .go (.of_none rfl rfl rfl)⟩
    cases h
    exact ⟨_, _, rfl, .unlink t c attempts⟩
  | termRead t attempts =>
    simp only [stepOp, hpc] at h
    split at h
    · cases h
      exact ⟨_, _, rfl, .go (.of_none rfl rfl rfl)⟩
    cases h
    exact ⟨_, _, rfl, .go (.of_eq rfl rfl rfl)⟩
  | termLock t c attempts =>
    simp only [stepOp, hpc] at h
    split at h
    · cases h
      exact ⟨_, _, rfl, .go (.of_eq rfl rfl rfl)⟩
    rename_i hassigned
    cases h
    exact ⟨_, _, rfl, .terminate t c attempts (not_not.mp hassigned)⟩
  | termDeque t c =>
    simp only [stepOp, hpc] at h
    cases h
    exact ⟨_, _, rfl, .quiet (.setDeque _ c _) (.of_none rfl rfl rfl)⟩
  | migrLock t old target =>
    simp only [stepOp, hpc] at h
    cases h
    exact ⟨_, _, rfl, .migrate t old target⟩
  | rebalScan imbalanceMin counts =>
    simp only [stepOp, hpc] at h
    split at h
    · cases h
      exact ⟨_, _, rfl, .go (.of_none rfl rfl rfl)⟩
    split at h
    all_goals
      cases h
      exact ⟨_, _, rfl, .go (.of_none rfl rfl rfl)⟩
  | rebalLock busy idle =>
    simp only [stepOp, hpc] at h
    split at h
    · cases h
      exact ⟨_, _, rfl, .go (.of_none rfl rfl rfl)⟩
    rename_i t hcandidate
    cases h
    exact ⟨_, _, rfl, .take t busy idle hcandidate⟩
  | rebalReady t idle =>
    simp only [stepOp, hpc] at h
    cases h
    exact ⟨_, _, rfl, .ready t idle⟩
  | rebalAssign t idle =>
    simp only [stepOp, hpc] at h
    cases h
    exact ⟨_, _, rfl, .assign t idle⟩
  | affinityAssign t c =>
    simp only [stepOp, hpc] at h
    cases h
    exact ⟨_, _, rfl, .affinity t c⟩

/-! ## `schedule` -/

inductive SchedEffect (k : Kernel) (c : Nat) :
    SchedPc → Kernel → SchedPc → Prop
  | quiet {pc pc' : SchedPc} {k' : Kernel} (hk : Quiet k k')
      (hpc : pc'.holds = none) : SchedEffect k c pc k' pc'
  | take (i n t gen victim : Nat) (h : stealable k t gen victim = true) :
      SchedEffect k c (.candidate i n t gen) (removeFromCpuQueueLocked k t victim).1 (.stolen t)
  | link (t : Nat) :
      SchedEffect k c (.stolen t) (addToCpuQueueLocked k t c) .lock
  | switch {pc : SchedPc} {k' : Kernel} (h : scheduleLocked k c = some k') :
      SchedEffect k c pc k' .out

theorem stepSched_effect (h : stepSched s c skip = some s') : s' = { s with panicked := true } ∨
    ∃ k' pc', s' = (s.setKernel k').setSched c pc' ∧ SchedEffect s.kernel c (s.sched c) k' pc' := by
  cases hpc : s.sched c with
  | out => simp [stepSched, hpc] at h
  | steal =>
    simp only [stepSched, hpc] at h
    split at h
    all_goals
      cases h
      exact .inr ⟨_, _, rfl, .quiet (.refl _) rfl⟩
  | probe i n =>
    simp only [stepSched, hpc] at h
    split at h
    · cases h
      exact .inr ⟨_, _, rfl, .quiet (.refl _) rfl⟩
    split at h
    · cases h
      exact .inr ⟨_, _, rfl, .quiet (.refl _) rfl⟩
    split at h
    all_goals
      cases h
      exact .inr ⟨_, _, rfl, .quiet (.setDeque _ _ _) rfl⟩
  | candidate i n t gen =>
    simp only [stepSched, hpc] at h
    split at h
    · rename_i hsteal
      cases h
      exact .inr ⟨_, _, rfl, .take i n t gen _ hsteal⟩
    cases h
    exact .inr ⟨_, _, rfl, .quiet (.refl _) rfl⟩
  | stolen t =>
    simp only [stepSched, hpc] at h
    cases h
    exact .inr ⟨_, _, rfl, .link t⟩
  | lock =>
    simp only [stepSched, hpc] at h
    split at h
    · cases h
      refine .inr ⟨_, _, rfl, .quiet (.setRq ?_ ?_ ?_) rfl⟩ <;> rfl
    split at h
    · cases h
      exact .inl rfl
    rename_i hk
    cases h
    exact .inr ⟨_, _, rfl, .switch hk⟩
  | destroy z =>
    simp only [stepSched, hpc] at h
    cases h
    exact .inr ⟨_, _, rfl, .quiet (.taskDestroy _ z) rfl⟩
  | main =>
    simp only [stepSched, hpc] at h
    split at h
    · cases h
      exact .inl rfl
    rename_i hk
    cases h
    exact .inr ⟨_, _, rfl, .switch hk⟩

/-! ## The system -/

inductive Effect (s : Sys) : Action → Sys → Prop
  | panic (a : Action) : Effect s a { s with panicked := true }
  | quiet (a : Action) {k' : Kernel} (hk : Quiet s.kernel k') :
      Effect s a (s.setKernel k')
  /-- An operation other than `scheduler_add_task` begins. -/
  | call (a : Action) (n : Nat) {k' : Kernel} {pc : OpPc}
      (hk : Quiet s.kernel k') (hholds : pc.holds = none)
      (hcommitted : pc.committed = none)
      (hvictim : ∀ t, pc.victim = some t → (s.kernel.task t).isIdle = false) :
      Effect s a ((s.setKernel k').setOp n pc)
  | add (n t : Nat) : Effect s (.callAdd n t) (s.setOp n (.addState t))
  | op (n choice : Nat) (level : Option Nat) {k' : Kernel} {pc' : OpPc}
      (h : OpEffect s.kernel (s.op n) k' pc') :
      Effect s (.op n choice level) ((s.setKernel k').setOp n pc')
  | cpu (a : Action) (c : Nat) {k' : Kernel} {pc' : SchedPc}
      (h : SchedEffect s.kernel c (s.sched c) k' pc') :
      Effect s a ((s.setKernel k').setSched c pc')
  | block (c t : Nat) (hcur : (s.kernel.rq c).current = some t)
      (hidle : (s.kernel.task t).isIdle = false) :
      Effect s (.block c) { (s.setKernel (s.kernel.setState t .blocked)) with
        waiting := Function.update s.waiting t true }
  | wake (n t : Nat) (hw : s.waiting t = true) :
      Effect s (.wake n t)
        (Sys.setOp { (s.setKernel (s.kernel.setState t .ready)) with
          waiting := Function.update s.waiting t false } n (.addState t))

theorem start_eq (h : start s n pc = some s') : s' = s.setOp n pc := by
  unfold start at h
  split at h
  · exact (Option.some.inj h).symm
  · cases h

theorem step_effect (h : step s a = some s') : Effect s a s' := by
  -- an operation that begins without a task in its hands
  have hcall : ∀ {n : Nat} {pc : OpPc}, pc.holds = none →
      pc.committed = none → pc.victim = none → start s n pc = some s' →
      Effect s a s' := by
    intro n pc hholds hcommitted hvictim hs
    obtain rfl := start_eq hs
    refine .call a n (.refl _) hholds hcommitted fun t ht => ?_
    rw [hvictim] at ht
    cases ht
  unfold step at h
  split at h
  · cases h
  cases a with
  | callAdd n t =>
    obtain rfl := start_eq h
    exact .add n t
  | callRemove n t | callRebalance n imbalanceMin => exact hcall rfl rfl rfl h
  | callTerminate n t =>
    dsimp only at h
    split at h
    · cases h
      exact .panic _
    rename_i hidle
    obtain rfl := start_eq h
    refine .call _ n (.refl _) rfl rfl fun u hu => ?_
    cases hu
    simpa using hidle
  | callMigrate n t target =>
    dsimp only at h
    split at h
    · cases h
    · exact hcall rfl rfl rfl h
  | callSetAffinity n t cpu =>
    have haffinity : ∀ x, Quiet s.kernel (s.kernel.setTask t
        { s.kernel.task t with cpuAffinity := x }) :=
      fun x => .setTask rfl rfl rfl
    cases cpu with
    | none =>
      cases h
      exact .quiet _ (haffinity none)
    | some c =>
      dsimp only at h
      split at h
      · obtain rfl := start_eq h
        exact .call _ n (haffinity (some c)) rfl rfl nofun
      cases h
      exact .quiet _ (haffinity (some c))
  | op n choice level =>
    obtain ⟨k', pc', rfl, heff⟩ := stepOp_effect h
    exact .op n choice level heff
  | schedule c =>
    dsimp only at h
    split at h
    · split at h
      all_goals
        cases h
        exact .cpu _ c (.quiet (.refl _) rfl)
    · cases h
  | cpu c skip =>
    rcases stepSched_effect h with rfl | ⟨k', pc', rfl, heff⟩
    · exact .panic _
    · exact .cpu _ c heff
  | block c =>
    dsimp only at h
    split at h
    · cases h
    rename_i t hcur
    split at h
    · cases h
    rename_i hcond
    cases h
    exact .block c t hcur (by simpa using (not_or.mp hcond).1)
  | wake n t =>
    dsimp only at h
    split at h
    · rename_i hw
      obtain rfl := start_eq h
      exact .wake n t hw
    · cases h
  | tick ns =>
    cases h
    exact .quiet _ ⟨fun _ => rfl, fun _ => rfl, fun _ => rfl, fun _ => rfl,
      fun _ => rfl, fun _ => rfl⟩

end SlmOs.Sched
