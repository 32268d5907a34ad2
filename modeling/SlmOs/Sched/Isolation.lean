import SlmOs.Foundation.Scan
import SlmOs.Sched.Dispatch

/-!
# Placement and core isolation

How a task without affinity gets its CPU: the scans of the heuristic policy, the
AI policies that fall back to it, the load-balance override, the thieves and the
rebalancer.  All of them but the last look at the isolation mask.
-/

namespace SlmOs.Sched

open Foundation List Nat OrderDual

def maxTasks : Nat := 64

def maxCpus : Nat := 8

def uint32Max : Nat := 2 ^ 32 - 1

structure Balancer where
  kernel : Kernel
  rrNext : Nat
  rebalanceTickCounter : Nat

def Kernel.readyCount (k : Kernel) (c : Nat) : Nat := (k.rq c).queue.length

/-! ## The heuristic policy -/

def deadlineUrgency (now deadline : Nat) : Nat :=
  if deadline > 0 then
    if now ≥ deadline then 8
    else if deadline - now < 10 * 1000000 then 8
    else if deadline - now < 50 * 1000000 then 4
    else if deadline - now < 100 * 1000000 then 2
    else 1
  else 0

def calculateDeadlinePressure (k : Kernel) (c : Nat) : Nat :=
  (k.rq c).queue.foldl (fun p t => (p + deadlineUrgency k.now (k.task t).deadlineNs) % 2 ^ 32) 0

def cpuScore (k : Kernel) (c : Nat) : Nat :=
  (k.readyCount c + calculateDeadlinePressure k c) % 2 ^ 32

def cursorOrder (start n : Nat) : List Nat :=
  (range n).map fun i => (start + i) % 2 ^ 32 % n

def findTargetCpu (b : Balancer) : Nat × Balancer :=
  let best := (scanMin (fun c => !b.kernel.isolatedCores c) (cpuScore b.kernel) (0, uint32Max)
    (cursorOrder b.rrNext b.kernel.cpuCount)).1
  (best, { b with rrNext := (best + 1) % 2 ^ 32 })

/-- The best of the CPUs above 0; `none` is `found_perf_core == 0`. -/
def performanceCpu (k : Kernel) : Option Nat :=
  (scanMin (fun c : Option Nat => c.any fun c => !k.isolatedCores c)
    (fun c => c.elim 0 (cpuScore k)) (none, uint32Max)
    ((range' 1 (k.cpuCount - 1)).map some)).1

def findPerformanceCpu (b : Balancer) : Nat × Balancer :=
  if b.kernel.cpuCount ≤ 1 then (0, b)
  else
    match performanceCpu b.kernel with
    | none => findTargetCpu b
    | some c => (c, b)

def heuristicAssignCpu (b : Balancer) (t : Nat) : Nat × Balancer :=
  if (b.kernel.task t).deadlineNs > 0 then findPerformanceCpu b
  else findTargetCpu b

/-! ## The AI policies -/

structure AiSchedAction where
  coreAssignment : Nat
  priorityAdj : Nat
  preempt : Nat
  deriving DecidableEq, Repr

def aiValidateAction (a : AiSchedAction) (numCores : Nat) : Bool :=
  a.coreAssignment < numCores ∧ a.priorityAdj ≤ 2 ∧ a.preempt ≤ 1

def schedIsCoreIsolated (k : Kernel) (c : Nat) : Bool :=
  c < k.cpuCount ∧ k.isolatedCores c

def aiPrioLower : Nat := 0

def aiPrioRaise : Nat := 2

def priorityLevels : List Nat := [0, 2, 4, 6, 7]

def levelIndex (current : Nat) : Nat :=
  (range priorityLevels.length).foldl
    (fun idx i => if priorityLevels.getD i 0 ≤ current then i else idx) 0

def schedAiStepPriority (current adj : Nat) : Nat :=
  if adj ≠ aiPrioLower ∧ adj ≠ aiPrioRaise then current
  else
    let idx := levelIndex current
    let idx :=
      if adj = aiPrioLower then (if idx > 0 then idx - 1 else 0)
      else if idx < priorityLevels.length - 1 then idx + 1
      else priorityLevels.length - 1
    priorityLevels.getD idx 0

def schedAiApplyPriorityAction (k : Kernel) (t adj : Nat) : Kernel :=
  if ¬k.aiPriorityActions then k
  else if (k.task t).piPriority > effectiveBasePriority k (k.task t) then k
  else
    k.setTask t { k.task t with
      aiPriority := some (schedAiStepPriority (k.eff t) adj) }

inductive Decision where
  | heuristic
  /-- `ai_mlp`, `ai_ppo` and `ai_hailo`; `none` is a failed inference. -/
  | inference (action : Option AiSchedAction)
  /-- `ai_xgb`: the core and priority labels; `none` is a failed cascade. -/
  | cascade (labels : Option (Int × Nat))

def aiAssignCpuCommon (b : Balancer) (t : Nat) (action : Option AiSchedAction) : Nat × Balancer :=
  match action with
  | none => heuristicAssignCpu b t
  | some a =>
    if ¬aiValidateAction a b.kernel.cpuCount ∨
        (schedIsCoreIsolated b.kernel a.coreAssignment ∧ (b.kernel.task t).cpuAffinity = none) then
      heuristicAssignCpu b t
    else
      (a.coreAssignment, { b with
        kernel := schedAiApplyPriorityAction b.kernel t a.priorityAdj })

def aiXgbAssignCpu (b : Balancer) (t : Nat) (labels : Option (Int × Nat)) : Nat × Balancer :=
  match labels with
  | none => heuristicAssignCpu b t
  | some (coreLabel, prioLabel) =>
    if coreLabel < 0 then heuristicAssignCpu b t
    else
      let core := coreLabel.toNat
      let core := if core ≥ b.kernel.cpuCount then core % b.kernel.cpuCount
        else core
      if schedIsCoreIsolated b.kernel core ∧
          (b.kernel.task t).cpuAffinity = none then
        heuristicAssignCpu b t
      else
        (core, { b with
          kernel := schedAiApplyPriorityAction b.kernel t (prioLabel % 256) })

def assignCpu (b : Balancer) (t : Nat) : Decision → Nat × Balancer
  | .heuristic => heuristicAssignCpu b t
  | .inference action => aiAssignCpuCommon b t action
  | .cascade labels => aiXgbAssignCpu b t labels

/-! ## `scheduler_add_task` -/

structure BalanceConfig where
  enabled : Nat
  minTargetReady : Nat
  minActiveCpus : Nat
  imbalanceNum : Nat
  imbalanceDen : Nat
  deriving DecidableEq, Repr

def balanceConfigDefaults : BalanceConfig := ⟨1, 2, 2, 3, 2⟩

def openCpus (k : Kernel) : List Nat :=
  (range k.cpuCount).filter fun c => !k.isolatedCores c

def leastLoadedCpu (k : Kernel) (fallback : Nat) : Nat × Nat × Nat :=
  ((scanMin (fun c => !k.isolatedCores c) k.readyCount (fallback, uint32Max) (range k.cpuCount)).1,
    ((openCpus k).map k.readyCount).sum % 2 ^ 32, (openCpus k).length)

def balanceOverride (k : Kernel) (cfg : BalanceConfig) (target : Nat) : Nat :=
  if k.cpuCount > 1 ∧ target < k.cpuCount ∧ cfg.enabled ≠ 0 ∧
      ¬k.isolatedCores target then
    if k.readyCount target ≥ cfg.minTargetReady then
      let r := leastLoadedCpu k target
      if r.2.2 ≥ cfg.minActiveCpus ∧ r.1 ≠ target ∧
          k.readyCount r.1 < k.readyCount target ∧
          cfg.imbalanceDen * k.readyCount target % 2 ^ 64 * r.2.2 % 2 ^ 64 >
            cfg.imbalanceNum * r.2.1 % 2 ^ 64 then r.1
      else target
    else target
  else target

def schedulerAddTask (b : Balancer) (t : Nat) (d : Decision) (cfg : BalanceConfig) : Balancer :=
  if (b.kernel.task t).state ≠ .ready then b
  else
    let b := { b with
      kernel := b.kernel.setTask t { b.kernel.task t with aiPriority := none } }
    match (b.kernel.task t).cpuAffinity with
    | some c => { b with kernel := schedulerAddTaskToCpu b.kernel t c }
    | none =>
      let r := assignCpu b t d
      let target := balanceOverride r.2.kernel cfg r.1
      { r.2 with kernel := schedulerAddTaskToCpu r.2.kernel t target }

/-! ## Thieves -/

def stealFrom (k : Kernel) (victim : Nat) : Nat → Kernel × Option Nat
  | 0 => (k, none)
  | probes + 1 =>
    let r := stealDequeSteal k victim
    match r.2 with
    | none => (r.1, none)
    | some e =>
      if stealable r.1 e.1 e.2 victim then
        ((removeFromCpuQueueLocked r.1 e.1 victim).1, some e.1)
      else stealFrom r.1 victim probes

def stealVictims (k : Kernel) (skip : Nat → Bool) : List Nat → Kernel × Option Nat
  | [] => (k, none)
  | v :: vs =>
    if skip v then stealVictims k skip vs
    else
      match stealFrom k v stealDequeCapacity with
      | (k', some t) => (k', some t)
      | (k', none) => stealVictims k' skip vs

/-- `skip` is `preempt_disabled`. -/
def schedTrySteal (k : Kernel) (c : Nat) (skip : Nat → Bool) : Kernel × Option Nat :=
  if k.isolatedCores c then (k, none)
  else
    stealVictims k skip ((range' 1 (k.cpuCount - 1)).map fun i => (c + i) % k.cpuCount)

def stealInto (k : Kernel) (c : Nat) (skip : Nat → Bool) : Kernel :=
  if (k.rq c).queue ≠ [] then k
  else
    match schedTrySteal k c skip with
    | (k', some t) => addToCpuQueueLocked k' t c
    | (k', none) => k'

/-! ## The rebalancer -/

structure RebalanceConfig where
  enabled : Nat
  intervalTicks : Nat
  imbalanceMin : Nat
  deriving DecidableEq, Repr

def rebalanceConfigDefaults : RebalanceConfig := ⟨1, 100, 2⟩

def readyCounts (k : Kernel) : List Nat :=
  (range k.cpuCount).map k.readyCount

def rebalanceMove (k : Kernel) (busy idle : Nat) : Kernel :=
  match rebalanceCandidate k busy with
  | none => k
  | some t =>
    let k := (removeFromCpuQueueLocked k t busy).1
    let k := k.setState t .ready
    let k := k.setTask t { k.task t with assignedCpu := idle }
    schedulerAddTaskToCpu k t idle

def schedRebalanceTick (b : Balancer) (cpu : Nat) (cfg : RebalanceConfig) :
    Balancer :=
  if cpu ≠ 0 then b
  else if cfg.enabled = 0 then b
  else
    let b := { b with
      rebalanceTickCounter := (b.rebalanceTickCounter + 1) % 2 ^ 64 }
    if b.rebalanceTickCounter % cfg.intervalTicks ≠ 0 then b
    else if b.kernel.cpuCount < 2 then b
    else
      match rebalancePick cfg.imbalanceMin (readyCounts b.kernel) with
      | none => b
      | some (busy, idle) =>
        { b with kernel := rebalanceMove b.kernel busy idle }

/-! ## The system -/

inductive BalanceAction where
  | place (t : Nat) (d : Decision) (cfg : BalanceConfig)
  | steal (c : Nat) (skip : Nat → Bool)
  | rebalance (cpu : Nat) (cfg : RebalanceConfig)
  | remove (t : Nat)
  | isolate (c : Nat)
  | unisolate (c : Nat)

def schedIsolateCore (k : Kernel) (c : Nat) : Kernel :=
  if c ≥ k.cpuCount ∨ c = 0 then k
  else { k with isolatedCores := Function.update k.isolatedCores c true }

def schedUnisolateCore (k : Kernel) (c : Nat) : Kernel :=
  if c ≥ k.cpuCount then k
  else { k with isolatedCores := Function.update k.isolatedCores c false }

def balanceStep (b : Balancer) : BalanceAction → Option Balancer
  | .place t d cfg => some (schedulerAddTask b t d cfg)
  | .steal c skip =>
    if c < b.kernel.cpuCount then
      some { b with kernel := stealInto b.kernel c skip }
    else none
  | .rebalance cpu cfg => some (schedRebalanceTick b cpu cfg)
  | .remove t => some { b with kernel := schedulerRemoveTask b.kernel t }
  | .isolate c => some { b with kernel := schedIsolateCore b.kernel c }
  | .unisolate c => some { b with kernel := schedUnisolateCore b.kernel c }

/-! ## The invariant -/

structure PoolOk (b : Balancer) : Prop where
  consistent : Consistent (still b.kernel)
  slots : ∀ c, ∀ t ∈ (b.kernel.rq c).queue, t < maxTasks
  cpus : 0 < b.kernel.cpuCount ∧ b.kernel.cpuCount ≤ maxCpus
  cursor : b.rrNext ≤ b.kernel.cpuCount

variable {b : Balancer}

theorem PoolOk.readyCount_le (h : PoolOk b) (c : Nat) : b.kernel.readyCount c ≤ maxTasks := by
  have hsub : (b.kernel.rq c).queue ⊆ range maxTasks := fun t ht =>
    mem_range.mpr (h.slots c t ht)
  have hle := (List.Nodup.subperm (h.consistent.nodup c) hsub).length_le
  rwa [length_range] at hle

theorem deadlineUrgency_le (now deadline : Nat) : deadlineUrgency now deadline ≤ 8 := by
  unfold deadlineUrgency
  split_ifs <;> omega

theorem pressure_le (k : Kernel) (l : List Nat) : ∀ p, l.foldl (fun p t =>
      (p + deadlineUrgency k.now (k.task t).deadlineNs) % 2 ^ 32) p ≤
      p + 8 * l.length := by
  induction l with
  | nil => exact fun p => le_refl p
  | cons t l ih =>
    intro p
    have hurgency := deadlineUrgency_le k.now (k.task t).deadlineNs
    rw [foldl_cons, length_cons]
    have := ih ((p + deadlineUrgency k.now (k.task t).deadlineNs) % 2 ^ 32)
    omega

theorem PoolOk.cpuScore_lt (h : PoolOk b) (c : Nat) : cpuScore b.kernel c < uint32Max := by
  have hready := h.readyCount_le c
  have hpressure := pressure_le b.kernel (b.kernel.rq c).queue 0
  change calculateDeadlinePressure b.kernel c ≤ 0 + 8 * b.kernel.readyCount c at hpressure
  unfold cpuScore
  unfold uint32Max
  unfold maxTasks at hready
  omega

structure SameLoads (k k' : Kernel) : Prop where
  quiet : Quiet k k'
  cpuAffinity : ∀ t, (k'.task t).cpuAffinity = (k.task t).cpuAffinity
  cpuCount : k'.cpuCount = k.cpuCount
  isolatedCores : k'.isolatedCores = k.isolatedCores

theorem SameLoads.refl (k : Kernel) : SameLoads k k := ⟨.refl k, fun _ => rfl, rfl, rfl⟩

theorem SameLoads.trans (h : SameLoads k₁ k₂) (h' : SameLoads k₂ k₃) : SameLoads k₁ k₃ where
  quiet := ⟨fun c => (h'.quiet.queue c).trans (h.quiet.queue c),
    fun c => (h'.quiet.current c).trans (h.quiet.current c),
    fun c => (h'.quiet.idleTask c).trans (h.quiet.idleTask c),
    fun t => (h'.quiet.state t).trans (h.quiet.state t),
    fun t => (h'.quiet.assignedCpu t).trans (h.quiet.assignedCpu t),
    fun t => (h'.quiet.isIdle t).trans (h.quiet.isIdle t)⟩
  cpuAffinity := fun t => (h'.cpuAffinity t).trans (h.cpuAffinity t)
  cpuCount := h'.cpuCount.trans h.cpuCount
  isolatedCores := h'.isolatedCores.trans h.isolatedCores

theorem SameLoads.setAiPriority (k : Kernel) (t : Nat) (level : Option Nat) :
    SameLoads k (k.setTask t { k.task t with aiPriority := level }) := by
  refine ⟨.setTask rfl rfl rfl, ?_, rfl, rfl⟩
  apply setTask_field Task.cpuAffinity
  rfl

theorem SameLoads.apply (k : Kernel) (t adj : Nat) :
    SameLoads k (schedAiApplyPriorityAction k t adj) := by
  unfold schedAiApplyPriorityAction
  split
  · exact .refl k
  split
  · exact .refl k
  · exact .setAiPriority k t _

theorem SameLoads.setDeque (k : Kernel) (c : Nat)
    (l : List (Option (Nat × Nat))) : SameLoads k (k.setDeque c l) :=
  ⟨.setDeque k c l, fun _ => rfl, rfl, rfl⟩

theorem PoolOk.same (h : PoolOk b) (hk : SameLoads b.kernel k') (hrr : rr ≤ k'.cpuCount) :
    PoolOk ⟨k', rr, n⟩ where
  consistent := h.consistent.quiet hk.quiet
  slots := by
    intro c t ht
    rw [hk.quiet.queue] at ht
    exact h.slots c t ht
  cpus := by
    rw [hk.cpuCount]
    exact h.cpus
  cursor := hrr

/-! ## Where a placement goes -/

def SomeOpen (k : Kernel) : Prop := ∃ d < k.cpuCount, k.isolatedCores d = false

theorem cursor_covers : ∀ n ≤ maxCpus, ∀ start ≤ n, ∀ d < n, ∃ i < n, (start + i) % n = d := by
  decide

theorem findTargetCpu_lt (h : PoolOk b) : (findTargetCpu b).1 < b.kernel.cpuCount := by
  rcases scanMin_cases (fun c => !b.kernel.isolatedCores c) (cpuScore b.kernel) (0, uint32Max)
    (cursorOrder b.rrNext b.kernel.cpuCount) with heq | ⟨hmem, -⟩
  · exact lt_of_le_of_lt (le_of_eq heq) h.cpus.1
  obtain ⟨i, -, heq⟩ := mem_map.mp hmem
  exact lt_of_le_of_lt (le_of_eq heq.symm) (mod_lt _ h.cpus.1)

theorem findTargetCpu_open (h : PoolOk b) (hopen : SomeOpen b.kernel) :
    b.kernel.isolatedCores (findTargetCpu b).1 = false := by
  obtain ⟨d, hd, hfree⟩ := hopen
  obtain ⟨i, hi, hcover⟩ := cursor_covers _ h.cpus.2 _ h.cursor d hd
  have hsmall : (b.rrNext + i) % 2 ^ 32 = b.rrNext + i := by
    have hcpus := h.cpus.2
    have hcursor := h.cursor
    unfold maxCpus at hcpus
    omega
  have hmem : d ∈ cursorOrder b.rrNext b.kernel.cpuCount := by
    refine mem_map.mpr ⟨i, mem_range.mpr hi, ?_⟩
    rw [hsmall, hcover]
  have hfound : FirstMin (fun c => !b.kernel.isolatedCores c)
      (cpuScore b.kernel) (cursorOrder b.rrNext b.kernel.cpuCount)
      (findTargetCpu b).1 :=
    scanMin_found hmem (by simp [hfree]) (h.cpuScore_lt d)
  simpa using hfound.admissible

variable {k : Kernel}

theorem performanceCpu_open (h : performanceCpu k = some c) :
    c < k.cpuCount ∧ k.isolatedCores c = false := by
  rcases scanMin_cases (fun c : Option Nat => c.any fun c => !k.isolatedCores c)
    (fun c => c.elim 0 (cpuScore k)) (none, uint32Max)
    ((range' 1 (k.cpuCount - 1)).map some) with heq | ⟨hmem, hok⟩
  · cases h.symm.trans heq
  change performanceCpu k ∈ _ at hmem
  change (performanceCpu k).any _ = true at hok
  rw [h] at hmem hok
  obtain ⟨i, hi, heqi⟩ := mem_map.mp hmem
  cases heqi
  rw [mem_range'_1] at hi
  refine ⟨by omega, ?_⟩
  simpa using hok

structure Assigns (b b' : Balancer) (t target : Nat) : Prop where
  same : SameLoads b.kernel b'.kernel
  cursor : b'.rrNext ≤ b.kernel.cpuCount
  target : SomeOpen b.kernel → (b.kernel.task t).cpuAffinity = none →
    b.kernel.isolatedCores target = false

theorem assigns_findTargetCpu (h : PoolOk b) (t : Nat) :
    Assigns b (findTargetCpu b).2 t (findTargetCpu b).1 := by
  refine ⟨.refl _, ?_, fun hopen _ => findTargetCpu_open h hopen⟩
  have hlt := findTargetCpu_lt h
  change ((findTargetCpu b).1 + 1) % 2 ^ 32 ≤ b.kernel.cpuCount
  omega

theorem assigns_heuristic (h : PoolOk b) (t : Nat) :
    Assigns b (heuristicAssignCpu b t).2 t (heuristicAssignCpu b t).1 := by
  unfold heuristicAssignCpu
  split
  · unfold findPerformanceCpu
    split
    · rename_i hone
      refine ⟨.refl _, h.cursor, fun hopen _ => ?_⟩
      obtain ⟨d, hd, hfree⟩ := hopen
      obtain rfl : d = 0 := by omega
      exact hfree
    cases hperf : performanceCpu b.kernel with
    | none => exact assigns_findTargetCpu h t
    | some c =>
      exact ⟨.refl _, h.cursor, fun _ _ => (performanceCpu_open hperf).2⟩
  · exact assigns_findTargetCpu h t

variable {t : Nat}

theorem assigns_core (h : PoolOk b) (hcore : core < b.kernel.cpuCount)
    (hc : ¬(schedIsCoreIsolated b.kernel core = true ∧ (b.kernel.task t).cpuAffinity = none)) :
    Assigns b { b with kernel := schedAiApplyPriorityAction b.kernel t adj } t
      core := by
  refine ⟨.apply _ t adj, h.cursor, fun _ hany => ?_⟩
  by_contra hisolated
  refine hc ⟨?_, hany⟩
  exact decide_eq_true ⟨hcore, by simpa using hisolated⟩

theorem assigns_assignCpu (h : PoolOk b) (t : Nat) (d : Decision) :
    Assigns b (assignCpu b t d).2 t (assignCpu b t d).1 := by
  cases d with
  | heuristic => exact assigns_heuristic h t
  | inference action =>
    cases action with
    | none => exact assigns_heuristic h t
    | some a =>
      change Assigns b (aiAssignCpuCommon b t (some a)).2 t (aiAssignCpuCommon b t (some a)).1
      unfold aiAssignCpuCommon
      dsimp only
      split
      · exact assigns_heuristic h t
      rename_i hc
      rw [not_or, not_not] at hc
      exact assigns_core h (of_decide_eq_true hc.1).1 hc.2
  | cascade labels =>
    cases labels with
    | none => exact assigns_heuristic h t
    | some labels =>
      obtain ⟨label, prio⟩ := labels
      change Assigns b (aiXgbAssignCpu b t (some (label, prio))).2 t
        (aiXgbAssignCpu b t (some (label, prio))).1
      unfold aiXgbAssignCpu
      dsimp only
      have hcore : (if label.toNat ≥ b.kernel.cpuCount then
          label.toNat % b.kernel.cpuCount else label.toNat) <
          b.kernel.cpuCount := by
        split
        · exact mod_lt _ h.cpus.1
        · omega
      generalize (if label.toNat ≥ b.kernel.cpuCount then
        label.toNat % b.kernel.cpuCount else label.toNat) = core at hcore ⊢
      split
      · exact assigns_heuristic h t
      split
      · exact assigns_heuristic h t
      rename_i hc
      exact assigns_core h hcore hc

theorem balanceOverride_open (cfg : BalanceConfig) (h : k.isolatedCores target = false) :
    k.isolatedCores (balanceOverride k cfg target) = false := by
  unfold balanceOverride
  split
  · split
    · dsimp only
      split
      · unfold leastLoadedCpu
        rcases scanMin_cases (fun c => !k.isolatedCores c) k.readyCount
          (target, uint32Max) (range k.cpuCount) with heq | ⟨-, hok⟩
        · rw [heq]
          exact h
        · simpa using hok
      · exact h
    · exact h
  · exact h

variable {b' : Balancer}

theorem Assigns.override {target : Nat} (h : Assigns b b' t target) (cfg : BalanceConfig) :
    Assigns b b' t (balanceOverride b'.kernel cfg target) := by
  refine ⟨h.same, h.cursor, fun hopen hany => ?_⟩
  have htarget := h.target hopen hany
  rw [← h.same.isolatedCores] at htarget ⊢
  exact balanceOverride_open cfg htarget

/-! ## What the movers insert -/

def Inserted (k k' : Kernel) (d u : Nat) : Prop :=
  (k.rq d).queue.count u < (k'.rq d).queue.count u

theorem count_add (k : Kernel) (t c d u : Nat) : ((addToCpuQueueLocked k t c).rq d).queue.count u =
      (k.rq d).queue.count u + if u = t ∧ d = c then 1 else 0 := by
  by_cases hd : d = c
  · subst hd
    obtain ⟨l, hperm, hrq⟩ := add_rq_self k t d
    rw [hrq]
    rw [hperm.count_eq, count_cons]
    by_cases hu : u = t
    · subst hu
      simp
    · simp [hu, Ne.symm hu]
  · rw [add_rq_of_ne k t hd, if_neg fun hc => hd hc.2, add_zero]

theorem count_unlink_le (k : Kernel) (t c d u : Nat) :
    ((removeFromCpuQueueLocked k t c).1.rq d).queue.count u ≤ (k.rq d).queue.count u := by
  unfold removeFromCpuQueueLocked
  split
  · by_cases hd : d = c
    · subst hd
      rw [Kernel.setQueue_queue]
      exact erase_sublist.count_le u
    · rw [Kernel.setQueue_of_ne _ _ hd]
  · exact le_refl _

theorem inserted_enqueue (hle : (k'.rq d).queue.count u ≤ (k.rq d).queue.count u)
    (h : Inserted k (schedulerAddTaskToCpu k' t c) d u) : u = t ∧ d = c := by
  unfold Inserted schedulerAddTaskToCpu at h
  split at h
  · omega
  rw [(publishTask_eq _ t c).1.queue, count_add] at h
  split at h
  · assumption
  · omega

theorem removeFromCpuQueueLocked_cpuCount (k : Kernel) (t c : Nat) :
    (removeFromCpuQueueLocked k t c).1.cpuCount = k.cpuCount := by
  unfold removeFromCpuQueueLocked
  split <;> rfl

theorem PoolOk.enqueue (h : PoolOk b) (c : Nat) (ht : t < maxTasks)
    (hidle : ∀ d, t ≠ (b.kernel.rq d).idleTask) (hnowhere : Nowhere (still b.kernel) t) :
    PoolOk { b with kernel := schedulerAddTaskToCpu b.kernel t c } := by
  unfold schedulerAddTaskToCpu
  split
  · exact h
  obtain ⟨hquiet, -, hcount, -⟩ := publishTask_eq (addToCpuQueueLocked b.kernel t c) t c
  refine ⟨(h.consistent.link c hidle rfl hnowhere).quiet hquiet, fun d u hu => ?_, ?_, ?_⟩
  · change u ∈ ((publishTask (addToCpuQueueLocked b.kernel t c) t c).rq d).queue at hu
    rw [hquiet.queue] at hu
    have hpos := count_pos_iff.mpr hu
    rw [count_add] at hpos
    split at hpos
    · rename_i hut
      rw [hut.1]
      exact ht
    · exact h.slots d u (count_pos_iff.mp hpos)
  · change 0 < (publishTask _ t c).cpuCount ∧ (publishTask _ t c).cpuCount ≤ maxCpus
    rw [hcount]
    exact h.cpus
  rw [hcount]
  exact h.cursor

theorem PoolOk.unlink (h : PoolOk b) (t c : Nat) :
    PoolOk { b with kernel := (removeFromCpuQueueLocked b.kernel t c).1 } where
  consistent := h.consistent.unlink t c
  slots := by
    intro d u hu
    have hpos := lt_of_lt_of_le (count_pos_iff.mpr hu) (count_unlink_le b.kernel t c d u)
    exact h.slots d u (count_pos_iff.mp hpos)
  cpus := by
    rw [removeFromCpuQueueLocked_cpuCount]
    exact h.cpus
  cursor := by
    rw [removeFromCpuQueueLocked_cpuCount]
    exact h.cursor

theorem PoolOk.remove (h : PoolOk b) (t : Nat) :
    PoolOk { b with kernel := schedulerRemoveTask b.kernel t } := by
  unfold schedulerRemoveTask
  split
  · exact h
  · exact h.unlink t _

theorem Nowhere.same (h : Nowhere (still k) t)
    (hk : SameLoads k k') : Nowhere (still k') t := fun p hp =>
  h p (Consistent.at_unmoved (s := still k) hk.quiet.queue hk.quiet.current p t hp)

/-! ### `scheduler_add_task` -/

theorem schedulerAddTask_cases (b : Balancer) (t : Nat) (d : Decision)
    (cfg : BalanceConfig) (h : PoolOk b) :
    schedulerAddTask b t d cfg = b ∨
    ∃ k rr n target, SameLoads b.kernel k ∧ rr ≤ b.kernel.cpuCount ∧ schedulerAddTask b t d cfg =
        ⟨schedulerAddTaskToCpu k t target, rr, n⟩ ∧
      (SomeOpen b.kernel → (b.kernel.task t).cpuAffinity = none →
        b.kernel.isolatedCores target = false) := by
  unfold schedulerAddTask
  split
  · exact .inl rfl
  right
  have hclear := SameLoads.setAiPriority b.kernel t none
  have h₁ : PoolOk { b with
      kernel := b.kernel.setTask t { b.kernel.task t with aiPriority := none } } :=
    h.same hclear h.cursor
  dsimp only
  split
  · rename_i c haffinity
    rw [hclear.cpuAffinity] at haffinity
    refine ⟨_, _, _, c, hclear, h.cursor, rfl, fun _ hany => ?_⟩
    rw [haffinity] at hany
    cases hany
  rename_i haffinity
  have hassign := (assigns_assignCpu h₁ t d).override cfg
  exact ⟨_, _, _, _, hclear.trans hassign.same, hassign.cursor, rfl,
    fun hopen _ => hassign.target hopen haffinity⟩

theorem PoolOk.place (h : PoolOk b) (d : Decision) (cfg : BalanceConfig) (ht : t < maxTasks)
    (hidle : ∀ c, t ≠ (b.kernel.rq c).idleTask) (hnowhere : Nowhere (still b.kernel) t) :
    PoolOk (schedulerAddTask b t d cfg) := by
  rcases schedulerAddTask_cases b t d cfg h with heq | ⟨k, rr, n, target, hsame, hrr, heq, -⟩
  · rw [heq]
    exact h
  rw [heq]
  have hk : PoolOk ⟨k, rr, n⟩ := h.same hsame (by rwa [hsame.cpuCount])
  refine hk.enqueue target ht (fun c => ?_) (hnowhere.same hsame)
  rw [hsame.quiet.idleTask]
  exact hidle c

/-! ### Stealing -/

inductive Stolen (k : Kernel) : Kernel × Option Nat → Prop
  | nothing {k' : Kernel} (h : SameLoads k k') : Stolen k (k', none)
  | task {k₁ : Kernel} (h : SameLoads k k₁) (t victim : Nat)
      (ht : t ∈ (k₁.rq victim).queue) :
      Stolen k ((removeFromCpuQueueLocked k₁ t victim).1, some t)

theorem Stolen.after (h : SameLoads k k₁) (hr : Stolen k₁ r) : Stolen k r := by
  cases hr with
  | nothing h' => exact .nothing (h.trans h')
  | task h' t victim ht => exact .task (h.trans h') t victim ht

theorem stolen_stealFrom (victim probes : Nat) : ∀ k, Stolen k (stealFrom k victim probes) := by
  induction probes with
  | zero => exact fun k => .nothing (.refl k)
  | succ probes ih =>
    intro k
    have hdrain : SameLoads k (stealDequeSteal k victim).1 := .setDeque k victim _
    rw [stealFrom]
    split
    · exact .nothing hdrain
    rename_i e he
    split
    · rename_i hlive
      exact .task hdrain e.1 victim (mem_of_stealable hlive).1
    · exact .after hdrain (ih _)

theorem stolen_stealVictims (skip : Nat → Bool) (victims : List Nat) :
    ∀ k, Stolen k (stealVictims k skip victims) := by
  induction victims with
  | nil => exact fun k => .nothing (.refl k)
  | cons v vs ih =>
    intro k
    rw [stealVictims]
    split
    · exact ih k
    have hfrom := stolen_stealFrom v stealDequeCapacity k
    cases hr : stealFrom k v stealDequeCapacity with
    | mk k' r =>
      rw [hr] at hfrom
      cases hfrom with
      | nothing h => exact .after h (ih k')
      | task h t victim ht => exact .task h t victim ht

theorem stealInto_cases (k : Kernel) (c : Nat) (skip : Nat → Bool) :
    SameLoads k (stealInto k c skip) ∨
    ∃ k₁ t victim, SameLoads k k₁ ∧ t ∈ (k₁.rq victim).queue ∧
      k.isolatedCores c = false ∧ stealInto k c skip =
        addToCpuQueueLocked (removeFromCpuQueueLocked k₁ t victim).1 t c := by
  unfold stealInto
  split
  · exact .inl (.refl k)
  cases hc : k.isolatedCores c with
  | true =>
    have hrefuse : schedTrySteal k c skip = (k, none) := if_pos hc
    rw [hrefuse]
    exact .inl (.refl k)
  | false =>
    have hstolen : Stolen k (schedTrySteal k c skip) := by
      unfold schedTrySteal
      rw [if_neg (by simp [hc])]
      exact stolen_stealVictims skip _ k
    cases hr : schedTrySteal k c skip with
    | mk k' r =>
      rw [hr] at hstolen
      cases hstolen with
      | nothing h => exact .inl h
      | task h t victim ht => exact .inr ⟨_, t, victim, h, ht, rfl, rfl⟩

theorem PoolOk.steal (h : PoolOk b) (c : Nat) (skip : Nat → Bool) :
    PoolOk { b with kernel := stealInto b.kernel c skip } := by
  rcases stealInto_cases b.kernel c skip with hsame | ⟨k₁, t, victim, hsame, ht, -, heq⟩
  · exact h.same hsame (by rw [hsame.cpuCount]; exact h.cursor)
  rw [heq]
  have h₁ : PoolOk { b with kernel := k₁ } := h.same hsame (by rw [hsame.cpuCount]; exact h.cursor)
  have h₂ := h₁.unlink t victim
  obtain ⟨-, hnowhere, -, hidle⟩ := h₁.consistent.take ht
  refine ⟨h₂.consistent.link c hidle rfl hnowhere, fun d u hu => ?_, h₂.cpus, h₂.cursor⟩
  have hpos := count_pos_iff.mpr hu
  rw [count_add] at hpos
  split at hpos
  · rename_i hut
    rw [hut.1]
    exact h₁.slots victim t ht
  · exact h₂.slots d u (count_pos_iff.mp hpos)

/-! ### Rebalancing -/

def LeastLoaded (k : Kernel) (i : Nat) : Prop :=
  i < k.cpuCount ∧ ∀ j < k.cpuCount, k.readyCount i ≤ k.readyCount j ∧
    (j < i → k.readyCount i < k.readyCount j)

def MostLoaded (k : Kernel) (i : Nat) : Prop :=
  i < k.cpuCount ∧ ∀ j < k.cpuCount, k.readyCount j ≤ k.readyCount i ∧
    (j < i → k.readyCount j < k.readyCount i)

theorem loadScan_succ (f : Nat → Nat) (m : Nat) : loadScan ((range (m + 1)).map f) =
      (loadScan ((range m).map f)).consider m (f m) := by
  unfold loadScan
  rw [range_succ, map_append, zipIdx_append, foldl_append]
  simp

theorem loadScan_eq (f : Nat → Nat) (m : Nat) : ((loadScan ((range m).map f)).busy,
        toDual (loadScan ((range m).map f)).maxReady) =
      scanMin (fun _ => true) (fun c => toDual (f c)) (0, toDual 0) (range m) ∧
    ((loadScan ((range m).map f)).idle, (loadScan ((range m).map f)).minReady) =
      scanMin (fun _ => true) f (0, uint32Max) (range m) := by
  induction m with
  | zero => exact ⟨rfl, rfl⟩
  | succ m ih =>
    obtain ⟨hbusy, hidle⟩ := ih
    rw [loadScan_succ, scanMin_range_succ, scanMin_range_succ, ← hbusy, ← hidle]
    unfold LoadScan.consider consider
    simp only [true_and, toDual_lt_toDual]
    constructor <;> split_ifs <;> rfl

theorem loadScan_idle (hn : 0 < k.cpuCount) (hf : ∀ c, k.readyCount c < uint32Max) :
    LeastLoaded k (loadScan (readyCounts k)).idle ∧ (loadScan (readyCounts k)).minReady =
        k.readyCount (loadScan (readyCounts k)).idle := by
  have heq := (loadScan_eq k.readyCount k.cpuCount).2
  rcases scanMin_spec (fun _ => true) k.readyCount (range k.cpuCount)
    (0, uint32Max) with ⟨-, hle⟩ | ⟨a, hscan, -, hfirst⟩
  · exact absurd (hf 0) (not_lt.mpr (hle 0 (mem_range.mpr hn) rfl))
  rw [hscan, Prod.mk.injEq] at heq
  unfold readyCounts
  rw [heq.1, heq.2]
  exact ⟨hfirst.range, rfl⟩

theorem loadScan_busy (hn : 0 < k.cpuCount) :
    MostLoaded k (loadScan (readyCounts k)).busy ∧ (loadScan (readyCounts k)).maxReady =
        k.readyCount (loadScan (readyCounts k)).busy := by
  have heq := (loadScan_eq k.readyCount k.cpuCount).1
  rcases scanMin_spec (fun _ => true) (fun c => toDual (k.readyCount c)) (range k.cpuCount)
      (0, toDual 0) with
    ⟨hscan, hle⟩ | ⟨a, hscan, -, hfirst⟩
  · -- all queues are empty
    have hzero : ∀ c < k.cpuCount, k.readyCount c = 0 := fun c hc =>
      le_zero.mp (hle c (mem_range.mpr hc) rfl)
    rw [hscan, Prod.mk.injEq] at heq
    unfold readyCounts
    rw [heq.1, toDual_inj.mp heq.2]
    refine ⟨⟨hn, fun j hj => ⟨?_, fun hlt => ?_⟩⟩, (hzero 0 hn).symm⟩
    · rw [hzero j hj, hzero 0 hn]
    · exact absurd hlt (not_lt_zero j)
  rw [hscan, Prod.mk.injEq] at heq
  unfold readyCounts
  rw [heq.1, toDual_inj.mp heq.2]
  exact ⟨hfirst.range, rfl⟩

def detached (k : Kernel) (t busy idle : Nat) : Kernel :=
  let k := (removeFromCpuQueueLocked k t busy).1
  let k := k.setState t .ready
  k.setTask t { k.task t with assignedCpu := idle }

def Fires (b : Balancer) (cpu : Nat) (cfg : RebalanceConfig) : Prop :=
  cpu = 0 ∧ cfg.enabled ≠ 0 ∧ 2 ≤ b.kernel.cpuCount ∧
    (b.rebalanceTickCounter + 1) % 2 ^ 64 % cfg.intervalTicks = 0

theorem schedRebalanceTick_cases (h : PoolOk b) (cpu : Nat) (cfg : RebalanceConfig) :
    (schedRebalanceTick b cpu cfg).kernel = b.kernel ∨
    ∃ t busy idle, Fires b cpu cfg ∧ MostLoaded b.kernel busy ∧
      LeastLoaded b.kernel idle ∧ busy ≠ idle ∧
      ¬b.kernel.readyCount busy < (b.kernel.readyCount idle + cfg.imbalanceMin) % 2 ^ 32 ∧
      rebalanceCandidate b.kernel busy = some t ∧
      (schedRebalanceTick b cpu cfg).kernel =
        schedulerAddTaskToCpu (detached b.kernel t busy idle) t idle := by
  unfold schedRebalanceTick
  split
  · exact .inl rfl
  rename_i hcpu
  split
  · exact .inl rfl
  rename_i henabled
  dsimp only
  split
  · exact .inl rfl
  rename_i htick
  split
  · exact .inl rfl
  rename_i htwo
  have hf : ∀ c, b.kernel.readyCount c < uint32Max := fun c =>
    lt_of_le_of_lt (h.readyCount_le c) (by decide)
  obtain ⟨hmost, hmax⟩ := loadScan_busy h.cpus.1
  obtain ⟨hleast, hmin⟩ := loadScan_idle h.cpus.1 hf
  unfold rebalancePick
  dsimp only
  split
  · exact .inl rfl
  rename_i busy idle hpick
  split_ifs at hpick with hne hload
  obtain ⟨rfl, rfl⟩ := Prod.mk.inj (Option.some.inj hpick)
  unfold rebalanceMove
  cases hcandidate : rebalanceCandidate b.kernel (loadScan (readyCounts b.kernel)).busy with
  | none => exact .inl rfl
  | some t =>
    refine .inr ⟨t, _, _, ⟨not_not.mp hcpu, henabled, not_lt.mp htwo,
      not_not.mp htick⟩, hmost, hleast, hne, ?_, hcandidate, rfl⟩
    rwa [← hmax, ← hmin]

theorem schedRebalanceTick_cursor (b : Balancer) (cpu : Nat) (cfg : RebalanceConfig) :
    (schedRebalanceTick b cpu cfg).rrNext = b.rrNext := by
  unfold schedRebalanceTick
  dsimp only
  split_ifs <;> try rfl
  split <;> rfl

theorem PoolOk.detached (h : PoolOk b) (idle : Nat) (ht : t ∈ (b.kernel.rq busy).queue) :
    PoolOk { b with kernel := detached b.kernel t busy idle } ∧
      Nowhere (still (detached b.kernel t busy idle)) t ∧
      ∀ d, t ≠ ((detached b.kernel t busy idle).rq d).idleTask := by
  obtain ⟨hfree, hnowhere, -, hidle⟩ := h.consistent.take ht
  have h₁ := h.unlink t busy
  refine ⟨⟨?_, h₁.slots, h₁.cpus, h₁.cursor⟩, fun p hp => ?_, hidle⟩
  · have hready : Consistent (still
        ((removeFromCpuQueueLocked b.kernel t busy).1.setState t .ready)) :=
      hfree.setTask rfl nofun
    exact hready.setTask rfl fun hr => hr
  refine hnowhere p ?_
  cases p <;> exact hp

theorem PoolOk.kernel (h : PoolOk { b with kernel := b'.kernel })
    (hcursor : b'.rrNext = b.rrNext) : PoolOk b' :=
  ⟨h.consistent, h.slots, h.cpus, hcursor ▸ h.cursor⟩

theorem PoolOk.rebalance (h : PoolOk b) (cpu : Nat)
    (cfg : RebalanceConfig) : PoolOk (schedRebalanceTick b cpu cfg) := by
  refine PoolOk.kernel (b := b) ?_ (schedRebalanceTick_cursor b cpu cfg)
  rcases schedRebalanceTick_cases h cpu cfg with heq |
    ⟨t, busy, idle, -, -, -, -, -, hcandidate, heq⟩
  · rw [heq]
    exact h
  rw [heq]
  have hmem := (mem_of_rebalanceCandidate hcandidate).1
  obtain ⟨hdet, hnowhere, hidle⟩ := h.detached idle hmem
  exact hdet.enqueue idle (h.slots busy t hmem) hidle hnowhere

/-! ## Runs -/

/--
A tick of the rebalancer leaves isolated CPUs alone: the first of the least
loaded CPUs is not isolated, or nothing is moved to it.
-/
def RebalanceSafe (k : Kernel) (imbalanceMin : Nat) : Prop :=
  ∀ busy idle, MostLoaded k busy → LeastLoaded k idle → k.isolatedCores idle = true → busy = idle ∨
      k.readyCount busy < (k.readyCount idle + imbalanceMin) % 2 ^ 32 ∨
      rebalanceCandidate k busy = none

def IsolationOk (b : Balancer) : BalanceAction → Prop
  | .place t _ _ => t < maxTasks ∧ (∀ d, t ≠ (b.kernel.rq d).idleTask) ∧
      Nowhere (still b.kernel) t
  | .rebalance cpu cfg =>
    Fires b cpu cfg → RebalanceSafe b.kernel cfg.imbalanceMin
  | _ => True

theorem PoolOk.mask (h : PoolOk b) (m : Nat → Bool) :
    PoolOk { b with kernel := { b.kernel with isolatedCores := m } } :=
  ⟨h.consistent.unmoved (fun _ => rfl) (fun _ => rfl) (fun _ => rfl)
    (fun _ => rfl) (fun _ hr => hr), h.slots, h.cpus, h.cursor⟩

theorem PoolOk.step {a : BalanceAction} (h : PoolOk b) (hok : IsolationOk b a)
    (hstep : balanceStep b a = some b') : PoolOk b' := by
  cases a with
  | place t d cfg =>
    cases hstep
    exact h.place d cfg hok.1 hok.2.1 hok.2.2
  | steal c skip =>
    rw [balanceStep] at hstep
    split at hstep
    · cases hstep
      exact h.steal c skip
    · cases hstep
  | rebalance cpu cfg =>
    cases hstep
    exact h.rebalance cpu cfg
  | remove t =>
    cases hstep
    exact h.remove t
  | isolate c =>
    cases hstep
    unfold schedIsolateCore
    split
    · exact h
    · exact h.mask _
  | unisolate c =>
    cases hstep
    unfold schedUnisolateCore
    split
    · exact h
    · exact h.mask _

def KeepsIsolation (k k' : Kernel) : Prop :=
  ∀ c t, Inserted k k' c t → (k.task t).cpuAffinity = none → k.isolatedCores c = false

theorem keepsIsolation_place (h : PoolOk b) (hopen : SomeOpen b.kernel) (t : Nat) (d : Decision)
    (cfg : BalanceConfig) : KeepsIsolation b.kernel (schedulerAddTask b t d cfg).kernel := by
  intro c u hins hany
  rcases schedulerAddTask_cases b t d cfg h with heq | ⟨k, rr, n, target, hsame, -, heq, htarget⟩
  · rw [heq] at hins
    exact absurd hins (lt_irrefl _)
  rw [heq] at hins
  obtain ⟨rfl, rfl⟩ := inserted_enqueue (le_of_eq (congrArg (count u) (hsame.quiet.queue c))) hins
  exact htarget hopen hany

theorem keepsIsolation_steal (k : Kernel) (c : Nat) (skip : Nat → Bool) :
    KeepsIsolation k (stealInto k c skip) := by
  intro d u hins _
  rcases stealInto_cases k c skip with hsame | ⟨k₁, t, victim, hsame, -, hopen, heq⟩
  · unfold Inserted at hins
    rw [hsame.quiet.queue] at hins
    exact absurd hins (lt_irrefl _)
  have hle := count_unlink_le k₁ t victim d u
  rw [hsame.quiet.queue] at hle
  unfold Inserted at hins
  rw [heq, count_add] at hins
  split at hins
  · rename_i hut
    rw [hut.2]
    exact hopen
  · omega

theorem keepsIsolation_rebalance (h : PoolOk b) (cpu : Nat) (cfg : RebalanceConfig)
    (hsafe : Fires b cpu cfg → RebalanceSafe b.kernel cfg.imbalanceMin) :
    KeepsIsolation b.kernel (schedRebalanceTick b cpu cfg).kernel := by
  intro c u hins _
  rcases schedRebalanceTick_cases h cpu cfg with heq |
    ⟨t, busy, idle, hfires, hmost, hleast, hne, hload, hcandidate, heq⟩
  · rw [heq] at hins
    exact absurd hins (lt_irrefl _)
  rw [heq] at hins
  have hle : ((detached b.kernel t busy idle).rq c).queue.count u ≤
      (b.kernel.rq c).queue.count u := count_unlink_le b.kernel t busy c u
  obtain ⟨rfl, rfl⟩ := inserted_enqueue hle hins
  by_contra hisolated
  rcases hsafe hfires busy c hmost hleast (by simpa using hisolated) with
    heq | hlt | hnone
  · exact hne heq
  · exact hload hlt
  rw [hnone] at hcandidate
  cases hcandidate

theorem isolated_cpus_kept_free {b₀ b b' : Balancer} {a : BalanceAction}
    (h₀ : PoolOk b₀) (hrun : Run balanceStep IsolationOk b₀ b)
    (hok : IsolationOk b a) (hstep : balanceStep b a = some b')
    (hopen : ∃ d < b.kernel.cpuCount, b.kernel.isolatedCores d = false) :
    ∀ c t, (b.kernel.rq c).queue.count t < (b'.kernel.rq c).queue.count t →
      (b.kernel.task t).cpuAffinity = none →
      b.kernel.isolatedCores c = false := by
  have h : PoolOk b := Run.invariant (fun _ _ _ hb hok hstep => hb.step hok hstep) h₀ hrun
  cases a with
  | place t d cfg =>
    cases hstep
    exact keepsIsolation_place h hopen t d cfg
  | steal c skip =>
    rw [balanceStep] at hstep
    split at hstep
    · cases hstep
      exact keepsIsolation_steal b.kernel c skip
    · cases hstep
  | rebalance cpu cfg =>
    cases hstep
    exact keepsIsolation_rebalance h cpu cfg hok
  | remove t =>
    cases hstep
    intro c u hins _
    change _ < ((schedulerRemoveTask b.kernel t).rq c).queue.count u at hins
    unfold schedulerRemoveTask at hins
    split at hins
    · exact absurd hins (lt_irrefl _)
    have := count_unlink_le b.kernel t (b.kernel.task t).assignedCpu c u
    omega
  | isolate c =>
    cases hstep
    intro d u hins _
    unfold schedIsolateCore at hins
    split at hins <;> exact absurd hins (lt_irrefl _)
  | unisolate c =>
    cases hstep
    intro d u hins _
    unfold schedUnisolateCore at hins
    split at hins <;> exact absurd hins (lt_irrefl _)

def freshBalancer : Balancer := ⟨(machine 2).kernel, 0, 0⟩

theorem freshBalancer_ok : PoolOk freshBalancer where
  consistent := machine_consistent 2
  slots := fun _ _ h => absurd h not_mem_nil
  cpus := by decide
  cursor := by decide

theorem isolated_cpus_kept_free_place : ∃ b b',
    exec balanceStep freshBalancer [.isolate 1] = some b ∧
    balanceStep b (.place 1 .heuristic balanceConfigDefaults) = some b' ∧
    b.kernel.isolatedCores 1 = true ∧ (b'.kernel.rq 0).queue = [1] ∧
    b.kernel.isolatedCores 0 = false := by
  refine ⟨_, _, rfl, rfl, rfl, rfl, ?_⟩
  have hrun := run_of_exec balanceStep IsolationOk [.isolate 1] freshBalancer _
    ⟨trivial, trivial⟩ rfl
  refine isolated_cpus_kept_free freshBalancer_ok hrun
    (a := .place 1 .heuristic balanceConfigDefaults) ⟨by decide,
      not_idle_machine (n := 2) rfl, fun p hp => ?_⟩ rfl
    ⟨0, by decide, by decide⟩ 0 1 ?_ rfl
  · refine nowhere_machine (n := 2) (t := 1) rfl p ?_
    cases p <;> exact hp
  · decide

/--
Two tasks wait on CPU 0 and CPU 1 is isolated: at its hundredth tick the
rebalancer moves one of them to CPU 1.
-/
theorem rebalance_fills_isolated : ∃ b b', Run balanceStep (fun _ _ => True) freshBalancer b ∧
    balanceStep b (.rebalance 0 rebalanceConfigDefaults) = some b' ∧
    b.kernel.isolatedCores 0 = false ∧ b.kernel.isolatedCores 1 = true ∧
    (b.kernel.task 1).cpuAffinity = none ∧ (b.kernel.rq 1).queue = [] ∧
    (b'.kernel.rq 1).queue = [1] := by
  refine ⟨_, _, run_exec (.isolate 1 :: .place 1 .heuristic balanceConfigDefaults ::
      .place 3 .heuristic balanceConfigDefaults ::
      replicate 99 (.rebalance 0 rebalanceConfigDefaults)) rfl, rfl, ?_⟩
  decide +kernel

end SlmOs.Sched
