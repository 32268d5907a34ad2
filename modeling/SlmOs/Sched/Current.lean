import SlmOs.Sched.Places

/-!
# Who runs a task

Each step of the system keeps the places of the tasks exclusive, provided that
`scheduler_add_task` is called on tasks that are nowhere and that a waker finds
its task switched out.  The second proviso is not checked by the code: between
publishing itself as a waiter and its own `schedule()`, a blocking task is still
current.
-/

namespace SlmOs.Sched

open Function Foundation

/-! ## One step -/

variable {t : Nat}

theorem mem_of_rebalanceCandidate (h : rebalanceCandidate k c = some t) :
    t ∈ (k.rq c).queue ∧ (k.task t).state = .ready := by
  have hp := List.find?_some h
  exact ⟨List.mem_of_find?_eq_some h, (of_decide_eq_true hp).2.2⟩

theorem mem_of_stealable (h : stealable k t gen victim = true) :
    t ∈ (k.rq victim).queue ∧ (k.task t).state = .ready := by
  have h := of_decide_eq_true h
  exact ⟨h.2.2.2.2, h.2.1⟩

theorem Consistent.op (h : Consistent s) (heff : OpEffect s.kernel (s.op n) k' pc') :
    Consistent ((s.setKernel k').setOp n pc') := by
  have hdone : ∀ pc : OpPc, pc.holds = none → Consistent (s.setOp n pc) := by
    intro pc hpc
    refine h.setOp _ fun u hu => ?_
    rw [hpc] at hu
    cases hu
  generalize hpc : s.op n = pc at heff
  cases heff with
  | quiet hk hfollows =>
    refine (h.quiet hk).setOp _ fun u hu => ?_
    change (s.op n).holds = some u
    rw [hpc]
    exact hfollows.holds u hu
  | link t c =>
    have ht : (s.op n).holds = some t := by
      rw [hpc]
      rfl
    exact (hdone (.addPublish t c) rfl).link c (h.not_idle_of_op ht)
      (h.not_waiting (show At s (.op n) t from ht)
        fun _ => Place.noConfusion) (h.nowhere_setOp ht rfl)
  | unlink t c attempts => exact (hdone .done rfl).unlink t c
  | terminate t c attempts _ =>
    have hstate : Consistent (s.setKernel (s.kernel.setState t .terminated)) := h.setTask rfl nofun
    exact (hstate.unlink t c).setOp _ fun _ hu => by cases hu
  | migrate t old target => exact (hdone .done rfl).migrate t old target
  | take t busy idle hcandidate =>
    obtain ⟨hfree, hnowhere, hw, hidle⟩ := h.take (mem_of_rebalanceCandidate hcandidate).1
    exact hfree.grabOp _ rfl hidle hw hnowhere
  | ready t idle =>
    have hstate : Consistent (s.setKernel (s.kernel.setState t .ready)) := h.setTask rfl nofun
    refine hstate.setOp _ fun u hu => ?_
    change (s.op n).holds = some u
    rwa [hpc]
  | assign t idle =>
    have hassign : Consistent (s.setKernel (s.kernel.setTask t
        { s.kernel.task t with assignedCpu := idle })) :=
      h.setTask rfl fun hr => hr
    refine hassign.setOp _ fun u hu => ?_
    change (s.op n).holds = some u
    rwa [hpc]
  | affinity t c =>
    have hassign : Consistent (s.setKernel (s.kernel.setTask t
        { s.kernel.task t with assignedCpu := c })) :=
      h.setTask rfl fun hr => hr
    exact hassign.setOp _ nofun

theorem Consistent.idleTask_not_mem (h : Consistent s) (c : Nat) :
    (s.kernel.rq c).idleTask ∉ (s.kernel.rq c).queue :=
  fun hmem => h.not_idle_of_queue hmem c rfl

theorem Consistent.sched (h : Consistent s) (heff : SchedEffect s.kernel c (s.sched c) k' pc') :
    Consistent ((s.setKernel k').setSched c pc') := by
  generalize hpc : s.sched c = pc at heff
  cases heff with
  | quiet hk hholds => exact (h.quiet hk).setSched _ hholds
  | take i n t gen victim hsteal =>
    obtain ⟨hfree, hnowhere, hw, hidle⟩ := h.take (mem_of_stealable hsteal).1
    exact hfree.grabSched _ rfl hidle hw hnowhere
  | link t =>
    have ht : (s.sched c).holds = some t := by
      rw [hpc]
      rfl
    exact (h.setSched .lock rfl).link c (h.not_idle_of_cpu ht)
      (h.not_waiting (show At s (.cpu c) t from ht)
        fun _ => Place.noConfusion) (h.nowhere_setSched ht rfl)
  | switch hk =>
    obtain ⟨next, hsched⟩ := scheduleLocked_spec (h.idleTask_not_mem c) hk
    exact (h.scheduled hsched).setSched _ rfl

/-! ## The system -/

def HandOver (s : Sys) : Action → Prop
  | .callAdd _ t => (∀ c, t ≠ (s.kernel.rq c).idleTask) ∧
      s.waiting t = false ∧ Nowhere s t
  | .wake _ t => ∀ c, (s.kernel.rq c).current ≠ some t
  | _ => True

section

variable (h : Consistent s)
include h

theorem Consistent.nowhere_of_waiting (hw : s.waiting t = true)
    (hcur : ∀ c, (s.kernel.rq c).current ≠ some t) : Nowhere s t := by
  intro p hp
  obtain ⟨c, rfl⟩ := (h.waiting t hw).2.2 p hp
  exact hcur c hp

theorem Consistent.block (hcur : (s.kernel.rq c).current = some t)
    (hidle : (s.kernel.task t).isIdle = false) :
    Consistent { (s.setKernel (s.kernel.setState t .blocked)) with
      waiting := update s.waiting t true } := by
  have hstate : Consistent (s.setKernel (s.kernel.setState t .blocked)) := h.setTask rfl nofun
  refine ⟨hstate.nodup, hstate.exclusive, hstate.idleInj, hstate.idleFlag,
    hstate.idle, fun u hu => ?_⟩
  by_cases hut : u = t
  · subst hut
    refine ⟨?_, ?_, fun p hp => ⟨c, hstate.exclusive p (.running c) u hp hcur⟩⟩
    · change ((s.kernel.setState u .blocked).task u).isIdle = false
      rw [setState_isIdle]
      exact hidle
    change ((s.kernel.setState u .blocked).task u).state ≠ .running
    rw [setState_state, if_pos rfl]
    exact TaskState.noConfusion
  refine hstate.waiting u ?_
  change update s.waiting t true u = true at hu
  rwa [update_of_ne hut] at hu

theorem Consistent.wake (hw : s.waiting t = true) (hcur : ∀ c, (s.kernel.rq c).current ≠ some t) :
    Consistent (Sys.setOp { (s.setKernel (s.kernel.setState t .ready)) with
      waiting := update s.waiting t false } n (.addState t)) := by
  have hstate : Consistent (s.setKernel (s.kernel.setState t .ready)) := h.setTask rfl nofun
  have hfree : Consistent { (s.setKernel (s.kernel.setState t .ready)) with
      waiting := update s.waiting t false } := by
    refine ⟨hstate.nodup, hstate.exclusive, hstate.idleInj, hstate.idleFlag,
      hstate.idle, fun u hu => hstate.waiting u ?_⟩
    change update s.waiting t false u = true at hu
    by_cases hut : u = t
    · subst hut
      rw [update_self] at hu
      cases hu
    · rwa [update_of_ne hut] at hu
  refine hfree.grabOp _ rfl (fun d heq => ?_) (update_self _ _ _)
    (hstate.nowhere_of_waiting hw hcur)
  -- the idle task never blocks
  have hflag := h.idleFlag d
  change t = (s.kernel.rq d).idleTask at heq
  rw [← heq, (h.waiting t hw).1] at hflag
  cases hflag

theorem Consistent.step {s' : Sys} {a : Action}
    (hok : HandOver s a) (hstep : step s a = some s') : Consistent s' := by
  cases step_effect hstep with
  | panic _ => exact h.shrink (fun p u hp => by cases p <;> exact hp) rfl rfl
  | quiet _ hk => exact h.quiet hk
  | call _ n hk hholds _ _ =>
    refine (h.quiet hk).setOp _ fun u hu => ?_
    rw [hholds] at hu
    cases hu
  | add n t => exact h.grabOp _ rfl hok.1 hok.2.1 hok.2.2
  | op n choice level heff => exact h.op heff
  | cpu _ c heff => exact h.sched heff
  | block c t hcur hidle => exact h.block hcur hidle
  | wake n t hw => exact h.wake hw hok

end

/-! ## Runs -/

/--
CPUs and tasks as `scheduler_init` leaves them.  The idle task of CPU `c` is
task `2 * c`, and the other tasks are created but not yet handed over.
-/
def machine (cpuCount : Nat) : Sys where
  kernel :=
    { task := fun t =>
        { state := if t % 2 = 0 then .running else .ready
          cpuAffinity := none
          assignedCpu := 0
          priority := 4
          effectivePriority := 4
          aiPriority := none
          piPriority := 0
          deadlineNs := 0
          generation := 0
          isIdle := t % 2 = 0 }
      rq := fun c => ⟨[], [], 2 * c, none, some (2 * c)⟩
      cpuCount := cpuCount
      isolatedCores := fun _ => false
      thresholds := ⟨10000000, 50000000, 100000000⟩
      aiPriorityActions := false
      now := 0 }
  op := fun _ => .done
  sched := fun _ => .out
  waiting := fun _ => false
  panicked := false

theorem at_machine (h : At (machine n) p t) : ∃ c, p = .running c ∧ t = 2 * c := by
  cases p with
  | queue c => exact absurd h List.not_mem_nil
  | running c => exact ⟨c, rfl, (Option.some.inj h).symm⟩
  | op m | cpu c => cases h

theorem machine_consistent (n : Nat) : Consistent (machine n) where
  nodup := fun _ => List.nodup_nil
  exclusive := by
    intro p q t hp hq
    obtain ⟨c, rfl, rfl⟩ := at_machine hp
    obtain ⟨d, rfl, heq⟩ := at_machine hq
    rw [Nat.eq_of_mul_eq_mul_left (by decide) heq]
  idleInj := fun c d h => Nat.eq_of_mul_eq_mul_left (by decide) h
  idleFlag := fun c => decide_eq_true (Nat.mul_mod_right 2 c)
  idle := by
    intro c p hp
    obtain ⟨d, rfl, heq⟩ := at_machine hp
    rw [Nat.eq_of_mul_eq_mul_left (by decide) heq]
  waiting := by
    intro t ht
    cases ht

theorem consistent_of_run (h : Consistent s) (hrun : Run step HandOver s s') : Consistent s' :=
  Run.invariant (fun _ _ _ hs hok hstep => hs.step hok hstep) h hrun

theorem current_once_of_run {s₀ s : Sys} (h₀ : Consistent s₀) (hrun : Run step HandOver s₀ s) :
    (∀ c d t, (s.kernel.rq c).current = some t → (s.kernel.rq d).current = some t → c = d) ∧
    (∀ c d t, t ∈ requeued s.kernel c → (s.kernel.rq d).current = some t → d = c) ∧
    ∀ c d t, t ∈ (s.kernel.rq c).queue → (s.kernel.rq d).current ≠ some t := by
  have h := consistent_of_run h₀ hrun
  have hcurrent : ∀ c d t, (s.kernel.rq c).current = some t →
      (s.kernel.rq d).current = some t → c = d := fun c d t hc hd =>
    Place.running.inj (h.exclusive (.running c) (.running d) t hc hd)
  refine ⟨hcurrent, fun c d t hback hd => ?_, fun c d t hq hd => ?_⟩
  · exact hcurrent d c t hd (Consistent.mem_requeued hback).1
  · cases h.exclusive (.queue c) (.running d) t hq hd

def addSteps (n c : Nat) : List Action :=
  List.replicate 5 (.op n c none)

def switchSteps (c : Nat) : List Action := [.schedule c, .cpu c false]

def stealSteps (c : Nat) : List Action :=
  [.schedule c, .cpu c false, .cpu c false, .cpu c false]

theorem nowhere_machine (ht : t % 2 = 1) : Nowhere (machine n) t := by
  intro p hp
  obtain ⟨c, -, hc⟩ := at_machine hp
  omega

theorem not_idle_machine (ht : t % 2 = 1) (c : Nat) : t ≠ ((machine n).kernel.rq c).idleTask := by
  change t ≠ 2 * c
  omega

theorem handOver_machine : HandOver (machine 2) (.callAdd 0 1) :=
  ⟨not_idle_machine rfl, rfl, nowhere_machine rfl⟩

theorem current_once_dispatched : ∃ s,
    exec step (machine 2) (.callAdd 0 1 :: addSteps 0 0 ++ switchSteps 0) = some s ∧
    (s.kernel.rq 0).current = some 1 ∧
    ∀ d, (s.kernel.rq d).current = some 1 → 0 = d := by
  refine ⟨_, rfl, rfl, fun d hd => ?_⟩
  have hrun := run_of_exec step HandOver
    (.callAdd 0 1 :: addSteps 0 0 ++ switchSteps 0) (machine 2) _
    ⟨handOver_machine, trivial, trivial, trivial, trivial, trivial, trivial,
      trivial, trivial⟩ rfl
  exact (current_once_of_run (machine_consistent 2) hrun).1 0 d 1 rfl hd

/--
Task 1 blocks on CPU 0, is woken and dispatched on CPU 1 before CPU 0 gets to
its `schedule()`, and is then put back by CPU 0 as well.
-/
theorem woken_current_twice : ∃ s, Run step (fun _ _ => True) (machine 2) s ∧
    (s.kernel.rq 0).current = some 1 ∧ (s.kernel.rq 1).current = some 1 ∧
    1 ∈ requeued s.kernel 0 := by
  refine ⟨_, run_exec (.callAdd 0 1 :: addSteps 0 0 ++
    switchSteps 0 ++ [.block 0, .wake 0 1] ++ addSteps 0 1 ++ switchSteps 1) rfl, rfl, rfl, ?_⟩
  exact List.mem_cons_self

end SlmOs.Sched
