import SlmOs.Sched.Current

/-!
# The queue hint

`assigned_cpu` is the field by which every locker finds the lock of a task's
run queue.  All writers keep it equal to the CPU whose queue the task is linked
in, except two: `task_set_affinity` writes it without a lock, and the section of
`sched_migrate_task` overwrites it when the task is not where the unlocked read
said it was.
-/

namespace SlmOs.Sched

open Foundation

def Assigned (k : Kernel) : Prop :=
  ∀ c, ∀ t ∈ (k.rq c).queue, (k.task t).assignedCpu = c

namespace Assigned

section

variable (h : Assigned k)
include h

theorem mono (hqueue : ∀ d, ∀ u ∈ (k'.rq d).queue, u ∈ (k.rq d).queue)
    (hassigned : ∀ u, (k'.task u).assignedCpu = (k.task u).assignedCpu) : Assigned k' := by
  intro d u hu
  rw [hassigned]
  exact h d u (hqueue d u hu)

theorem quiet (hk : Quiet k k') : Assigned k' := by
  refine h.mono (fun d u hu => ?_) hk.assignedCpu
  rwa [hk.queue] at hu

theorem setState (t : Nat) (st : TaskState) : Assigned (k.setState t st) :=
  h.mono (fun _ _ hu => hu) fun u => setState_assignedCpu k t u st

theorem unlink (t c : Nat) : Assigned (removeFromCpuQueueLocked k t c).1 := by
  by_cases ht : t ∈ (k.rq c).queue
  · rw [removeFromCpuQueueLocked_of_mem ht]
    refine h.mono (fun d u hu => ?_) fun _ => rfl
    by_cases hd : d = c
    · subst hd
      rw [Kernel.setQueue_queue] at hu
      exact List.mem_of_mem_erase hu
    · rwa [Kernel.setQueue_of_ne _ _ hd] at hu
  rw [removeFromCpuQueueLocked_of_not_mem ht]
  exact h

theorem assign (ht : ∀ d, t ∈ (k.rq d).queue → d = c) :
    Assigned (k.setTask t { k.task t with assignedCpu := c }) := by
  intro d u hu
  by_cases hut : u = t
  · subst hut
    rw [Kernel.setTask_self]
    exact (ht d hu).symm
  rw [Kernel.setTask_of_ne _ _ hut]
  exact h d u hu

theorem link (c : Nat) (ht : ∀ d, t ∉ (k.rq d).queue) : Assigned (addToCpuQueueLocked k t c) := by
  intro d u hu
  rw [add_assignedCpu]
  by_cases hd : d = c
  · subst hd
    obtain ⟨l, hperm, hrq⟩ := add_rq_self k t d
    rw [hrq] at hu
    split
    · rfl
    rename_i hut
    exact h d u ((List.mem_cons.mp (hperm.mem_iff.mp hu)).resolve_left hut)
  rw [add_rq_of_ne k t hd] at hu
  rw [if_neg]
  · exact h d u hu
  rintro rfl
  exact ht d hu

end

theorem scheduled (hs : Consistent s) (h : Assigned s.kernel)
    (hsched : Scheduled s.kernel k' c next) : Assigned k' := by
  intro d u hu
  rw [hsched.assignedCpu]
  by_cases hd : d = c
  · subst hd
    split
    · rfl
    rename_i hback
    have hpool := Consistent.queue_subset_pool hsched hu
    exact h d u ((List.mem_append.mp hpool).resolve_left hback)
  rw [hsched.others d hd] at hu
  rw [if_neg]
  · exact h d u hu
  intro hback
  have hrun : At s (.running c) u := (Consistent.mem_requeued hback).1
  cases hs.exclusive _ _ u hrun (show At s (.queue d) u from hu)

end Assigned

theorem Consistent.not_linked (h : Consistent s) (hp : At s p t) (hne : ∀ d, p ≠ .queue d)
    (d : Nat) :
    t ∉ (s.kernel.rq d).queue :=
  fun hmem => hne d (h.exclusive p (.queue d) t hp hmem)

theorem Consistent.not_linked_unlink (h : Consistent s) (ht : t ∈ (s.kernel.rq c).queue) (d : Nat) :
    t ∉ ((removeFromCpuQueueLocked s.kernel t c).1.rq d).queue :=
  h.nowhere_unlink ht (.queue d)

/-! ## The condition -/

/--
What the two unchecked writes of the hint rely on: the task is not linked on
another CPU than the one that is written.
-/
def KeepsHint (s : Sys) : Action → Prop
  | .op n _ _ =>
    match s.op n with
    | .affinityAssign t c => ∀ d, t ∈ (s.kernel.rq d).queue → d = c
    | .migrLock t old target =>
      ((s.kernel.task t).state = .ready ∧ t ∈ (s.kernel.rq old).queue) ∨
        ∀ d, t ∈ (s.kernel.rq d).queue → d = target
    | _ => True
  | _ => True

def HintOk (s : Sys) (a : Action) : Prop := HandOver s a ∧ KeepsHint s a

section

variable (hs : Consistent s)
include hs

section

variable (h : Assigned s.kernel)
include h

theorem Assigned.migrate (hkeep : ((s.kernel.task t).state = .ready ∧ t ∈ (s.kernel.rq old).queue) ∨
      ∀ d, t ∈ (s.kernel.rq d).queue → d = target) :
    Assigned (migrateLocked s.kernel t old target) := by
  unfold migrateLocked
  by_cases hready : (s.kernel.task t).state = .ready
  · rw [if_pos hready]
    by_cases ht : t ∈ (s.kernel.rq old).queue
    · have hlink := (h.unlink t old).link target (hs.not_linked_unlink ht)
      rw [removeFromCpuQueueLocked_of_mem ht] at hlink ⊢
      exact hlink
    rw [removeFromCpuQueueLocked_of_not_mem ht]
    exact h.assign (hkeep.resolve_left fun hc => ht hc.2)
  rw [if_neg hready]
  exact h.assign (hkeep.resolve_left fun hc => hready hc.1)

theorem Assigned.op (hkeep : KeepsHint s (.op n choice level))
    (heff : OpEffect s.kernel (s.op n) k' pc') : Assigned k' := by
  have hheld : ∀ {t}, (s.op n).holds = some t → ∀ d, t ∉ (s.kernel.rq d).queue := fun ht =>
    hs.not_linked (p := .op n) ht fun _ => Place.noConfusion
  unfold KeepsHint at hkeep
  dsimp only at hkeep
  generalize hpc : s.op n = pc at heff hkeep hheld
  cases heff with
  | quiet hk _ => exact h.quiet hk
  | link t c => exact h.link c (hheld rfl)
  | unlink t c _ | take t c idle _ => exact h.unlink t c
  | terminate t c _ _ => exact (h.setState t _).unlink t c
  | migrate t old target => exact h.migrate hs hkeep
  | ready t idle => exact h.setState t _
  | assign t idle => exact h.assign fun d hd => absurd hd (hheld rfl d)
  | affinity t c => exact h.assign hkeep

theorem Assigned.sched (heff : SchedEffect s.kernel c (s.sched c) k' pc') : Assigned k' := by
  have hheld : ∀ {t}, (s.sched c).holds = some t → ∀ d, t ∉ (s.kernel.rq d).queue := fun ht =>
    hs.not_linked (p := .cpu c) ht fun _ => Place.noConfusion
  generalize hpc : s.sched c = pc at heff hheld
  cases heff with
  | quiet hk _ => exact h.quiet hk
  | take i n t gen victim _ => exact h.unlink t victim
  | link t => exact h.link c (hheld rfl)
  | switch hk =>
    obtain ⟨next, hsched⟩ := scheduleLocked_spec (hs.idleTask_not_mem c) hk
    exact h.scheduled hs hsched

theorem Assigned.step {s' : Sys} {a : Action} (hkeep : KeepsHint s a)
    (hstep : step s a = some s') : Assigned s'.kernel := by
  cases step_effect hstep with
  | panic _ | add n t => exact h
  | quiet _ hk | call _ n hk _ _ _ => exact h.quiet hk
  | op n choice level heff => exact h.op hs hkeep heff
  | cpu _ c heff => exact h.sched hs heff
  | block c t _ _ | wake n t _ => exact h.setState t _

end

end

theorem assigned_of_run (h₀ : Consistent s₀)
    (ha : Assigned s₀.kernel) (hrun : Run step HintOk s₀ s) :
    Consistent s ∧ Assigned s.kernel :=
  Run.invariant (I := fun r => Consistent r ∧ Assigned r.kernel) (fun _ _ _ hs hok hstep =>
      ⟨hs.1.step hok.1 hstep, hs.2.step hs.1 hok.2 hstep⟩) ⟨h₀, ha⟩ hrun

theorem linked_once_where_assigned {s₀ s : Sys} (h₀ : Consistent s₀)
    (ha : Assigned s₀.kernel) (hrun : Run step HintOk s₀ s) :
    (∀ c, (s.kernel.rq c).queue.Nodup) ∧
    (∀ c d t, t ∈ (s.kernel.rq c).queue → t ∈ (s.kernel.rq d).queue → c = d) ∧
    ∀ c t, t ∈ (s.kernel.rq c).queue → (s.kernel.task t).assignedCpu = c := by
  obtain ⟨h, hassigned⟩ := assigned_of_run h₀ ha hrun
  refine ⟨h.nodup, fun c d t hc hd => ?_, hassigned⟩
  exact Place.queue.inj (h.exclusive (.queue c) (.queue d) t hc hd)

theorem machine_assigned (n : Nat) : Assigned (machine n).kernel :=
  fun _ _ h => absurd h List.not_mem_nil

theorem linked_once_handed : ∃ s, exec step (machine 2) (.callAdd 0 1 :: addSteps 0 1) = some s ∧
    1 ∈ (s.kernel.rq 1).queue ∧ (s.kernel.task 1).assignedCpu = 1 := by
  have hmem : ∃ s, exec step (machine 2) (.callAdd 0 1 :: addSteps 0 1) =
      some s ∧ 1 ∈ (s.kernel.rq 1).queue :=
    ⟨_, rfl, List.mem_cons_self⟩
  obtain ⟨s, hs, hlinked⟩ := hmem
  refine ⟨s, hs, hlinked, ?_⟩
  have hrun := run_of_exec step HintOk (.callAdd 0 1 :: addSteps 0 1) (machine 2) s
    ⟨⟨handOver_machine, trivial⟩, ⟨trivial, trivial⟩, ⟨trivial, trivial⟩,
      ⟨trivial, trivial⟩, ⟨trivial, trivial⟩, ⟨trivial, trivial⟩, trivial⟩ hs
  exact (linked_once_where_assigned (machine_consistent 2)
    (machine_assigned 2) hrun).2.2 1 1 hlinked

/--
`sched_migrate_task` towards CPU 1 has read that task 1 is on CPU 0 when CPU 2
steals it: the section then writes CPU 1 over the hint of a task that is linked
on CPU 2.
-/
theorem migrate_overwrites_hint : ∃ s, Run step (fun _ _ => True) (machine 3) s ∧
    1 ∈ (s.kernel.rq 2).queue ∧ (s.kernel.task 1).assignedCpu = 1 := by
  refine ⟨_, run_exec (.callAdd 0 1 :: addSteps 0 0 ++
    .callMigrate 0 1 1 :: List.replicate 3 (.op 0 0 none) ++ stealSteps 2 ++
    [.cpu 2 false, .op 0 0 none]) rfl, ?_, rfl⟩
  exact List.mem_cons_self

end SlmOs.Sched
