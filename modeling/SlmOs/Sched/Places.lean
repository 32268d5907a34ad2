import SlmOs.Sched.Effects

/-!
# Where a task is

A task is linked in a run queue, current on a CPU, or in the hands of an
operation that has taken it and not yet linked it.  As long as tasks are handed
to `scheduler_add_task` only while they are in none of these places, no
interleaving ever puts a task in two of them.
-/

namespace SlmOs.Sched

open Function Foundation Kernel List

inductive Place where
  | queue (c : Nat)
  | running (c : Nat)
  | op (n : Nat)
  | cpu (c : Nat)
  deriving DecidableEq, Repr

def At (s : Sys) : Place → Nat → Prop
  | .queue c, t => t ∈ (s.kernel.rq c).queue
  | .running c, t => (s.kernel.rq c).current = some t
  | .op n, t => (s.op n).holds = some t
  | .cpu c, t => (s.sched c).holds = some t

def Nowhere (s : Sys) (t : Nat) : Prop := ∀ p, ¬At s p t

structure Consistent (s : Sys) : Prop where
  nodup : ∀ c, (s.kernel.rq c).queue.Nodup
  exclusive : Exclusive (At s)
  idleInj : ∀ c d, (s.kernel.rq c).idleTask = (s.kernel.rq d).idleTask → c = d
  idleFlag : ∀ c, (s.kernel.task (s.kernel.rq c).idleTask).isIdle = true
  idle : ∀ c p, At s p (s.kernel.rq c).idleTask → p = .running c
  waiting : ∀ t, s.waiting t = true → (s.kernel.task t).isIdle = false ∧
    (s.kernel.task t).state ≠ .running ∧ ∀ p, At s p t → ∃ c, p = .running c

namespace Consistent

section

variable (h : Consistent s)
include h

theorem not_idle_of_op (ht : (s.op n).holds = some t) (d : Nat) : t ≠ (s.kernel.rq d).idleTask := by
  rintro rfl
  cases h.idle d (.op n) ht

theorem not_idle_of_cpu (ht : (s.sched c).holds = some t)
    (d : Nat) : t ≠ (s.kernel.rq d).idleTask := by
  rintro rfl
  cases h.idle d (.cpu c) ht

theorem not_idle_of_queue (ht : t ∈ (s.kernel.rq c).queue) (d : Nat) :
    t ≠ (s.kernel.rq d).idleTask := by
  rintro rfl
  cases h.idle d (.queue c) ht

theorem not_waiting (hp : At s p t) (hne : ∀ d, p ≠ .running d) : s.waiting t = false := by
  by_contra hw
  obtain ⟨d, hd⟩ := (h.waiting t (by simpa using hw)).2.2 p hp
  exact hne d hd

end

end Consistent

/-! ## Program counters -/

theorem at_setOp (h : At (s.setOp n pc) p t) :
    (p = .op n ∧ pc.holds = some t) ∨ (p ≠ .op n ∧ At s p t) := by
  cases p with
  | op m =>
    change (update s.op n pc m).holds = some t at h
    by_cases hm : m = n
    · subst hm
      rw [update_self] at h
      exact .inl ⟨rfl, h⟩
    rw [update_of_ne hm] at h
    exact .inr ⟨fun hp => hm (Place.op.inj hp), h⟩
  | _ => exact .inr ⟨Place.noConfusion, h⟩

theorem at_setSched (h : At (s.setSched c pc) p t) :
    (p = .cpu c ∧ pc.holds = some t) ∨ (p ≠ .cpu c ∧ At s p t) := by
  cases p with
  | cpu d =>
    change (update s.sched c pc d).holds = some t at h
    by_cases hd : d = c
    · subst hd
      rw [update_self] at h
      exact .inl ⟨rfl, h⟩
    rw [update_of_ne hd] at h
    exact .inr ⟨fun hp => hd (Place.cpu.inj hp), h⟩
  | _ => exact .inr ⟨Place.noConfusion, h⟩

namespace Consistent

section

variable (h : Consistent s)
include h

theorem shrink (hat : ∀ p u, At s' p u → At s p u)
    (hkernel : s'.kernel = s.kernel) (hwaiting : s'.waiting = s.waiting) :
    Consistent s' where
  nodup := by
    rw [hkernel]
    exact h.nodup
  exclusive := h.exclusive.mono hat
  idleInj := by
    rw [hkernel]
    exact h.idleInj
  idleFlag := by
    rw [hkernel]
    exact h.idleFlag
  idle := by
    rw [hkernel]
    exact fun d p hp => h.idle d p (hat p _ hp)
  waiting := by
    rw [hkernel, hwaiting]
    intro u hu
    obtain ⟨h₁, h₂, h₃⟩ := h.waiting u hu
    exact ⟨h₁, h₂, fun p hp => h₃ p (hat p u hp)⟩

theorem grab (hkernel : s'.kernel = s.kernel) (hwaiting : s'.waiting = s.waiting) (p : Place)
    (hp : ∀ d, p ≠ .running d) (hidle : ∀ d, t ≠ (s.kernel.rq d).idleTask)
    (hw : s.waiting t = false) (hnowhere : Nowhere s t)
    (hat : ∀ q u, At s' q u → (q = p ∧ u = t) ∨ At s q u) :
    Consistent s' where
  nodup := by
    rw [hkernel]
    exact h.nodup
  exclusive := by
    refine h.exclusive.move t p fun q u hq => ?_
    rcases hat q u hq with ⟨rfl, rfl⟩ | hold
    · exact .inl ⟨rfl, rfl⟩
    refine .inr ⟨?_, hold⟩
    rintro rfl
    exact hnowhere q hold
  idleInj := by
    rw [hkernel]
    exact h.idleInj
  idleFlag := by
    rw [hkernel]
    exact h.idleFlag
  idle := by
    rw [hkernel]
    intro d q hq
    rcases hat q _ hq with ⟨-, heq⟩ | hold
    · exact absurd heq.symm (hidle d)
    · exact h.idle d q hold
  waiting := by
    rw [hkernel, hwaiting]
    intro u hu
    obtain ⟨h₁, h₂, h₃⟩ := h.waiting u hu
    refine ⟨h₁, h₂, fun q hq => ?_⟩
    rcases hat q u hq with ⟨-, rfl⟩ | hold
    · rw [hw] at hu
      cases hu
    · exact h₃ q hold

theorem setOp (pc : OpPc) (hpc : ∀ u, pc.holds = some u → (s.op n).holds = some u) :
    Consistent (s.setOp n pc) := by
  refine h.shrink (fun p u hp => ?_) rfl rfl
  rcases at_setOp hp with ⟨rfl, hu⟩ | ⟨-, hold⟩
  · exact hpc u hu
  · exact hold

theorem setSched (pc : SchedPc) (hpc : pc.holds = none) : Consistent (s.setSched c pc) := by
  refine h.shrink (fun p u hp => ?_) rfl rfl
  rcases at_setSched hp with ⟨-, hu⟩ | ⟨-, hold⟩
  · rw [hpc] at hu
    cases hu
  · exact hold

theorem grabOp (pc : OpPc) (hpc : pc.holds = some t) (hidle : ∀ d, t ≠ (s.kernel.rq d).idleTask)
    (hw : s.waiting t = false) (hnowhere : Nowhere s t) : Consistent (s.setOp n pc) := by
  refine h.grab rfl rfl (.op n) (fun _ => Place.noConfusion) hidle hw hnowhere fun q u hq => ?_
  rcases at_setOp hq with ⟨rfl, hu⟩ | ⟨-, hold⟩
  · rw [hpc] at hu
    exact .inl ⟨rfl, (Option.some.inj hu).symm⟩
  · exact .inr hold

theorem grabSched (pc : SchedPc)
    (hpc : pc.holds = some t) (hidle : ∀ d, t ≠ (s.kernel.rq d).idleTask)
    (hw : s.waiting t = false) (hnowhere : Nowhere s t) :
    Consistent (s.setSched c pc) := by
  refine h.grab rfl rfl (.cpu c) (fun _ => Place.noConfusion) hidle hw hnowhere fun q u hq => ?_
  rcases at_setSched hq with ⟨rfl, hu⟩ | ⟨-, hold⟩
  · rw [hpc] at hu
    exact .inl ⟨rfl, (Option.some.inj hu).symm⟩
  · exact .inr hold

theorem nowhere_setOp (ht : (s.op n).holds = some t) (hpc : pc.holds = none) :
    Nowhere (s.setOp n pc) t := by
  intro p hp
  rcases at_setOp hp with ⟨-, hu⟩ | ⟨hne, hold⟩
  · rw [hpc] at hu
    cases hu
  · exact hne (h.exclusive p (.op n) t hold ht)

theorem nowhere_setSched (ht : (s.sched c).holds = some t)
    (hpc : pc.holds = none) : Nowhere (s.setSched c pc) t := by
  intro p hp
  rcases at_setSched hp with ⟨-, hu⟩ | ⟨hne, hold⟩
  · rw [hpc] at hu
    cases hu
  · exact hne (h.exclusive p (.cpu c) t hold ht)

end

/-! ## Critical sections -/

theorem at_unmoved (hqueue : ∀ d, (k.rq d).queue = (s.kernel.rq d).queue)
    (hcurrent : ∀ d, (k.rq d).current = (s.kernel.rq d).current) (p : Place)
    (u : Nat) (hp : At (s.setKernel k) p u) : At s p u := by
  cases p with
  | queue d =>
    change u ∈ (k.rq d).queue at hp
    rwa [hqueue] at hp
  | running d =>
    change (k.rq d).current = some u at hp
    rwa [hcurrent] at hp
  | op m | cpu d => exact hp

theorem unmoved (h : Consistent s) (hqueue : ∀ d, (k.rq d).queue = (s.kernel.rq d).queue)
    (hcurrent : ∀ d, (k.rq d).current = (s.kernel.rq d).current)
    (hidle : ∀ d, (k.rq d).idleTask = (s.kernel.rq d).idleTask)
    (hflag : ∀ u, (k.task u).isIdle = (s.kernel.task u).isIdle)
    (hstate : ∀ u, (k.task u).state = .running → (s.kernel.task u).state = .running) :
    Consistent (s.setKernel k) := by
  have hat := at_unmoved hqueue hcurrent
  refine ⟨fun d => ?_, h.exclusive.mono hat, fun d e hde => ?_, fun d => ?_,
    fun d p hp => ?_, fun u hu => ?_⟩
  · change (k.rq d).queue.Nodup
    rw [hqueue]
    exact h.nodup d
  · change (k.rq d).idleTask = (k.rq e).idleTask at hde
    rw [hidle, hidle] at hde
    exact h.idleInj d e hde
  · change (k.task (k.rq d).idleTask).isIdle = true
    rw [hflag, hidle]
    exact h.idleFlag d
  · change At (s.setKernel k) p (k.rq d).idleTask at hp
    rw [hidle] at hp
    exact h.idle d p (hat p _ hp)
  obtain ⟨h₁, h₂, h₃⟩ := h.waiting u hu
  refine ⟨?_, fun hr => h₂ (hstate u hr), fun p hp => h₃ p (hat p u hp)⟩
  change (k.task u).isIdle = false
  rw [hflag]
  exact h₁

theorem quiet (h : Consistent s) (hk : Quiet s.kernel k) : Consistent (s.setKernel k) :=
  h.unmoved hk.queue hk.current hk.idleTask hk.isIdle fun u hu => by rwa [← hk.state u]

theorem setTask (h : Consistent s) (hflag : v.isIdle = (s.kernel.task t).isIdle)
    (hstate : v.state = .running → (s.kernel.task t).state = .running) :
    Consistent (s.setKernel (s.kernel.setTask t v)) := by
  refine h.unmoved (fun _ => rfl) (fun _ => rfl) (fun _ => rfl)
    (setTask_field Task.isIdle s.kernel hflag) fun u hu => ?_
  by_cases hut : u = t
  · subst hut
    rw [setTask_self] at hu
    exact hstate hu
  · rwa [setTask_of_ne _ _ hut] at hu

theorem at_setQueue (hp : At (s.setKernel (s.kernel.setQueue c l)) p u) :
    (p = .queue c ∧ u ∈ l) ∨ (p ≠ .queue c ∧ At s p u) := by
  cases p with
  | queue d =>
    change u ∈ ((s.kernel.setQueue c l).rq d).queue at hp
    by_cases hd : d = c
    · subst hd
      rw [setQueue_queue] at hp
      exact .inl ⟨rfl, hp⟩
    rw [setQueue_of_ne _ _ hd] at hp
    exact .inr ⟨fun hq => hd (Place.queue.inj hq), hp⟩
  | running d =>
    refine .inr ⟨Place.noConfusion, ?_⟩
    change ((s.kernel.setQueue c l).rq d).current = some u at hp
    by_cases hd : d = c
    · subst hd
      rwa [setQueue, setRq_self] at hp
    · rwa [setQueue_of_ne _ _ hd] at hp
  | op m | cpu d => exact .inr ⟨Place.noConfusion, hp⟩

theorem setQueue_idleTask (k : Kernel) (c d : Nat) (l : List Nat) :
    ((k.setQueue c l).rq d).idleTask = (k.rq d).idleTask := by
  by_cases hd : d = c
  · subst hd
    rw [setQueue, setRq_self]
  · rw [setQueue_of_ne _ _ hd]

section

variable (h : Consistent s)
include h

theorem setQueue (hl : l.Nodup) (hnew : ∀ u ∈ l, (∀ p, At s p u → p = .queue c) ∧
      (∀ d, u ≠ (s.kernel.rq d).idleTask) ∧ s.waiting u = false) :
    Consistent (s.setKernel (s.kernel.setQueue c l)) := by
  refine ⟨fun d => ?_, fun p q u hp hq => ?_, fun d e hde => ?_, fun d => ?_,
    fun d p hp => ?_, fun u hu => ?_⟩
  · by_cases hd : d = c
    · subst hd
      change ((s.kernel.setQueue d l).rq d).queue.Nodup
      rwa [setQueue_queue]
    · change ((s.kernel.setQueue c l).rq d).queue.Nodup
      rw [setQueue_of_ne _ _ hd]
      exact h.nodup d
  · rcases at_setQueue hp with ⟨rfl, hu⟩ | ⟨hne, hold⟩
    · rcases at_setQueue hq with ⟨rfl, -⟩ | ⟨hne, hold⟩
      · rfl
      · exact absurd ((hnew u hu).1 q hold) hne
    · rcases at_setQueue hq with ⟨rfl, hu⟩ | ⟨-, hold'⟩
      · exact absurd ((hnew u hu).1 p hold) hne
      · exact h.exclusive p q u hold hold'
  · change ((s.kernel.setQueue c l).rq d).idleTask = ((s.kernel.setQueue c l).rq e).idleTask at hde
    rw [setQueue_idleTask, setQueue_idleTask] at hde
    exact h.idleInj d e hde
  · change (s.kernel.task ((s.kernel.setQueue c l).rq d).idleTask).isIdle = true
    rw [setQueue_idleTask]
    exact h.idleFlag d
  · change At _ p ((s.kernel.setQueue c l).rq d).idleTask at hp
    rw [setQueue_idleTask] at hp
    rcases at_setQueue hp with ⟨-, hu⟩ | ⟨-, hold⟩
    · exact absurd rfl ((hnew _ hu).2.1 d)
    · exact h.idle d p hold
  obtain ⟨h₁, h₂, h₃⟩ := h.waiting u hu
  refine ⟨h₁, h₂, fun p hp => ?_⟩
  rcases at_setQueue hp with ⟨-, hmem⟩ | ⟨-, hold⟩
  · have hw : s.waiting u = false := (hnew u hmem).2.2
    change s.waiting u = true at hu
    rw [hw] at hu
    cases hu
  · exact h₃ p hold

theorem unlink (u c : Nat) :
    Consistent (s.setKernel (removeFromCpuQueueLocked s.kernel u c).1) := by
  by_cases hu : u ∈ (s.kernel.rq c).queue
  · rw [removeFromCpuQueueLocked_of_mem hu]
    refine h.setQueue ((h.nodup c).erase u) fun v hv => ?_
    have hv : At s (.queue c) v := mem_of_mem_erase hv
    exact ⟨fun p hp => h.exclusive p _ v hp hv, h.not_idle_of_queue hv,
      h.not_waiting hv fun _ => Place.noConfusion⟩
  rw [removeFromCpuQueueLocked_of_not_mem hu]
  exact h

theorem nowhere_unlink (ht : t ∈ (s.kernel.rq c).queue) :
    Nowhere (s.setKernel (removeFromCpuQueueLocked s.kernel t c).1) t := by
  rw [removeFromCpuQueueLocked_of_mem ht]
  intro p hp
  rcases at_setQueue hp with ⟨-, hmem⟩ | ⟨hne, hold⟩
  · exact ((h.nodup c).mem_erase_iff.mp hmem).1 rfl
  · exact hne (h.exclusive p (.queue c) t hold ht)

theorem link (c : Nat) (hidle : ∀ d, t ≠ (s.kernel.rq d).idleTask) (hw : s.waiting t = false)
    (hnowhere : Nowhere s t) : Consistent (s.setKernel (addToCpuQueueLocked s.kernel t c)) := by
  obtain ⟨e, l, hperm, heq⟩ := addToCpuQueueLocked_eq s.kernel t c
  rw [heq]
  have h₁ : Consistent (s.setKernel (s.kernel.setTask t { s.kernel.task t with
      assignedCpu := c, effectivePriority := e })) :=
    h.setTask rfl fun hr => hr
  refine h₁.setQueue ?_ fun u hu => ?_
  · refine hperm.nodup_iff.mpr (nodup_cons.mpr ⟨?_, h.nodup c⟩)
    exact fun hmem => hnowhere (.queue c) hmem
  rcases mem_cons.mp (hperm.mem_iff.mp hu) with rfl | hold
  · refine ⟨fun p hp => ?_, hidle, hw⟩
    cases p with
    | queue d => exact absurd hp (hnowhere (.queue d))
    | running d => exact absurd hp (hnowhere (.running d))
    | op m => exact absurd hp (hnowhere (.op m))
    | cpu d => exact absurd hp (hnowhere (.cpu d))
  have hq : At s (.queue c) u := hold
  refine ⟨fun p hp => ?_, h.not_idle_of_queue hold, h.not_waiting hq fun _ => Place.noConfusion⟩
  cases p with
  | queue d => exact h.exclusive _ _ u hp hq
  | running d => exact h.exclusive (.running d) _ u hp hq
  | op m => exact h.exclusive (.op m) _ u hp hq
  | cpu d => exact h.exclusive (.cpu d) _ u hp hq

end

theorem mem_requeued (hu : u ∈ requeued k c) :
    (k.rq c).current = some u ∧ (k.task u).state = .running ∧ u ≠ (k.rq c).idleTask := by
  unfold requeued at hu
  cases hcur : (k.rq c).current with
  | none =>
    rw [hcur] at hu
    exact absurd hu not_mem_nil
  | some cur =>
    rw [hcur] at hu
    dsimp only at hu
    split at hu
    · rename_i hc
      obtain rfl := mem_singleton.mp hu
      exact ⟨rfl, hc⟩
    · exact absurd hu not_mem_nil

theorem requeued_nodup (k : Kernel) (c : Nat) : (requeued k c).Nodup := by
  unfold requeued
  split
  · exact nodup_nil
  split
  · exact nodup_cons.mpr ⟨not_mem_nil, nodup_nil⟩
  · exact nodup_nil

def pool (k : Kernel) (c : Nat) : List Nat := requeued k c ++ (k.rq c).queue

theorem at_of_pool (hu : u ∈ pool s.kernel c) : At s (.running c) u ∨ At s (.queue c) u := by
  rcases mem_append.mp hu with hu | hu
  · exact .inl (mem_requeued hu).1
  · exact .inr hu

section

variable (h : Consistent s)
include h

theorem pool_nodup (c : Nat) : (pool s.kernel c).Nodup := by
  refine nodup_append.mpr ⟨requeued_nodup _ _, h.nodup c, ?_⟩
  rintro u hu v hv rfl
  have hrun : At s (.running c) u := (mem_requeued hu).1
  cases h.exclusive _ _ u hrun (show At s (.queue c) u from hv)

theorem pool_not_waiting (hu : u ∈ pool s.kernel c) : s.waiting u = false := by
  rcases mem_append.mp hu with hu | hu
  · by_contra hw
    exact (h.waiting u (by simpa using hw)).2.1 (mem_requeued hu).2.1
  · exact h.not_waiting (show At s (.queue c) u from hu) fun _ => Place.noConfusion

theorem not_mem_pool (hq : p ≠ .queue c) (hr : p ≠ .running c) (hp : At s p u) :
    u ∉ pool s.kernel c := by
  intro hu
  rcases at_of_pool hu with hold | hold
  · exact hr (h.exclusive p _ u hp hold)
  · exact hq (h.exclusive p _ u hp hold)

theorem idle_not_mem_pool (c d : Nat) : (s.kernel.rq d).idleTask ∉ pool s.kernel c := by
  intro hu
  rcases mem_append.mp hu with hback | hq
  · obtain ⟨hcur, -, hne⟩ := mem_requeued hback
    have hd := h.idle d (.running c) hcur
    rw [Place.running.inj hd] at hne
    exact absurd rfl hne
  · exact absurd rfl (h.not_idle_of_queue hq d)

end

section

variable (hs : Scheduled k k' c t)
include hs

theorem queue_subset_pool (hu : u ∈ (k'.rq c).queue) : u ∈ pool k c := by
  rcases hs.queue with hperm | ⟨-, -, hq, -⟩
  · exact hperm.mem_iff.mp (mem_cons_of_mem _ hu)
  rw [hq] at hu
  exact absurd hu not_mem_nil

theorem next_mem_pool : t ∈ pool k c ∨ t = (k.rq c).idleTask := by
  rcases hs.queue with hperm | ⟨-, -, -, hidle⟩
  · exact .inl (hperm.mem_iff.mp mem_cons_self)
  · exact .inr hidle

theorem scheduled_idleTask (d : Nat) : (k'.rq d).idleTask = (k.rq d).idleTask := by
  by_cases hd : d = c
  · subst hd
    exact hs.idleTask
  · rw [hs.others d hd]

end

theorem at_scheduled (hs : Scheduled s.kernel k' c t) (hp : At (s.setKernel k') p u) :
    (p = .queue c ∧ u ∈ (k'.rq c).queue) ∨ (p = .running c ∧ u = t) ∨
      (p ≠ .queue c ∧ p ≠ .running c ∧ At s p u) := by
  cases p with
  | queue d =>
    by_cases hd : d = c
    · subst hd
      exact .inl ⟨rfl, hp⟩
    refine .inr (.inr ⟨fun hq => hd (Place.queue.inj hq), Place.noConfusion, ?_⟩)
    change u ∈ (k'.rq d).queue at hp
    rwa [hs.others d hd] at hp
  | running d =>
    change (k'.rq d).current = some u at hp
    by_cases hd : d = c
    · subst hd
      rw [hs.current] at hp
      exact .inr (.inl ⟨rfl, (Option.some.inj hp).symm⟩)
    rw [hs.others d hd] at hp
    exact .inr (.inr ⟨Place.noConfusion, fun hq => hd (Place.running.inj hq), hp⟩)
  | op m | cpu d => exact .inr (.inr ⟨Place.noConfusion, Place.noConfusion, hp⟩)

theorem scheduled {s : Sys} {c : Nat} (h : Consistent s) {k' : Kernel} {next : Nat}
    (hs : Scheduled s.kernel k' c next) : Consistent (s.setKernel k') := by
  have hqueueNodup : (next :: (k'.rq c).queue).Nodup := by
    rcases hs.queue with hperm | ⟨-, -, hq, -⟩
    · exact hperm.nodup_iff.mpr (h.pool_nodup c)
    rw [hq]
    exact nodup_cons.mpr ⟨not_mem_nil, nodup_nil⟩
  have hqueueOther : ∀ p u, u ∈ (k'.rq c).queue → p ≠ .queue c → p ≠ .running c → ¬At s p u :=
    fun p u hu h₁ h₂ hp => h.not_mem_pool h₁ h₂ hp (queue_subset_pool hs hu)
  have hnextOther : ∀ p, p ≠ .queue c → p ≠ .running c → ¬At s p next := by
    intro p h₁ h₂ hp
    rcases next_mem_pool hs with hmem | rfl
    · exact h.not_mem_pool h₁ h₂ hp hmem
    · exact h₂ (h.idle c p hp)
  refine ⟨fun d => ?_, fun p q u hp hq => ?_, fun d e hde => ?_, fun d => ?_,
    fun d p hp => ?_, fun u hu => ?_⟩
  · change (k'.rq d).queue.Nodup
    by_cases hd : d = c
    · subst hd
      exact (nodup_cons.mp hqueueNodup).2
    rw [hs.others d hd]
    exact h.nodup d
  · rcases at_scheduled hs hp with ⟨rfl, hu⟩ | ⟨rfl, rfl⟩ | ⟨h₁, h₂, hold⟩
    · rcases at_scheduled hs hq with ⟨rfl, -⟩ | ⟨rfl, rfl⟩ | ⟨h₁, h₂, hold⟩
      · rfl
      · exact absurd hu (nodup_cons.mp hqueueNodup).1
      · exact absurd hold (hqueueOther q u hu h₁ h₂)
    · rcases at_scheduled hs hq with ⟨rfl, hu⟩ | ⟨rfl, -⟩ | ⟨h₁, h₂, hold⟩
      · exact absurd hu (nodup_cons.mp hqueueNodup).1
      · rfl
      · exact absurd hold (hnextOther q h₁ h₂)
    · rcases at_scheduled hs hq with ⟨rfl, hu⟩ | ⟨rfl, rfl⟩ | ⟨-, -, hold'⟩
      · exact absurd hold (hqueueOther p u hu h₁ h₂)
      · exact absurd hold (hnextOther p h₁ h₂)
      · exact h.exclusive p q u hold hold'
  · change (k'.rq d).idleTask = (k'.rq e).idleTask at hde
    rw [scheduled_idleTask hs, scheduled_idleTask hs] at hde
    exact h.idleInj d e hde
  · change (k'.task (k'.rq d).idleTask).isIdle = true
    rw [hs.isIdle, scheduled_idleTask hs]
    exact h.idleFlag d
  · change At _ p (k'.rq d).idleTask at hp
    rw [scheduled_idleTask hs] at hp
    rcases at_scheduled hs hp with ⟨rfl, hu⟩ | ⟨rfl, heq⟩ | ⟨-, -, hold⟩
    · exact absurd (queue_subset_pool hs hu) (h.idle_not_mem_pool c d)
    · rcases next_mem_pool hs with hmem | hidle
      · exact absurd (heq ▸ hmem) (h.idle_not_mem_pool c d)
      · rw [h.idleInj d c (heq.trans hidle)]
    · exact h.idle d p hold
  obtain ⟨h₁, h₂, h₃⟩ := h.waiting u hu
  have hnotPool : u ∉ pool s.kernel c := by
    intro hmem
    have hw := h.pool_not_waiting hmem
    change s.waiting u = true at hu
    rw [hw] at hu
    cases hu
  have hune : u ≠ next := by
    rintro rfl
    rcases next_mem_pool hs with hmem | hidle
    · exact hnotPool hmem
    have hflag := h.idleFlag c
    rw [← hidle, h₁] at hflag
    cases hflag
  refine ⟨?_, ?_, fun p hp => ?_⟩
  · change (k'.task u).isIdle = false
    rw [hs.isIdle]
    exact h₁
  · change (k'.task u).state ≠ .running
    rcases hs.state u hune with heq | ⟨hrun, -⟩
    · rw [heq]
      exact h₂
    · exact absurd hrun h₂
  rcases at_scheduled hs hp with ⟨-, hmem⟩ | ⟨-, rfl⟩ | ⟨-, -, hold⟩
  · exact absurd (queue_subset_pool hs hmem) hnotPool
  · exact absurd rfl hune
  · exact h₃ p hold

theorem migrate (h : Consistent s) (t old target : Nat) :
    Consistent (s.setKernel (migrateLocked s.kernel t old target)) := by
  have hassign : Consistent (s.setKernel (s.kernel.setTask t
      { s.kernel.task t with assignedCpu := target })) :=
    h.setTask rfl fun hr => hr
  unfold migrateLocked
  split
  · by_cases ht : t ∈ (s.kernel.rq old).queue
    · have hlink := (h.unlink t old).link target (t := t) (fun d => ?_)
        (h.not_waiting (show At s (.queue old) t from ht)
          fun _ => Place.noConfusion) (h.nowhere_unlink ht)
      · rw [removeFromCpuQueueLocked_of_mem ht] at hlink ⊢
        exact hlink
      · rw [removeFromCpuQueueLocked_of_mem ht]
        change t ≠ ((s.kernel.setQueue old _).rq d).idleTask
        rw [setQueue_idleTask]
        exact h.not_idle_of_queue ht d
    · rw [removeFromCpuQueueLocked_of_not_mem ht]
      exact hassign
  · exact hassign

theorem take (h : Consistent s) (ht : t ∈ (s.kernel.rq c).queue) :
    Consistent (s.setKernel (removeFromCpuQueueLocked s.kernel t c).1) ∧
      Nowhere (s.setKernel (removeFromCpuQueueLocked s.kernel t c).1) t ∧
      s.waiting t = false ∧ ∀ d, t ≠
        ((s.setKernel (removeFromCpuQueueLocked s.kernel t c).1).kernel.rq d).idleTask := by
  refine ⟨h.unlink t c, h.nowhere_unlink ht, h.not_waiting
    (show At s (.queue c) t from ht) fun _ => Place.noConfusion, fun d => ?_⟩
  rw [removeFromCpuQueueLocked_of_mem ht]
  change t ≠ ((s.kernel.setQueue c _).rq d).idleTask
  rw [setQueue_idleTask]
  exact h.not_idle_of_queue ht d

end Consistent

end SlmOs.Sched
