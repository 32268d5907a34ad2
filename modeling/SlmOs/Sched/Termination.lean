import SlmOs.Sched.Assigned

/-!
# Termination

A terminated task stays terminated and off the queues as long as the section of
`scheduler_terminate_task` never finds its task in the window of a thief, of the
rebalancer or of `scheduler_add_task_to_cpu`, between the last test of the state
and the write that relies on it.
-/

namespace SlmOs.Sched

open Function Foundation
open TaskState (noConfusion running)

def Alive (k : Kernel) (t : Nat) : Prop :=
  (k.task t).state ≠ .terminated ∧ (k.task t).state ≠ .destroyed

variable {t : Nat}

theorem Alive.of_ready (h : (k.task t).state = .ready) : Alive k t := by
  unfold Alive
  rw [h]
  exact ⟨noConfusion, noConfusion⟩

/-- A task that is linked, about to be linked, or idle, is alive. -/
structure LiveQueues (s : Sys) : Prop where
  linked : ∀ c, ∀ t ∈ (s.kernel.rq c).queue, Alive s.kernel t
  committed : ∀ n t, (s.op n).committed = some t → Alive s.kernel t
  stolen : ∀ c t, (s.sched c).holds = some t → Alive s.kernel t
  idle : ∀ t, (s.kernel.task t).isIdle = true → Alive s.kernel t
  victim : ∀ n t, (s.op n).victim = some t → (s.kernel.task t).isIdle = false

def KeepsAlive (k k' : Kernel) : Prop := ∀ t, Alive k t → Alive k' t

def Final (k k' : Kernel) : Prop :=
  ∀ t, (k.task t).state = .terminated → (k'.task t).state = .terminated

theorem keepsAlive_of_state (h : ∀ t, (k'.task t).state = (k.task t).state) : KeepsAlive k k' := by
  intro t ht
  unfold Alive
  rw [h]
  exact ht

theorem final_of_state (h : ∀ t, (k'.task t).state = (k.task t).state) : Final k k' := by
  intro t ht
  rw [h]
  exact ht

theorem keepsAlive_setState (h₁ : st ≠ .terminated) (h₂ : st ≠ .destroyed) :
    KeepsAlive k (k.setState t st) := by
  intro u hu
  unfold Alive
  rw [setState_state]
  split
  · exact ⟨h₁, h₂⟩
  · exact hu

theorem final_setState (h : (k.task t).state ≠ .terminated) : Final k (k.setState t st) := by
  intro u hu
  rw [setState_state, if_neg]
  · exact hu
  rintro rfl
  exact h hu

theorem removeFromCpuQueueLocked_task (k : Kernel) (t c : Nat) :
    (removeFromCpuQueueLocked k t c).1.task = k.task := by
  unfold removeFromCpuQueueLocked
  split <;> rfl

variable {c u : Nat}

theorem mem_of_mem_unlink (h : u ∈ ((removeFromCpuQueueLocked k t c).1.rq d).queue) :
    u ∈ (k.rq d).queue := by
  unfold removeFromCpuQueueLocked at h
  split at h
  · by_cases hd : d = c
    · subst hd
      rw [Kernel.setQueue_queue] at h
      exact List.mem_of_mem_erase h
    · rwa [Kernel.setQueue_of_ne _ _ hd] at h
  · exact h

theorem mem_add (h : u ∈ ((addToCpuQueueLocked k t c).rq d).queue) :
    u = t ∨ u ∈ (k.rq d).queue := by
  by_cases hd : d = c
  · subst hd
    obtain ⟨l, hperm, hrq⟩ := add_rq_self k t d
    rw [hrq] at h
    exact List.mem_cons.mp (hperm.mem_iff.mp h)
  rw [add_rq_of_ne k t hd] at h
  exact .inr h

theorem migrateLocked_field {α : Type} (f : Task → α)
    (hcpu : ∀ v c, f { v with assignedCpu := c } = f v)
    (hadd : ∀ k t c u, f ((addToCpuQueueLocked k t c).task u) = f (k.task u)) :
    f ((migrateLocked k t old target).task u) = f (k.task u) := by
  have hassign := setTask_field f k (hcpu (k.task t) target) u
  unfold migrateLocked
  split
  · dsimp only
    split
    · rw [hadd, removeFromCpuQueueLocked_task]
    · exact hassign
  · exact hassign

theorem mem_migrateLocked (h : u ∈ ((migrateLocked k t old target).rq d).queue) :
    u ∈ (k.rq d).queue ∨ (u = t ∧ (k.task t).state = .ready) := by
  unfold migrateLocked at h
  split at h
  · rename_i hready
    dsimp only at h
    split at h
    · rcases mem_add h with rfl | hmem
      · exact .inr ⟨rfl, hready⟩
      · exact .inl (mem_of_mem_unlink hmem)
    · exact .inl h
  · exact .inl h

/-! ## The panics of `schedule` -/

theorem pickNextTask_ne_none (h : ∀ t ∈ (k.rq c).queue, Alive k t) : pickNextTask k c ≠ none := by
  unfold pickNextTask
  split
  · exact Option.some_ne_none _
  rename_i t l hq
  have ht : Alive k t := h t (hq ▸ List.mem_cons_self)
  rw [if_neg (not_or.mpr ht)]
  exact Option.some_ne_none _

theorem dispatch_ne_none (h : Alive k next) : dispatch k c next ≠ none := by
  have htask : ∀ k' : Kernel, k'.task = k.task → ¬((k'.task next).state = .terminated ∨
        (k'.task next).state = .destroyed) := by
    intro k' hk'
    rw [hk']
    exact not_or.mpr h
  unfold dispatch
  dsimp only
  split
  · exact Option.some_ne_none _
  split
  · rename_i heq
    rw [if_neg]
    · exact Option.some_ne_none _
    rw [← heq]
    apply htask
    split <;> rfl
  · exact Option.some_ne_none _

theorem alive_of_pick (hidle : Alive k (k.rq c).idleTask)
    (h : pickNextTask k c = some next) : Alive k next := by
  rcases pickNextTask_cases h with ⟨-, rfl⟩ | ⟨l, -, halive⟩
  · exact hidle
  · exact halive

theorem alive_requeueCurrent (h : Alive k u) : Alive (requeueCurrent k c cur) u := by
  unfold Alive
  rw [requeueCurrent_state]
  split
  · exact ⟨noConfusion, noConfusion⟩
  · exact h

theorem scheduleLocked_ne_none (hqueue : ∀ t ∈ (k.rq c).queue, Alive k t)
    (hidle : Alive k (k.rq c).idleTask) : scheduleLocked k c ≠ none := by
  unfold scheduleLocked
  cases hpick : pickNextTask k c with
  | none => exact absurd hpick (pickNextTask_ne_none hqueue)
  | some next =>
    have hnext := alive_of_pick hidle hpick
    dsimp only
    split
    · exact dispatch_ne_none hnext
    rename_i cur hcur
    split
    · rename_i hrun
      -- the second pick, from the queue with the current task put back
      obtain ⟨l, hperm, hrq⟩ := requeueCurrent_rq_self k c cur
      have hqueue' : ∀ t ∈ ((requeueCurrent k c cur).rq c).queue,
          Alive (requeueCurrent k c cur) t := by
        intro t ht
        rw [hrq] at ht
        rcases List.mem_append.mp (hperm.mem_iff.mp ht) with ht | ht
        · have htcur : t = cur := by
            split at ht
            · exact List.mem_singleton.mp ht
            · exact absurd ht List.not_mem_nil
          unfold Alive
          rw [requeueCurrent_state, if_pos htcur]
          exact ⟨noConfusion, noConfusion⟩
        · exact alive_requeueCurrent (hqueue t ht)
      cases hpick' : pickNextTask (requeueCurrent k c cur) c with
      | none => exact absurd hpick' (pickNextTask_ne_none hqueue')
      | some next' =>
        refine dispatch_ne_none (alive_of_pick ?_ hpick')
        rw [hrq]
        exact alive_requeueCurrent hidle
    · exact dispatch_ne_none hnext

/-! ## The condition -/

/--
`scheduler_terminate_task` does not hit the window of another operation, and a
task that blocks or is woken has not been terminated meanwhile.
-/
def TermSafe (s : Sys) : Action → Prop
  | .op n _ _ =>
    match s.op n with
    | .termLock t _ _ => (∀ m, (s.op m).committed ≠ some t) ∧
        ∀ c, (s.sched c).holds ≠ some t
    | _ => True
  | .block c => ∀ t, (s.kernel.rq c).current = some t →
      (s.kernel.task t).state ≠ .terminated
  | .wake _ t => (s.kernel.task t).state ≠ .terminated
  | _ => True

def TermOk (s : Sys) (a : Action) : Prop := HintOk s a ∧ TermSafe s a

theorem forall_setOp {P : OpPc → Prop} {s : Sys} {n : Nat} {pc : OpPc}
    (hpc : P pc) (h : ∀ m, P (s.op m)) (m : Nat) : P ((s.setOp n pc).op m) := by
  change P (update s.op n pc m)
  by_cases hm : m = n
  · subst hm
    rwa [update_self]
  rw [update_of_ne hm]
  exact h m

theorem forall_setSched {P : SchedPc → Prop} {s : Sys} {pc : SchedPc} (hpc : P pc)
    (h : ∀ d, P (s.sched d)) (d : Nat) : P ((s.setSched c pc).sched d) := by
  change P (update s.sched c pc d)
  by_cases hd : d = c
  · subst hd
    rwa [update_self]
  rw [update_of_ne hd]
  exact h d

namespace LiveQueues

section

variable (h : LiveQueues s)
include h

theorem kernel (hkeep : KeepsAlive s.kernel k')
    (hlinked : ∀ c, ∀ t ∈ (k'.rq c).queue, Alive s.kernel t)
    (hidle : ∀ t, (k'.task t).isIdle = (s.kernel.task t).isIdle) :
    LiveQueues (s.setKernel k') where
  linked := fun c t ht => hkeep t (hlinked c t ht)
  committed := fun n t ht => hkeep t (h.committed n t ht)
  stolen := fun c t ht => hkeep t (h.stolen c t ht)
  idle := by
    intro t ht
    change (k'.task t).isIdle = true at ht
    rw [hidle] at ht
    exact hkeep t (h.idle t ht)
  victim := by
    intro n t ht
    change (k'.task t).isIdle = false
    rw [hidle]
    exact h.victim n t ht

theorem setOp {n : Nat} {pc : OpPc} (hcommitted : ∀ t, pc.committed = some t → Alive s.kernel t)
    (hvictim : ∀ t, pc.victim = some t → (s.kernel.task t).isIdle = false) :
    LiveQueues (s.setOp n pc) where
  linked := h.linked
  committed := forall_setOp (P := fun pc => ∀ t, pc.committed = some t → Alive s.kernel t)
    hcommitted h.committed
  stolen := h.stolen
  idle := h.idle
  victim := forall_setOp (P := fun pc => ∀ t, pc.victim = some t →
      (s.kernel.task t).isIdle = false) hvictim h.victim

theorem setOp_none (hcommitted : pc.committed = none) (hvictim : pc.victim = none) :
    LiveQueues (s.setOp n pc) := by
  refine h.setOp (fun t ht => ?_) fun t ht => ?_
  · rw [hcommitted] at ht
    cases ht
  rw [hvictim] at ht
  cases ht

theorem setSched {c : Nat} {pc : SchedPc} (hholds : ∀ t, pc.holds = some t → Alive s.kernel t) :
    LiveQueues (s.setSched c pc) where
  linked := h.linked
  committed := h.committed
  stolen := forall_setSched (P := fun pc => ∀ t, pc.holds = some t → Alive s.kernel t)
    hholds h.stolen
  idle := h.idle
  victim := h.victim

theorem quiet (hk : Quiet s.kernel k') : LiveQueues (s.setKernel k') := by
  refine h.kernel (keepsAlive_of_state hk.state) (fun c t ht => ?_) hk.isIdle
  rw [hk.queue] at ht
  exact h.linked c t ht

theorem unlink (t c : Nat) :
    LiveQueues (s.setKernel (removeFromCpuQueueLocked s.kernel t c).1) := by
  refine h.kernel (keepsAlive_of_state fun u => ?_)
    (fun d u hu => h.linked d u (mem_of_mem_unlink hu)) fun u => ?_
  all_goals rw [removeFromCpuQueueLocked_task]

theorem link (c : Nat) (ht : Alive s.kernel t) :
    LiveQueues (s.setKernel (addToCpuQueueLocked s.kernel t c)) := by
  refine h.kernel (keepsAlive_of_state fun u => add_state _ t c u)
    (fun d u hu => ?_) fun u => add_isIdle _ t c u
  rcases mem_add hu with rfl | hmem
  · exact ht
  · exact h.linked d u hmem

theorem setState (t : Nat) (h₁ : st ≠ .terminated) (h₂ : st ≠ .destroyed) :
    LiveQueues (s.setKernel (s.kernel.setState t st)) :=
  h.kernel (keepsAlive_setState h₁ h₂) h.linked fun u => setState_isIdle s.kernel t u st

theorem migrate (t old target : Nat) :
    LiveQueues (s.setKernel (migrateLocked s.kernel t old target)) := by
  refine h.kernel (keepsAlive_of_state fun _ => migrateLocked_field Task.state (fun _ _ => rfl) add_state)
    (fun d u hu => ?_) fun _ => migrateLocked_field Task.isIdle (fun _ _ => rfl) add_isIdle
  rcases mem_migrateLocked hu with hmem | ⟨rfl, hready⟩
  · exact h.linked d u hmem
  · exact .of_ready hready

theorem assign (t c : Nat) : LiveQueues (s.setKernel
      (s.kernel.setTask t { s.kernel.task t with assignedCpu := c })) := by
  refine h.kernel (keepsAlive_of_state ?_) h.linked ?_
  · apply setTask_field Task.state
    rfl
  apply setTask_field Task.isIdle
  rfl

end

theorem terminate (hs : Consistent s) (ha : Assigned s.kernel) (h : LiveQueues s)
    (hc : (s.kernel.task t).assignedCpu = c) (hidle : (s.kernel.task t).isIdle = false)
    (hcommitted : ∀ m, (s.op m).committed ≠ some t) (hstolen : ∀ d, (s.sched d).holds ≠ some t) :
    LiveQueues (s.setKernel
      (removeFromCpuQueueLocked (s.kernel.setState t .terminated) t c).1) := by
  have htask := removeFromCpuQueueLocked_task (s.kernel.setState t .terminated) t c
  have halive : ∀ u, u ≠ t → Alive s.kernel u → Alive
      (removeFromCpuQueueLocked (s.kernel.setState t .terminated) t c).1 u := by
    intro u hu hold
    unfold Alive
    rw [htask, setState_state, if_neg hu]
    exact hold
  have hflag : ∀ u, ((removeFromCpuQueueLocked
      (s.kernel.setState t .terminated) t c).1.task u).isIdle =
      (s.kernel.task u).isIdle := by
    intro u
    rw [htask, setState_isIdle]
  refine ⟨fun d u hu => ?_, fun n u hu => ?_, fun d u hu => ?_, fun u hu => ?_, fun n u hu => ?_⟩
  · have hmem : u ∈ (s.kernel.rq d).queue :=
      mem_of_mem_unlink (k := s.kernel.setState t .terminated) hu
    refine halive u ?_ (h.linked d u hmem)
    -- the hint says where it is linked, and there it has been unlinked
    rintro rfl
    obtain rfl : d = c := (ha d u hmem).symm.trans hc
    change u ∈ ((removeFromCpuQueueLocked (s.kernel.setState u .terminated) u d).1.rq d).queue at hu
    rw [removeFromCpuQueueLocked_of_mem (k := s.kernel.setState u .terminated)
      hmem, Kernel.setQueue_queue] at hu
    exact ((hs.nodup d).mem_erase_iff.mp hu).1 rfl
  · refine halive u ?_ (h.committed n u hu)
    rintro rfl
    exact hcommitted n hu
  · refine halive u ?_ (h.stolen d u hu)
    rintro rfl
    exact hstolen d hu
  · have hu' : (s.kernel.task u).isIdle = true := (hflag u).symm.trans hu
    refine halive u ?_ (h.idle u hu')
    rintro rfl
    rw [hidle] at hu'
    cases hu'
  · exact (hflag u).trans (h.victim n u hu)

theorem scheduled (h : LiveQueues s) (hsched : Scheduled s.kernel k' c next) :
    LiveQueues (s.setKernel k') := by
  refine h.kernel (fun u hu => ?_) (fun d u hu => ?_) hsched.isIdle
  · unfold Alive
    by_cases hnext : u = next
    · rw [hnext, hsched.nextState]
      exact ⟨noConfusion, noConfusion⟩
    rcases hsched.state u hnext with heq | ⟨-, hready⟩
    · rw [heq]
      exact hu
    rw [hready]
    exact ⟨noConfusion, noConfusion⟩
  by_cases hd : d = c
  · subst hd
    rcases hsched.queue with hperm | ⟨-, -, hq, -⟩
    · have hpool := hperm.mem_iff.mp (List.mem_cons_of_mem next hu)
      rcases List.mem_append.mp hpool with hback | hmem
      · unfold Alive
        rw [(Consistent.mem_requeued hback).2.1]
        exact ⟨noConfusion, noConfusion⟩
      · exact h.linked d u hmem
    rw [hq] at hu
    exact absurd hu List.not_mem_nil
  rw [hsched.others d hd] at hu
  exact h.linked d u hu

section

variable (hs : Consistent s)
include hs

theorem final_scheduled (h : LiveQueues s) (hsched : Scheduled s.kernel k' c next) :
    Final s.kernel k' := by
  intro u hu
  have hne : u ≠ next := by
    rintro rfl
    rcases hsched.alive with ⟨halive, -⟩ | hidle
    · exact halive hu
    refine (h.idle u ?_).1 hu
    rw [hidle]
    exact hs.idleFlag c
  rcases hsched.state u hne with heq | ⟨hrun, -⟩
  · rw [heq]
    exact hu
  rw [hu] at hrun
  cases hrun

theorem op (ha : Assigned s.kernel) (h : LiveQueues s) (hok : TermSafe s (.op n choice level))
    (heff : OpEffect s.kernel (s.op n) k' pc') :
    LiveQueues ((s.setKernel k').setOp n pc') ∧ Final s.kernel k' := by
  have hcommitted := h.committed n
  have hvictim := h.victim n
  unfold TermSafe at hok
  dsimp only at hok
  generalize hpc : s.op n = pc at heff hok hcommitted hvictim
  cases heff with
  | quiet hk hfollows =>
    refine ⟨(h.quiet hk).setOp (fun t ht => ?_) fun t ht => ?_, final_of_state hk.state⟩
    · exact keepsAlive_of_state hk.state t (.of_ready (hfollows.committed t ht))
    · exact (hk.isIdle t).trans (hvictim t (hfollows.victim t ht))
  | link t c =>
    exact ⟨(h.link c (hcommitted t rfl)).setOp_none rfl rfl,
      final_of_state fun u => add_state _ t c u⟩
  | unlink t c attempts =>
    refine ⟨(h.unlink t c).setOp_none rfl rfl, final_of_state fun u => ?_⟩
    rw [removeFromCpuQueueLocked_task]
  | terminate t c attempts hassigned =>
    refine ⟨(h.terminate hs ha hassigned (hvictim t rfl) hok.1
      hok.2).setOp_none rfl rfl, fun u hu => ?_⟩
    rw [removeFromCpuQueueLocked_task, setState_state]
    split
    · rfl
    · exact hu
  | migrate t old target =>
    exact ⟨(h.migrate t old target).setOp_none rfl rfl,
      final_of_state fun _ => migrateLocked_field Task.state (fun _ _ => rfl) add_state⟩
  | take t busy idle hcandidate =>
    refine ⟨(h.unlink t busy).setOp (fun u hu => ?_) (fun u hu => nomatch hu),
      final_of_state fun u => ?_⟩
    · cases hu
      refine .of_ready ?_
      change ((removeFromCpuQueueLocked s.kernel t busy).1.task t).state = _
      rw [removeFromCpuQueueLocked_task]
      exact (mem_of_rebalanceCandidate hcandidate).2
    · rw [removeFromCpuQueueLocked_task]
  | ready t idle =>
    exact ⟨(h.setState t noConfusion noConfusion).setOp_none rfl rfl,
      final_setState (hcommitted t rfl).1⟩
  | assign t idle | affinity t idle =>
    refine ⟨(h.assign t idle).setOp_none rfl rfl, final_of_state ?_⟩
    apply setTask_field Task.state
    rfl

theorem sched (h : LiveQueues s) (heff : SchedEffect s.kernel c (s.sched c) k' pc') :
    LiveQueues ((s.setKernel k').setSched c pc') ∧ Final s.kernel k' := by
  have hstolen := h.stolen c
  generalize hpc : s.sched c = pc at heff hstolen
  cases heff with
  | quiet hk hholds =>
    refine ⟨(h.quiet hk).setSched fun t ht => ?_, final_of_state hk.state⟩
    rw [hholds] at ht
    cases ht
  | take i n t gen victim hsteal =>
    refine ⟨(h.unlink t victim).setSched fun u hu => ?_, final_of_state fun u => ?_⟩
    · cases hu
      refine .of_ready ?_
      change ((removeFromCpuQueueLocked s.kernel t victim).1.task t).state = _
      rw [removeFromCpuQueueLocked_task]
      exact (mem_of_stealable hsteal).2
    · rw [removeFromCpuQueueLocked_task]
  | link t =>
    exact ⟨(h.link c (hstolen t rfl)).setSched (fun u hu => nomatch hu),
      final_of_state fun u => add_state _ t c u⟩
  | switch hk =>
    obtain ⟨next, hsched⟩ := scheduleLocked_spec (hs.idleTask_not_mem c) hk
    exact ⟨(h.scheduled hsched).setSched (fun u hu => nomatch hu), h.final_scheduled hs hsched⟩

theorem step {s' : Sys} {a : Action} (ha : Assigned s.kernel) (h : LiveQueues s)
    (hok : TermSafe s a) (hstep : step s a = some s') :
    LiveQueues s' ∧ Final s.kernel s'.kernel := by
  cases step_effect hstep with
  | panic _ =>
    exact ⟨⟨h.linked, h.committed, h.stolen, h.idle, h.victim⟩, fun _ ht => ht⟩
  | quiet _ hk => exact ⟨h.quiet hk, final_of_state hk.state⟩
  | call _ n hk _ hcommitted hvictim =>
    refine ⟨(h.quiet hk).setOp (fun t ht => ?_) fun t ht => ?_, final_of_state hk.state⟩
    · rw [hcommitted] at ht
      cases ht
    · exact (hk.isIdle t).trans (hvictim t ht)
  | add n t => exact ⟨h.setOp_none rfl rfl, fun _ ht => ht⟩
  | op n choice level heff => exact h.op hs ha hok heff
  | cpu _ c heff => exact h.sched hs heff
  | block c t hcur _ =>
    have hstate : LiveQueues (s.setKernel (s.kernel.setState t .blocked)) :=
      h.setState t noConfusion noConfusion
    exact ⟨⟨hstate.linked, hstate.committed, hstate.stolen, hstate.idle,
      hstate.victim⟩, final_setState (hok t hcur)⟩
  | wake n t _ =>
    have hstate : LiveQueues (s.setKernel (s.kernel.setState t .ready)) :=
      h.setState t noConfusion noConfusion
    have hfree : LiveQueues { (s.setKernel (s.kernel.setState t .ready)) with
        waiting := update s.waiting t false } :=
      ⟨hstate.linked, hstate.committed, hstate.stolen, hstate.idle, hstate.victim⟩
    exact ⟨hfree.setOp_none rfl rfl, final_setState hok⟩

end

end LiveQueues

/-! ## Runs -/

structure TermInvariant (s₀ s : Sys) : Prop where
  consistent : Consistent s
  assigned : Assigned s.kernel
  live : LiveQueues s
  final : Final s₀.kernel s.kernel

theorem termInvariant_of_run (h₀ : Consistent s₀) (ha : Assigned s₀.kernel) (hl : LiveQueues s₀)
    (hrun : Run step TermOk s₀ s) : TermInvariant s₀ s := by
  refine Run.invariant (I := TermInvariant s₀) (fun r a r' hr hok hstep => ?_)
    ⟨h₀, ha, hl, fun _ ht => ht⟩ hrun
  obtain ⟨hlive, hfinal⟩ := hr.live.step hr.consistent hr.assigned hok.2 hstep
  exact ⟨hr.consistent.step hok.1.1 hstep, hr.assigned.step hr.consistent hok.1.2 hstep, hlive,
    fun t ht => hfinal t (hr.final t ht)⟩

theorem terminated_final {s₀ s : Sys} (h₀ : Consistent s₀) (ha : Assigned s₀.kernel)
    (hl : LiveQueues s₀) (hrun : Run step TermOk s₀ s) :
    (∀ c, ∀ t ∈ (s.kernel.rq c).queue, (s.kernel.task t).state ≠ .terminated ∧
      (s.kernel.task t).state ≠ .destroyed) ∧
    (∀ c, pickNextTask s.kernel c ≠ none ∧ scheduleLocked s.kernel c ≠ none) ∧
    ∀ s', Run step TermOk s s' → ∀ t, (s.kernel.task t).state = .terminated →
        (s'.kernel.task t).state = .terminated := by
  have h := termInvariant_of_run h₀ ha hl hrun
  refine ⟨h.live.linked, fun c => ⟨?_, ?_⟩, fun s' hrun' => ?_⟩
  · exact pickNextTask_ne_none (h.live.linked c)
  · exact scheduleLocked_ne_none (h.live.linked c) (h.live.idle _ (h.consistent.idleFlag c))
  · exact (termInvariant_of_run h.consistent h.assigned h.live hrun').final

theorem machine_live (n : Nat) : LiveQueues (machine n) where
  linked := fun _ _ ht => absurd ht List.not_mem_nil
  committed := fun _ _ ht => nomatch ht
  stolen := fun _ _ ht => nomatch ht
  idle := by
    intro t ht
    have heven : t % 2 = 0 := of_decide_eq_true ht
    change (if t % 2 = 0 then running else .ready) ≠ .terminated ∧
      (if t % 2 = 0 then running else .ready) ≠ .destroyed
    rw [if_pos heven]
    exact ⟨noConfusion, noConfusion⟩
  victim := fun _ _ ht => nomatch ht

/-- Task 1 is terminated with nobody in a window, for good. -/
theorem terminated_final_quiet : ∃ s,
    exec step (machine 2) [.callTerminate 0 1, .op 0 0 none, .op 0 0 none] = some s ∧
    (s.kernel.task 1).state = .terminated ∧
    ∀ s', Run step TermOk s s' → (s'.kernel.task 1).state = .terminated := by
  refine ⟨_, rfl, rfl, fun s' hrun' => ?_⟩
  have hwindow : ∀ m, ((((machine 2).setOp 0 (.termRead 1 0)).setOp 0
      (.termLock 1 0 0)).op m).committed ≠ some 1 :=
    forall_setOp (P := fun pc => pc.committed ≠ some 1) (fun h => nomatch h)
      (forall_setOp (P := fun pc => pc.committed ≠ some 1)
        (fun h => nomatch h) fun _ h => nomatch h)
  have hrun := run_of_exec step TermOk
    [.callTerminate 0 1, .op 0 0 none, .op 0 0 none] (machine 2) _
    ⟨⟨⟨trivial, trivial⟩, trivial⟩, ⟨⟨trivial, trivial⟩, trivial⟩,
      ⟨⟨trivial, trivial⟩, hwindow, fun _ h => nomatch h⟩, trivial⟩ rfl
  exact (terminated_final (machine_consistent 2) (machine_assigned 2)
    (machine_live 2) hrun).2.2 s' hrun' 1 rfl

/--
CPU 1 steals task 1 from CPU 0, task 1 is terminated, and the thief links it:
the next `pick_next_task` of CPU 1 panics.
-/
theorem stolen_terminated_linked : ∃ s, Run step (fun _ _ => True) (machine 2) s ∧
    1 ∈ (s.kernel.rq 1).queue ∧ (s.kernel.task 1).state = .terminated ∧
    pickNextTask s.kernel 1 = none := by
  refine ⟨_, run_exec (.callAdd 0 1 :: addSteps 0 0 ++ stealSteps 1 ++
    [.callTerminate 0 1, .op 0 0 none, .op 0 0 none, .cpu 1 false]) rfl, ?_, rfl, rfl⟩
  exact List.mem_cons_self

end SlmOs.Sched
