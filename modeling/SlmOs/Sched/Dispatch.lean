import SlmOs.Sched.Assigned

/-!
# Dispatch order

A run queue is kept in the order of the effective priorities by inserting at the
right place.  Effective priorities also change while a task is queued: by
`task_set_priority` and `sched_refresh_effective_priority` in place, by a boost
through a mutex followed by `sched_reposition_task`, and by `schedule` itself,
which refreshes the head of the queue before it takes it.
-/

namespace SlmOs.Sched

open Foundation Kernel List List.Pairwise Nat

/-! ## Priorities of queued tasks -/

def Kernel.eff (k : Kernel) (t : Nat) : Nat := (k.task t).effectivePriority

def refreshed (k : Kernel) (t : Nat) : Nat :=
  (deadlineBoosted k (k.task t)).effectivePriority

def taskSetPriority (k : Kernel) (t priority : Nat) : Kernel :=
  let priority :=
    if priority > taskPriorityMax then taskPriorityMax else priority
  let v := { k.task t with priority := priority, aiPriority := none }
  k.setTask t (if v.effectivePriority < priority then
      { v with effectivePriority := priority } else v)

def taskSetDeadline (k : Kernel) (t deadline : Nat) : Kernel :=
  k.setTask t { k.task t with deadlineNs := deadline }

def neighbours (t : Nat) : Option Nat → List Nat → Option (Option Nat × Option Nat)
  | _, [] => none
  | prev, u :: l =>
    if u = t then some (prev, l.head?) else neighbours t (some u) l

def repositionLocked (k : Kernel) (t c : Nat) : Kernel × Bool :=
  match neighbours t none (k.rq c).queue with
  | none => (k, false)
  | some (prev, next) =>
    let k := updateDeadlineBoost k t
    if (∀ p ∈ prev, k.eff p ≥ k.eff t) ∧ (∀ n ∈ next, k.eff n ≤ k.eff t) then
      (k, false)
    else (addToCpuQueueLocked (removeFromCpuQueueLocked k t c).1 t c, true)

/-- `sched_reposition_task` when nothing moves the task meanwhile. -/
def schedRepositionTask (k : Kernel) (t : Nat) : Kernel :=
  if (k.task t).assignedCpu ≥ k.cpuCount then k
  else (repositionLocked k t (k.task t).assignedCpu).1

/-- The floor and the effective priority of the owner, and whether one rose. -/
def tryBoostOwner (k : Kernel) (owner caller : Nat) : Kernel × Bool :=
  let p := k.eff caller
  let v := k.task owner
  let raised := p > v.piPriority
  let v := if raised then { v with piPriority := p } else v
  let boosted := p > v.effectivePriority
  let v := if boosted then { v with effectivePriority := p } else v
  (k.setTask owner v, raised || boosted)

def boostOwner (k : Kernel) (owner caller : Nat) : Kernel :=
  let r := tryBoostOwner k owner caller
  if r.2 then schedRepositionTask r.1 owner else r.1

def dropInherited (k : Kernel) (t : Nat) : Kernel :=
  if (k.task t).piPriority ≠ 0 then
    updateDeadlineBoost (k.setTask t { k.task t with piPriority := 0 }) t
  else k

def publishTask (k : Kernel) (t c : Nat) : Kernel :=
  if (k.task t).cpuAffinity = none ∧ t ≠ (k.rq c).idleTask then
    stealDequePush k c t
  else k

def schedulerAddTaskToCpu (k : Kernel) (t c : Nat) : Kernel :=
  if (k.task t).state ≠ .ready ∨ c ≥ k.cpuCount then k
  else publishTask (addToCpuQueueLocked k t c) t c

def schedulerRemoveTask (k : Kernel) (t : Nat) : Kernel :=
  if (k.task t).assignedCpu ≥ k.cpuCount then k
  else (removeFromCpuQueueLocked k t (k.task t).assignedCpu).1

inductive PrioAction where
  | enqueue (t c : Nat)
  | dequeue (t : Nat)
  | schedule (c : Nat)
  | setPriority (t priority : Nat)
  | setDeadline (t deadline : Nat)
  | refresh (t : Nat)
  | boost (owner caller : Nat)
  | dropInherited (t : Nat)
  /-- The level recorded by a decision of the AI policy. -/
  | setAiPriority (t : Nat) (level : Option Nat)
  | setState (t : Nat) (st : TaskState)
  | tick (ns : Nat)
  deriving DecidableEq, Repr

def prioStep (k : Kernel) : PrioAction → Option Kernel
  | .enqueue t c => some (schedulerAddTaskToCpu k t c)
  | .dequeue t => some (schedulerRemoveTask k t)
  | .schedule c => if c < k.cpuCount then scheduleLocked k c else none
  | .setPriority t priority => some (taskSetPriority k t priority)
  | .setDeadline t deadline => some (taskSetDeadline k t deadline)
  | .refresh t => some (updateDeadlineBoost k t)
  | .boost owner caller => some (boostOwner k owner caller)
  | .dropInherited t => some (Sched.dropInherited k t)
  | .setAiPriority t level =>
    some (k.setTask t { k.task t with aiPriority := level })
  | .setState t st => if st = .running then none else some (k.setState t st)
  | .tick ns => some { k with now := k.now + ns }

/-! ## Lists in the order of priority -/

def ByPriority (eff : Nat → Nat) (l : List Nat) : Prop :=
  l.Pairwise fun u v => eff v ≤ eff u

variable {eff : Nat → Nat} {l : List Nat}

theorem ByPriority.congr {eff' : Nat → Nat} (h : ByPriority eff l) (heq : ∀ u ∈ l, eff' u = eff u) :
    ByPriority eff' l := by
  refine imp_of_mem (fun {u v} hu hv hle => ?_) h
  rw [heq u hu, heq v hv]
  exact hle

theorem ByPriority.erase (h : ByPriority eff l) (t : Nat) : ByPriority eff (l.erase t) :=
  sublist erase_sublist h

theorem ByPriority.insert (h : ByPriority eff l) (t : Nat) :
    ByPriority eff (insertByPriority eff t l) := by
  induction l with
  | nil => exact pairwise_singleton _ _
  | cons u l ih =>
    obtain ⟨hu, hl⟩ := pairwise_cons.mp h
    rw [insertByPriority]
    split
    · rename_i hge
      refine pairwise_cons.mpr ⟨fun v hv => ?_, ih hl⟩
      have hv := (insertByPriority_perm eff t l).mem_iff.mp hv
      rcases mem_cons.mp hv with rfl | hv
      · exact hge
      · exact hu v hv
    refine pairwise_cons.mpr ⟨fun v hv => ?_, h⟩
    rcases mem_cons.mp hv with rfl | hv
    · omega
    have := hu v hv
    omega

variable {t : Nat}

theorem byPriority_split : ByPriority eff (l₁ ++ t :: l₂) ↔ ByPriority eff (l₁ ++ l₂) ∧
      (∀ u ∈ l₁, eff t ≤ eff u) ∧ ∀ u ∈ l₂, eff u ≤ eff t := by
  unfold ByPriority
  simp only [pairwise_append, pairwise_cons, mem_cons]
  constructor
  · rintro ⟨h₁, ⟨h₂, h₃⟩, h₄⟩
    exact ⟨⟨h₁, h₃, fun a ha b hb => h₄ a ha b (.inr hb)⟩, fun u hu => h₄ u hu t (.inl rfl), h₂⟩
  rintro ⟨⟨h₁, h₃, h₄⟩, h₅, h₂⟩
  refine ⟨h₁, ⟨h₂, h₃⟩, fun a ha b hb => ?_⟩
  rcases hb with rfl | hb
  · exact h₅ a ha
  · exact h₄ a ha b hb

theorem erase_split (h : (l₁ ++ t :: l₂).Nodup) : (l₁ ++ t :: l₂).erase t = l₁ ++ l₂ := by
  have hnot : t ∉ l₁ := fun hmem =>
    (nodup_append.mp h).2.2 t hmem t mem_cons_self rfl
  rw [erase_append_right _ hnot, erase_cons_head]

/-- A value that lets `t` stay where it is in the queues. -/
def InPlace (k : Kernel) (t e : Nat) : Prop :=
  ∀ c l₁ l₂, (k.rq c).queue = l₁ ++ t :: l₂ → (∀ u ∈ l₁, e ≤ k.eff u) ∧ ∀ u ∈ l₂, k.eff u ≤ e

/-! ## The invariant -/

def still (k : Kernel) : Sys where
  kernel := k
  op := fun _ => .done
  sched := fun _ => .out
  waiting := fun _ => false
  panicked := false

/-- The queues are consistent, and all but the place of `t` is in order. -/
structure OrderedBut (k : Kernel) (t : Nat) : Prop where
  consistent : Consistent (still k)
  assigned : Assigned k
  bound : ∀ c, k.cpuCount ≤ c → (k.rq c).queue = []
  sorted : ∀ c, ByPriority k.eff ((k.rq c).queue.erase t)

structure Ordered (k : Kernel) : Prop where
  consistent : Consistent (still k)
  assigned : Assigned k
  bound : ∀ c, k.cpuCount ≤ c → (k.rq c).queue = []
  sorted : ∀ c, ByPriority k.eff (k.rq c).queue

variable {k : Kernel}

theorem Ordered.inPlace (h : Ordered k) (t : Nat) : InPlace k t (k.eff t) := by
  intro c l₁ l₂ hq
  have hsorted := h.sorted c
  rw [hq] at hsorted
  exact (byPriority_split.mp hsorted).2

variable {u : Nat}

theorem eff_setTask_of_ne (k : Kernel) (v : Task) (h : u ≠ t) :
    (k.setTask t v).eff u = k.eff u := by
  unfold eff
  rw [setTask_of_ne _ _ h]

theorem eff_setTask_self (k : Kernel) (t : Nat) (v : Task) :
    (k.setTask t v).eff t = v.effectivePriority := by
  unfold eff
  rw [setTask_self]

theorem Ordered.writeBut (h : Ordered k) (hidle : v.isIdle = (k.task t).isIdle)
    (hassigned : v.assignedCpu = (k.task t).assignedCpu)
    (hstate : v.state = .running → (k.task t).state = .running) :
    OrderedBut (k.setTask t v) t where
  consistent := h.consistent.setTask hidle hstate
  assigned := h.assigned.mono (fun _ _ hu => hu) (setTask_field Task.assignedCpu k hassigned)
  bound := h.bound
  sorted := by
    intro c
    refine ((h.sorted c).erase t).congr fun u hu => ?_
    refine eff_setTask_of_ne k v ?_
    rintro rfl
    exact ((h.consistent.nodup c).mem_erase_iff.mp hu).1 rfl

theorem OrderedBut.ordered_of_split (h : OrderedBut k t)
    (hplace : ∀ c, t ∈ (k.rq c).queue → ∃ l₁ l₂,
      (k.rq c).queue = l₁ ++ t :: l₂ ∧ (∀ u ∈ l₁, k.eff t ≤ k.eff u) ∧
        ∀ u ∈ l₂, k.eff u ≤ k.eff t) : Ordered k where
  consistent := h.consistent
  assigned := h.assigned
  bound := h.bound
  sorted := by
    intro c
    have hsorted := h.sorted c
    by_cases ht : t ∈ (k.rq c).queue
    · obtain ⟨l₁, l₂, hq, hplace⟩ := hplace c ht
      have hnodup := h.consistent.nodup c
      change (k.rq c).queue.Nodup at hnodup
      rw [hq] at hnodup hsorted ⊢
      rw [erase_split hnodup] at hsorted
      exact byPriority_split.mpr ⟨hsorted, hplace⟩
    · rwa [erase_of_not_mem ht] at hsorted

theorem OrderedBut.ordered (h : OrderedBut k t) (hplace : InPlace k t (k.eff t)) : Ordered k := by
  refine h.ordered_of_split fun c ht => ?_
  obtain ⟨l₁, l₂, hq⟩ := append_of_mem ht
  exact ⟨l₁, l₂, hq, hplace c l₁ l₂ hq⟩

theorem InPlace.setTask (v : Task) (hnodup : ∀ c, (k.rq c).queue.Nodup) (h : InPlace k t e) :
    InPlace (k.setTask t v) t e := by
  intro c l₁ l₂ hq
  change (k.rq c).queue = l₁ ++ t :: l₂ at hq
  obtain ⟨h₁, h₂⟩ := h c l₁ l₂ hq
  have hne : ∀ u, u ∈ l₁ ∨ u ∈ l₂ → u ≠ t := by
    have hn := hnodup c
    rw [hq, nodup_append, nodup_cons] at hn
    rintro u (hu | hu) rfl
    · exact hn.2.2 u hu u mem_cons_self rfl
    · exact hn.2.1.1 hu
  refine ⟨fun u hu => ?_, fun u hu => ?_⟩
  · rw [eff_setTask_of_ne k v (hne u (.inl hu))]
    exact h₁ u hu
  rw [eff_setTask_of_ne k v (hne u (.inr hu))]
  exact h₂ u hu

theorem Ordered.write (h : Ordered k) (hidle : v.isIdle = (k.task t).isIdle)
    (hassigned : v.assignedCpu = (k.task t).assignedCpu)
    (hstate : v.state = .running → (k.task t).state = .running)
    (hplace : InPlace k t v.effectivePriority) : Ordered (k.setTask t v) := by
  refine (h.writeBut hidle hassigned hstate).ordered ?_
  rw [eff_setTask_self]
  exact hplace.setTask v h.consistent.nodup

/-! ## Linking and unlinking -/

theorem eff_add_of_ne (k : Kernel) (c : Nat) (h : u ≠ t) :
    (addToCpuQueueLocked k t c).eff u = k.eff u := by
  obtain ⟨e, l, -, heq⟩ := addToCpuQueueLocked_eq k t c
  rw [heq]
  exact eff_setTask_of_ne k _ h

theorem queue_add (k : Kernel) (t c : Nat) : ((addToCpuQueueLocked k t c).rq c).queue =
      insertByPriority (addToCpuQueueLocked k t c).eff t (k.rq c).queue :=
  setQueue_queue _ _ _

theorem sorted_add (c : Nat) (h : ∀ d, ByPriority k.eff (k.rq d).queue)
    (ht : ∀ d, t ∉ (k.rq d).queue) (d : Nat) :
    ByPriority (addToCpuQueueLocked k t c).eff ((addToCpuQueueLocked k t c).rq d).queue := by
  have hsame : ∀ e, ByPriority (addToCpuQueueLocked k t c).eff (k.rq e).queue := by
    intro e
    refine (h e).congr fun u hu => eff_add_of_ne k c ?_
    rintro rfl
    exact ht e hu
  by_cases hd : d = c
  · subst hd
    rw [queue_add]
    exact (hsame d).insert t
  rw [add_rq_of_ne k t hd]
  exact hsame d

variable {c : Nat}

theorem Ordered.link (h : Ordered k) (hc : c < k.cpuCount) (hidle : ∀ d, t ≠ (k.rq d).idleTask)
    (hnowhere : Nowhere (still k) t) :
    Ordered (addToCpuQueueLocked k t c) where
  consistent := h.consistent.link c hidle rfl hnowhere
  assigned := h.assigned.link c fun d => hnowhere (.queue d)
  bound := by
    intro d hd
    change k.cpuCount ≤ d at hd
    rw [add_rq_of_ne k t (by omega)]
    exact h.bound d hd
  sorted := sorted_add c h.sorted fun d => hnowhere (.queue d)

theorem mem_unlink_bound (h : ∀ c, k.cpuCount ≤ c → (k.rq c).queue = []) (t c : Nat) (d : Nat)
    (hd : k.cpuCount ≤ d) : ((removeFromCpuQueueLocked k t c).1.rq d).queue = [] := by
  unfold removeFromCpuQueueLocked
  split
  · by_cases hdc : d = c
    · subst hdc
      rw [setQueue_queue, h d hd]
      rfl
    · rw [setQueue_of_ne _ _ hdc]
      exact h d hd
  · exact h d hd

theorem publishTask_eq (k : Kernel) (t c : Nat) :
    Quiet k (publishTask k t c) ∧ (publishTask k t c).task = k.task ∧
      (publishTask k t c).cpuCount = k.cpuCount ∧
      (publishTask k t c).isolatedCores = k.isolatedCores := by
  unfold publishTask
  split
  · refine ⟨.stealDequePush k c t, ?_⟩
    unfold stealDequePush
    split <;> exact ⟨rfl, rfl, rfl⟩
  · exact ⟨.refl k, rfl, rfl, rfl⟩

theorem Ordered.publish (h : Ordered k) (t c : Nat) : Ordered (publishTask k t c) := by
  obtain ⟨hquiet, htask, hcount, -⟩ := publishTask_eq k t c
  refine ⟨h.consistent.quiet hquiet, h.assigned.quiet hquiet, fun d hd => ?_, fun d => ?_⟩
  · rw [hcount] at hd
    rw [hquiet.queue]
    exact h.bound d hd
  unfold eff
  rw [hquiet.queue, htask]
  exact h.sorted d

theorem OrderedBut.unlink (h : OrderedBut k t) (ht : ∀ d, t ∈ (k.rq d).queue → d = c) :
    Ordered (removeFromCpuQueueLocked k t c).1 where
  consistent := h.consistent.unlink t c
  assigned := h.assigned.unlink t c
  bound := by
    intro d hd
    refine mem_unlink_bound h.bound t c d ?_
    unfold removeFromCpuQueueLocked at hd
    split at hd <;> exact hd
  sorted := by
    intro d
    have hsorted := h.sorted d
    by_cases hd : d = c
    · subst hd
      by_cases hmem : t ∈ (k.rq d).queue
      · rw [removeFromCpuQueueLocked_of_mem hmem, setQueue_queue]
        exact hsorted
      rw [removeFromCpuQueueLocked_of_not_mem hmem]
      rwa [erase_of_not_mem hmem] at hsorted
    rw [erase_of_not_mem fun hmem => hd (ht d hmem)] at hsorted
    unfold removeFromCpuQueueLocked
    split
    · rw [setQueue_of_ne _ _ hd]
      exact hsorted
    · exact hsorted

theorem Ordered.but (h : Ordered k) (t : Nat) : OrderedBut k t :=
  ⟨h.consistent, h.assigned, h.bound, fun c => (h.sorted c).erase t⟩

theorem Ordered.remove (h : Ordered k) (t : Nat) : Ordered (schedulerRemoveTask k t) := by
  unfold schedulerRemoveTask
  split
  · exact h
  · exact (h.but t).unlink fun d hd => (h.assigned d t hd).symm

/-! ## `sched_reposition_task` -/

theorem neighbours_eq_none : ∀ {prev : Option Nat}, neighbours t prev l = none → t ∉ l := by
  induction l with
  | nil => exact fun _ => not_mem_nil
  | cons u l ih =>
    intro prev h
    rw [neighbours] at h
    split at h
    · cases h
    rename_i hut
    rw [mem_cons, not_or]
    exact ⟨fun htu => hut htu.symm, ih h⟩

theorem neighbours_eq_some : ∀ {prev p n : Option Nat}, neighbours t prev l = some (p, n) →
      ∃ l₁ l₂, l = l₁ ++ t :: l₂ ∧ p = (l₁.getLast?).or prev ∧ n = l₂.head? := by
  induction l with
  | nil => exact fun h => nomatch h
  | cons u l ih =>
    intro prev p n h
    rw [neighbours] at h
    split at h
    · rename_i hut
      cases h
      exact ⟨[], l, by rw [hut]; rfl, rfl, rfl⟩
    obtain ⟨l₁, l₂, rfl, rfl, rfl⟩ := ih h
    refine ⟨u :: l₁, l₂, rfl, ?_, rfl⟩
    cases l₁ with
    | nil => rfl
    | cons w l₁ => simp [getLast?_cons]

theorem ByPriority.le_head (h : ByPriority eff l) (hn : l.head? = some n) :
    ∀ u ∈ l, eff u ≤ eff n := by
  obtain ⟨l', rfl⟩ := head?_eq_some_iff.mp hn
  intro u hu
  rcases mem_cons.mp hu with rfl | hu
  · exact le_refl _
  · exact (pairwise_cons.mp h).1 u hu

theorem ByPriority.getLast_le (h : ByPriority eff l) (hp : l.getLast? = some p) :
    ∀ u ∈ l, eff p ≤ eff u := by
  obtain ⟨l', rfl⟩ := getLast?_eq_some_iff.mp hp
  intro u hu
  rcases mem_append.mp hu with hu | hu
  · exact (pairwise_append.mp h).2.2 u hu p (mem_singleton_self p)
  · exact le_of_eq (congrArg eff (mem_singleton.mp hu).symm)

theorem OrderedBut.refresh (h : OrderedBut k t) : OrderedBut (updateDeadlineBoost k t) t := by
  have hfield := deadlineBoosted_eq k (k.task t)
  refine ⟨h.consistent.setTask ?_ ?_, h.assigned.mono (fun _ _ hu => hu)
    fun u => updateDeadlineBoost_assignedCpu k t u, h.bound, fun c => ?_⟩
  · rw [hfield]
    rfl
  · intro hr
    rw [hfield] at hr
    exact hr
  refine (h.sorted c).congr fun u hu => ?_
  refine eff_setTask_of_ne k _ ?_
  rintro rfl
  exact ((h.consistent.nodup c).mem_erase_iff.mp hu).1 rfl

theorem OrderedBut.reposition (h : OrderedBut k t) : Ordered (schedRepositionTask k t) := by
  have honly : ∀ d, t ∈ (k.rq d).queue → d = (k.task t).assignedCpu :=
    fun d hd => (h.assigned d t hd).symm
  unfold schedRepositionTask
  split
  · rename_i hbound
    refine h.ordered_of_split fun d hd => ?_
    rw [h.bound d (by rw [honly d hd]; exact hbound)] at hd
    exact absurd hd not_mem_nil
  rename_i hlt
  generalize hc : (k.task t).assignedCpu = c at honly hlt
  unfold repositionLocked
  cases hn : neighbours t none (k.rq c).queue with
  | none =>
    refine h.ordered_of_split fun d hd => ?_
    rw [honly d hd] at hd
    exact absurd hd (neighbours_eq_none hn)
  | some pn =>
    obtain ⟨p, n⟩ := pn
    obtain ⟨l₁, l₂, hq, rfl, rfl⟩ := neighbours_eq_some hn
    rw [Option.or_none]
    have h₁ := h.refresh
    dsimp only
    split
    · -- the neighbours are in order, and so is everything beyond them
      rename_i hplace
      refine h₁.ordered_of_split fun d hd => ?_
      obtain rfl : d = c := honly d hd
      have hrest : ByPriority (updateDeadlineBoost k t).eff (l₁ ++ l₂) := by
        have hsorted := h₁.sorted d
        have hnodup := h.consistent.nodup d
        change (k.rq d).queue.Nodup at hnodup
        rw [hq] at hnodup
        rwa [updateDeadlineBoost_rq, hq, erase_split hnodup] at hsorted
      obtain ⟨hl₁, hl₂, -⟩ := pairwise_append.mp hrest
      refine ⟨l₁, l₂, hq, fun u hu => ?_, fun u hu => ?_⟩
      · cases hlast : l₁.getLast? with
        | none =>
          rw [getLast?_eq_none_iff.mp hlast] at hu
          exact absurd hu not_mem_nil
        | some p =>
          exact le_trans (hplace.1 p (hlast ▸ rfl)) (ByPriority.getLast_le hl₁ hlast u hu)
      cases hhead : l₂.head? with
      | none =>
        rw [head?_eq_none_iff.mp hhead] at hu
        exact absurd hu not_mem_nil
      | some n =>
        exact le_trans (ByPriority.le_head hl₂ hhead u hu) (hplace.2 n (hhead ▸ rfl))
    have hmem : t ∈ ((updateDeadlineBoost k t).rq c).queue := by
      rw [updateDeadlineBoost_rq, hq]
      exact mem_append_right _ mem_cons_self
    refine (h₁.unlink honly).link ?_ ?_ ?_
    · rw [removeFromCpuQueueLocked_of_mem hmem]
      exact Nat.lt_of_not_le hlt
    · exact (h₁.consistent.take hmem).2.2.2
    · exact h₁.consistent.nowhere_unlink hmem

/-! ## `schedule` -/

variable {k' : Kernel}

theorem deadlineBoosted_congr (hnow : k'.now = k.now) (hthresholds : k'.thresholds = k.thresholds)
    (hactions : k'.aiPriorityActions = k.aiPriorityActions) (hpriority : v'.priority = v.priority)
    (hai : v'.aiPriority = v.aiPriority) (hpi : v'.piPriority = v.piPriority)
    (hdeadline : v'.deadlineNs = v.deadlineNs) :
    (deadlineBoosted k' v').effectivePriority = (deadlineBoosted k v).effectivePriority := by
  simp only [deadlineBoosted, setEffectivePriority, effectiveBasePriority,
    boostedPriority, hnow, hthresholds, hactions, hpriority, hai, hpi,
    hdeadline]
  split <;> rfl

def putBack (k : Kernel) (c cur : Nat) : Kernel :=
  if cur ≠ (k.rq c).idleTask then
    addToCpuQueueLocked (k.setState cur .ready) cur c
  else k.setState cur .ready

theorem requeueCurrent_eq (k : Kernel) (c cur : Nat) : requeueCurrent k c cur =
      match ((putBack k c cur).rq c).queue with
      | [] => putBack k c cur
      | h :: _ => updateDeadlineBoost (putBack k c cur) h := rfl

variable {cur : Nat}

theorem eff_putBack_of_ne (k : Kernel) (c : Nat) (h : u ≠ cur) :
    (putBack k c cur).eff u = k.eff u := by
  unfold putBack
  split
  · rw [eff_add_of_ne _ c h]
    exact eff_setTask_of_ne k _ h
  · exact eff_setTask_of_ne k _ h

theorem eff_putBack_self (k : Kernel) (h : cur ≠ (k.rq c).idleTask) :
    (putBack k c cur).eff cur = refreshed k cur := by
  unfold putBack
  rw [if_pos h]
  change (setQueue _ c _).eff cur = _
  unfold eff
  rw [setQueue_task, updateDeadlineBoost, setTask_self, setTask_self]
  unfold setState
  apply deadlineBoosted_congr <;> first | rfl | rw [setTask_self]

theorem refreshed_putBack (k : Kernel) (c cur u : Nat) :
    refreshed (putBack k c cur) u = refreshed k u := by
  have hstate : refreshed (k.setState cur .ready) u = refreshed k u := by
    apply deadlineBoosted_congr <;> try rfl
    all_goals
      apply setTask_field
      rfl
  unfold putBack
  split
  · rw [← hstate]
    apply deadlineBoosted_congr <;> try rfl
    all_goals
      apply add_field
      exact fun _ _ _ => rfl
  · exact hstate

def HeadKept (k : Kernel) (c : Nat) : Prop :=
  ∀ cur h l, (k.rq c).current = some cur → (k.task cur).state = .running → (k.rq c).queue = h :: l →
    (cur = (k.rq c).idleTask ∨ refreshed k cur ≤ k.eff h) →
    (∀ u ∈ l, k.eff u ≤ refreshed k h) ∧ (cur ≠ (k.rq c).idleTask → refreshed k cur ≤ refreshed k h)

theorem sorted_putBack (h : Ordered k) (hcur : (k.rq c).current = some cur) (d : Nat) :
    ByPriority (putBack k c cur).eff ((putBack k c cur).rq d).queue := by
  have hstate : ∀ e, ByPriority (k.setState cur .ready).eff
      ((k.setState cur .ready).rq e).queue := fun e =>
    (h.sorted e).congr fun u _ => setState_effectivePriority k cur u .ready
  unfold putBack
  split
  · refine sorted_add c hstate (fun e he => ?_) d
    cases h.consistent.exclusive (.queue e) (.running c) cur he hcur
  · exact hstate d

theorem queue_putBack_of_ne (k : Kernel) (cur : Nat)
    (h : d ≠ c) : ((putBack k c cur).rq d).queue = (k.rq d).queue := by
  unfold putBack
  split
  · rw [add_rq_of_ne _ _ h]
    rfl
  · rfl

theorem head_putBack (hq : ((putBack k c cur).rq c).queue = h :: l) :
    (h = cur ∧ cur ≠ (k.rq c).idleTask) ∨ ∃ l₀, (k.rq c).queue = h :: l₀ ∧
        (cur = (k.rq c).idleTask ∨ (putBack k c cur).eff cur ≤ (putBack k c cur).eff h) ∧
        ∀ u ∈ l, u ∈ l₀ ∨ (u = cur ∧ cur ≠ (k.rq c).idleTask) := by
  by_cases hidle : cur = (k.rq c).idleTask
  · refine .inr ⟨l, ?_, .inl hidle, fun u hu => .inl hu⟩
    unfold putBack at hq
    rw [if_neg (not_not.mpr hidle)] at hq
    exact hq
  have hback : putBack k c cur = addToCpuQueueLocked (k.setState cur .ready) cur c := if_pos hidle
  rw [hback] at hq ⊢
  rw [queue_add] at hq
  change insertByPriority _ cur (k.rq c).queue = h :: l at hq
  cases hold : (k.rq c).queue with
  | nil =>
    rw [hold] at hq
    cases hq
    exact .inl ⟨rfl, hidle⟩
  | cons h₀ l₀ =>
    rw [hold, insertByPriority] at hq
    split at hq
    · rename_i hge
      obtain ⟨rfl, rfl⟩ := cons.inj hq
      refine .inr ⟨l₀, rfl, .inr hge, fun u hu => ?_⟩
      have hu := (insertByPriority_perm _ cur l₀).mem_iff.mp hu
      rcases mem_cons.mp hu with hu | hu
      · exact .inr ⟨hu, hidle⟩
      · exact .inl hu
    cases hq
    exact .inl ⟨rfl, hidle⟩

theorem nodup_putBack (h : Ordered k) (hcur : (k.rq c).current = some cur) :
    ((putBack k c cur).rq c).queue.Nodup := by
  have hnodup : (k.rq c).queue.Nodup := h.consistent.nodup c
  unfold putBack
  split
  · obtain ⟨l, hperm, hrq⟩ := add_rq_self (k.setState cur .ready) cur c
    rw [hrq]
    refine hperm.nodup_iff.mpr (nodup_cons.mpr ⟨fun hmem => ?_, hnodup⟩)
    cases h.consistent.exclusive (.queue c) (.running c) cur hmem hcur
  · exact hnodup

variable {next : Nat}

theorem Dispatched.sorted (hd : Dispatched k k' c next)
    (hothers : ∀ d, d ≠ c → ByPriority k.eff (k.rq d).queue)
    (htail : ByPriority k.eff (k.rq c).queue.tail) (d : Nat) :
    ByPriority k'.eff (k'.rq d).queue := by
  have heff : ∀ u, k'.eff u = k.eff u := hd.effectivePriority
  by_cases hdc : d = c
  · subst hdc
    rw [hd.queue]
    exact htail.congr fun u _ => heff u
  rw [hd.others d hdc]
  exact (hothers d hdc).congr fun u _ => heff u

structure Switched (k k' : Kernel) (c : Nat) : Prop where
  sorted : ∀ d, ByPriority k'.eff (k'.rq d).queue
  highest : HeadKept k c → ∃ next, (k'.rq c).current = some next ∧
    ∀ u ∈ (k'.rq c).queue, k'.eff u ≤ k'.eff next

section

variable (h : Ordered k)
include h

theorem Dispatched.switched (hpick : pickNextTask k c = some next) (hd : Dispatched k k' c next) :
    Switched k k' c := by
  have heff : ∀ u, k'.eff u = k.eff u := hd.effectivePriority
  refine ⟨hd.sorted (fun d _ => h.sorted d) (h.sorted c).tail, fun _ =>
    ⟨next, hd.current, fun u hu => ?_⟩⟩
  have hsorted := h.sorted c
  rw [hd.queue] at hu
  rw [heff, heff]
  rcases pickNextTask_cases hpick with ⟨hq, -⟩ | ⟨l, hq, -⟩
  · rw [hq] at hu
    exact absurd hu not_mem_nil
  rw [hq] at hu hsorted
  exact (pairwise_cons.mp hsorted).1 u hu

theorem Dispatched.switched_requeue (hcur : (k.rq c).current = some cur)
    (hrun : (k.task cur).state = .running)
    (hpick : pickNextTask (requeueCurrent k c cur) c = some next)
    (hd : Dispatched (requeueCurrent k c cur) k' c next) : Switched k k' c := by
  have hsorted := sorted_putBack h hcur
  have heff : ∀ u, k'.eff u = (requeueCurrent k c cur).eff u := hd.effectivePriority
  rw [requeueCurrent_eq] at hpick hd heff
  cases hq : ((putBack k c cur).rq c).queue with
  | nil =>
    rw [hq] at hpick hd heff
    refine ⟨hd.sorted (fun d _ => hsorted d) (hsorted c).tail, fun _ =>
      ⟨next, hd.current, fun u hu => ?_⟩⟩
    rw [hd.queue, hq] at hu
    exact absurd hu not_mem_nil
  | cons hh l =>
    rw [hq] at hpick hd heff
    have hnodup := nodup_putBack h hcur
    rw [hq, nodup_cons] at hnodup
    have htail : ((updateDeadlineBoost (putBack k c cur) hh).rq c).queue = hh :: l := hq
    have hsame : ∀ u, u ≠ hh → (updateDeadlineBoost (putBack k c cur) hh).eff u =
          (putBack k c cur).eff u := fun u hu =>
      eff_setTask_of_ne _ _ hu
    have hl := hsorted c
    rw [hq] at hl
    obtain ⟨hle, hl⟩ := pairwise_cons.mp hl
    -- the head has left the queue, so what is left was not refreshed
    refine ⟨hd.sorted (fun d hdc => ?_) ?_, fun hkept =>
      ⟨next, hd.current, fun u hu => ?_⟩⟩
    · refine (hsorted d).congr fun u hu => hsame u ?_
      rintro rfl
      change u ∈ ((putBack k c cur).rq d).queue at hu
      rw [queue_putBack_of_ne k cur hdc] at hu
      rcases head_putBack hq with ⟨rfl, -⟩ | ⟨l₀, hold, -⟩
      · cases h.consistent.exclusive (.queue d) (.running c) u hu hcur
      have hmem : u ∈ (k.rq c).queue := hold ▸ mem_cons_self
      exact hdc (Place.queue.inj (h.consistent.exclusive (.queue d) (.queue c) u hu hmem))
    · rw [htail]
      refine ByPriority.congr hl fun u hu => hsame u ?_
      rintro rfl
      exact hnodup.1 hu
    rw [hd.queue, htail] at hu
    have hne : u ≠ hh := by
      rintro rfl
      exact hnodup.1 hu
    obtain rfl : next = hh := by
      rcases pickNextTask_cases hpick with ⟨hnil, -⟩ | ⟨l', hcons, -⟩
      · rw [htail] at hnil
        cases hnil
      rw [htail] at hcons
      exact (cons.inj hcons).1.symm
    rw [heff, heff, hsame u hne]
    change _ ≤ (setTask _ next _).eff next
    rw [eff_setTask_self]
    change _ ≤ refreshed (putBack k c cur) next
    rw [refreshed_putBack]
    rcases head_putBack hq with ⟨rfl, hidle⟩ | ⟨l₀, hold, hbehind, hmem⟩
    · rw [← eff_putBack_self k hidle]
      exact hle u hu
    -- the old head: this is where the order may break
    have hcurHead : next ≠ cur := by
      rintro rfl
      have hmem : next ∈ (k.rq c).queue := hold ▸ mem_cons_self
      cases h.consistent.exclusive (.queue c) (.running c) next hmem hcur
    have hcond : cur = (k.rq c).idleTask ∨ refreshed k cur ≤ k.eff next := by
      by_cases hidle : cur = (k.rq c).idleTask
      · exact .inl hidle
      have hge := hbehind.resolve_left hidle
      rw [eff_putBack_self k hidle, eff_putBack_of_ne k c hcurHead] at hge
      exact .inr hge
    obtain ⟨hrest, hself⟩ := hkept cur next l₀ hcur hrun hold hcond
    rcases hmem u hu with hu₀ | ⟨rfl, hidle⟩
    · rw [eff_putBack_of_ne]
      · exact hrest u hu₀
      · rintro rfl
        have hmem : u ∈ (k.rq c).queue := hold ▸ mem_cons_of_mem _ hu₀
        cases h.consistent.exclusive (.queue c) (.running c) u hmem hcur
    rw [eff_putBack_self k hidle]
    exact hself hidle

theorem Ordered.switched (hs : scheduleLocked k c = some k') : Switched k k' c := by
  rcases scheduleLocked_cases (h.consistent.idleTask_not_mem c) hs with
    ⟨-, next, hpick, hd⟩ | ⟨cur, next, hcur, hrun, hpick, hd⟩
  · exact hd.switched h hpick
  · exact hd.switched_requeue h hcur hrun hpick

theorem scheduleLocked_cpuCount (hs : scheduleLocked k c = some k') : k'.cpuCount = k.cpuCount := by
  rcases scheduleLocked_cases (h.consistent.idleTask_not_mem c) hs with
    ⟨-, next, -, hd⟩ | ⟨cur, next, -, -, -, hd⟩
  · exact hd.cpuCount
  rw [hd.cpuCount, requeueCurrent_eq]
  unfold putBack
  split <;> split <;> rfl

theorem Ordered.schedule (hc : c < k.cpuCount) (hs : scheduleLocked k c = some k') :
    Ordered k' := by
  obtain ⟨next, hsched⟩ := scheduleLocked_spec (h.consistent.idleTask_not_mem c) hs
  refine ⟨h.consistent.scheduled hsched,
    Assigned.scheduled h.consistent h.assigned hsched, fun d hd => ?_,
    (h.switched hs).sorted⟩
  rw [scheduleLocked_cpuCount h hs] at hd
  rw [hsched.others d (by omega)]
  exact h.bound d hd

end

/-! ## Runs -/

/--
What the writers of effective priorities rely on.  Writes in place keep the
order, and a task is handed over only if it is nowhere.
-/
def KeepsOrder (k : Kernel) : PrioAction → Prop
  | .enqueue t _ => (∀ d, t ≠ (k.rq d).idleTask) ∧ Nowhere (still k) t
  | .schedule c => HeadKept k c
  | .setPriority t priority =>
    InPlace k t (max (k.eff t) (min priority taskPriorityMax))
  | .refresh t => InPlace k t (refreshed k t)
  | .dropInherited t => InPlace k t
      (refreshed (k.setTask t { k.task t with piPriority := 0 }) t)
  | _ => True

section

variable (h : Ordered k)
include h

theorem Ordered.setPriority (hplace : InPlace k t (max (k.eff t) (min priority taskPriorityMax))) :
    Ordered (taskSetPriority k t priority) := by
  have hclamp : (if priority > taskPriorityMax then taskPriorityMax
      else priority) = min priority taskPriorityMax := by
    split <;> omega
  unfold taskSetPriority
  rw [hclamp]
  dsimp only
  split
  · rename_i hlt
    refine h.write rfl rfl (fun hr => hr) ?_
    change InPlace k t (min priority taskPriorityMax)
    have hlt : k.eff t < min priority taskPriorityMax := hlt
    rwa [max_eq_right (le_of_lt hlt)] at hplace
  refine h.write rfl rfl (fun hr => hr) ?_
  exact h.inPlace t

theorem Ordered.refresh (hplace : InPlace k t (refreshed k t)) :
    Ordered (updateDeadlineBoost k t) := by
  have hfield := deadlineBoosted_eq k (k.task t)
  refine h.write ?_ ?_ ?_ hplace
  · rw [hfield]
  · rw [hfield]
  intro hr
  rw [hfield] at hr
  exact hr

theorem Ordered.dropInherited
    (hplace : InPlace k t (refreshed (k.setTask t { k.task t with piPriority := 0 }) t)) :
    Ordered (dropInherited k t) := by
  unfold Sched.dropInherited
  split
  · have hclear : Ordered (k.setTask t { k.task t with piPriority := 0 }) :=
      h.write rfl rfl (fun hr => hr) (h.inPlace t)
    exact hclear.refresh (hplace.setTask _ h.consistent.nodup)
  · exact h

theorem Ordered.boost (owner caller : Nat) : Ordered (boostOwner k owner caller) := by
  unfold boostOwner
  dsimp only
  split
  · refine OrderedBut.reposition ?_
    unfold tryBoostOwner
    refine h.writeBut ?_ ?_ ?_
    · split_ifs <;> rfl
    · split_ifs <;> rfl
    · split_ifs <;> exact fun hr => hr
  rename_i hsame
  unfold tryBoostOwner at hsame ⊢
  simp only [Bool.or_eq_true, decide_eq_true_eq, not_or] at hsame
  dsimp only
  rw [if_neg hsame.1] at hsame ⊢
  rw [if_neg hsame.2]
  exact h.write rfl rfl (fun hr => hr) (h.inPlace owner)

theorem Ordered.step {a : PrioAction} (hok : KeepsOrder k a) (hstep : prioStep k a = some k') :
    Ordered k' := by
  cases a with
  | enqueue t c =>
    cases hstep
    unfold schedulerAddTaskToCpu
    split
    · exact h
    rename_i hcond
    exact (h.link (Nat.lt_of_not_le (not_or.mp hcond).2) hok.1 hok.2).publish t c
  | dequeue t =>
    cases hstep
    exact h.remove t
  | schedule c =>
    rw [prioStep] at hstep
    split at hstep
    · rename_i hc
      exact h.schedule hc hstep
    · cases hstep
  | setPriority t priority =>
    cases hstep
    exact h.setPriority hok
  | setDeadline t deadline | setAiPriority t level =>
    cases hstep
    exact h.write rfl rfl (fun hr => hr) (h.inPlace t)
  | refresh t =>
    cases hstep
    exact h.refresh hok
  | boost owner caller =>
    cases hstep
    exact h.boost owner caller
  | dropInherited t =>
    cases hstep
    exact h.dropInherited hok
  | setState t st =>
    rw [prioStep] at hstep
    split at hstep
    · cases hstep
    rename_i hst
    cases hstep
    exact h.write rfl rfl (fun hr => absurd hr hst) (h.inPlace t)
  | tick ns =>
    cases hstep
    exact ⟨h.consistent.unmoved (fun _ => rfl) (fun _ => rfl) (fun _ => rfl)
      (fun _ => rfl) (fun _ hr => hr), h.assigned, h.bound, h.sorted⟩

end

theorem dispatches_highest {k₀ k k' : Kernel} {c : Nat} (h₀ : Ordered k₀)
    (hrun : Run prioStep KeepsOrder k₀ k) (hok : KeepsOrder k (.schedule c))
    (hstep : prioStep k (.schedule c) = some k') :
    ∃ next, (k'.rq c).current = some next ∧ ∀ t ∈ (k'.rq c).queue,
        (k'.task t).effectivePriority ≤ (k'.task next).effectivePriority := by
  have h : Ordered k := Run.invariant (fun _ _ _ hk hok hstep => hk.step hok hstep) h₀ hrun
  rw [prioStep] at hstep
  split at hstep
  · exact (h.switched hstep).highest hok
  · cases hstep

theorem machine_ordered (n : Nat) : Ordered (machine n).kernel where
  consistent := machine_consistent n
  assigned := machine_assigned n
  bound := fun _ _ => rfl
  sorted := fun _ => nil

theorem nowhere_enqueue (c : Nat) (hne : u ≠ t) (h : Nowhere (still k) u) :
    Nowhere (still (schedulerAddTaskToCpu k t c)) u := by
  unfold schedulerAddTaskToCpu
  split
  · exact h
  intro p hp
  have hquiet := (publishTask_eq (addToCpuQueueLocked k t c) t c).1
  have hp : At (still (addToCpuQueueLocked k t c)) p u :=
    Consistent.at_unmoved hquiet.queue hquiet.current p u hp
  obtain ⟨e, l, hperm, heq⟩ := addToCpuQueueLocked_eq k t c
  rw [heq] at hp
  rcases Consistent.at_setQueue (s := still _) hp with ⟨-, hmem⟩ | ⟨-, hold⟩
  · rcases mem_cons.mp (hperm.mem_iff.mp hmem) with rfl | hmem
    · exact hne rfl
    · exact h (.queue c) hmem
  refine h p ?_
  cases p <;> exact hold

theorem idleTask_enqueue (k : Kernel) (t c d : Nat) :
    ((schedulerAddTaskToCpu k t c).rq d).idleTask = (k.rq d).idleTask := by
  unfold schedulerAddTaskToCpu
  split
  · rfl
  rw [(publishTask_eq _ t c).1.idleTask]
  obtain ⟨e, l, -, heq⟩ := addToCpuQueueLocked_eq k t c
  rw [heq, Consistent.setQueue_idleTask]
  rfl

theorem dispatches_highest_two : ∃ k k', exec prioStep (machine 2).kernel
      [.setPriority 3 6, .enqueue 1 0, .enqueue 3 0] = some k ∧
    prioStep k (.schedule 0) = some k' ∧ (k'.rq 0).queue = [1] ∧
    ∃ next, (k'.rq 0).current = some next ∧
      (k'.task 1).effectivePriority ≤ (k'.task next).effectivePriority := by
  refine ⟨_, _, rfl, rfl, rfl, ?_⟩
  have hraise : InPlace (machine 2).kernel 3
      (max ((machine 2).kernel.eff 3) (min 6 taskPriorityMax)) := by
    intro c l₁ l₂ hq
    cases l₁ <;> cases hq
  have hraised : ∀ t, t % 2 = 1 → Nowhere (still (taskSetPriority (machine 2).kernel 3 6)) t := by
    intro t ht p hp
    refine nowhere_machine (n := 2) ht p ?_
    cases p <;> exact hp
  have hrun := run_of_exec prioStep KeepsOrder
    [.setPriority 3 6, .enqueue 1 0, .enqueue 3 0] (machine 2).kernel _
    ⟨hraise, ⟨not_idle_machine (n := 2) rfl, hraised 1 rfl⟩, ⟨fun d => by
      rw [idleTask_enqueue]
      exact not_idle_machine (n := 2) rfl d,
      nowhere_enqueue 0 (by decide) (hraised 3 rfl)⟩, trivial⟩ rfl
  refine (dispatches_highest (machine_ordered 2) hrun (c := 0) ?_ rfl).imp
    fun next hnext => ⟨hnext.1, hnext.2 1 mem_cons_self⟩
  intro cur h l hcur _ hq _
  cases hcur
  cases hq
  refine ⟨fun u hu => ?_, fun hne => absurd rfl hne⟩
  obtain rfl := mem_singleton.mp hu
  decide

/--
`task_set_priority` raises a task that waits behind another one: the one in
front is dispatched first.
-/
theorem raised_task_left_behind : ∃ k k', Run prioStep (fun _ _ => True) (machine 2).kernel k ∧
    prioStep k (.schedule 0) = some k' ∧
    (k'.rq 0).current = some 1 ∧ 3 ∈ (k'.rq 0).queue ∧
    (k'.task 1).effectivePriority < (k'.task 3).effectivePriority := by
  refine ⟨_, _, run_exec [.enqueue 1 0, .enqueue 3 0, .setPriority 3 7] rfl, rfl, rfl, ?_, ?_⟩
  · exact mem_cons_self
  · decide

end SlmOs.Sched
