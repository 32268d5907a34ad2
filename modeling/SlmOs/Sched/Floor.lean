import SlmOs.Sched.Dispatch

/-!
# Inherited floors in the scheduler

The scheduler recomputes effective priorities on its own: when it inserts a task
into a queue, when it refreshes the head of a queue and when it moves a task that
has been boosted.  Two things about it matter to a mutex with priority
inheritance.  No recomputation goes below the floor of a task, and a task that is
blocked and in no queue is left alone.
-/

namespace SlmOs.Sched

open Kernel Nat

def Kernel.pi (k : Kernel) (t : Nat) : Nat := (k.task t).piPriority

theorem pi_setState (k : Kernel) (t : Nat) (st : TaskState) : (k.setState t st).pi = k.pi := by
  funext u
  apply setTask_field Task.piPriority
  rfl

def Off (k : Kernel) (w : Nat) : Prop :=
  ∀ c, c < k.cpuCount → w ∉ (k.rq c).queue ∧ w ≠ (k.rq c).idleTask

instance (k : Kernel) (w : Nat) : Decidable (Off k w) :=
  inferInstanceAs (Decidable (∀ c, c < k.cpuCount → _))

def Parked (k : Kernel) (w : Nat) : Prop :=
  (k.task w).state = .blocked ∧ Off k w

/--
No floor changes, no effective priority drops below the floor of its task, and
the task `w`, if it is parked, stays so and does not lose priority.
-/
structure Benign (w : Nat) (k k' : Kernel) : Prop where
  pi : ∀ t, k'.pi t = k.pi t
  floor : ∀ t, k.pi t ≤ k.eff t → k.pi t ≤ k'.eff t
  parked : Parked k w → Parked k' w
  rests : Parked k w → k.eff w ≤ k'.eff w
  cpuCount : k'.cpuCount = k.cpuCount

namespace Benign

theorem refl (w : Nat) (k : Kernel) : Benign w k k := by
  constructor <;> simp

theorem trans (h : Benign w k k') (h' : Benign w k' k'') : Benign w k k'' where
  pi := by
    intro t
    rw [h'.pi, h.pi]
  floor := by
    intro t ht
    have := h'.floor t
    rw [h.pi] at this
    exact this (h.floor t ht)
  parked := fun hw => h'.parked (h.parked hw)
  rests := fun hw => le_trans (h.rests hw) (h'.rests (h.parked hw))
  cpuCount := h'.cpuCount.trans h.cpuCount

theorem setTask (hpi : v.piPriority = k.pi t)
    (hfloor : k.pi t ≤ k.eff t → k.pi t ≤ v.effectivePriority)
    (hw : Parked k w → t = w → v.state = .blocked ∧ k.eff w ≤ v.effectivePriority) :
    Benign w k (k.setTask t v) where
  pi := by
    intro u
    by_cases hu : u = t
    · subst hu
      simpa [Kernel.pi] using hpi
    · simp [Kernel.pi, setTask_of_ne _ _ hu]
  floor := by
    intro u hle
    by_cases hu : u = t
    · subst hu
      simpa [eff_setTask_self] using hfloor hle
    · simpa [eff_setTask_of_ne _ _ hu] using hle
  parked := by
    intro hpark
    refine ⟨?_, hpark.2⟩
    by_cases ht : t = w
    · subst ht
      simpa using (hw hpark rfl).1
    · simpa [setTask_of_ne _ _ (Ne.symm ht)] using hpark.1
  rests := by
    intro hpark
    by_cases ht : t = w
    · subst ht
      simpa [eff_setTask_self] using (hw hpark rfl).2
    · simp [eff_setTask_of_ne _ _ (Ne.symm ht)]
  cpuCount := rfl

theorem setRq (hidle : q.idleTask = (k.rq c).idleTask)
    (hqueue : Parked k w → c < k.cpuCount → w ∉ q.queue) :
    Benign w k (k.setRq c q) where
  pi := fun _ => rfl
  floor := fun _ h => h
  parked := by
    intro hpark
    refine ⟨hpark.1, fun d hd => ?_⟩
    by_cases hdc : d = c
    · subst hdc
      simpa [hidle] using ⟨hqueue hpark hd, (hpark.2 d hd).2⟩
    · simpa [setRq_of_ne _ _ hdc] using hpark.2 d hd
  rests := fun _ => le_refl _
  cpuCount := rfl

theorem setState (hne : t ≠ w) : Benign w k (k.setState t st) :=
  setTask rfl id fun _ ht => absurd ht hne

theorem setDeque (c : Nat) (l : List (Option (Nat × Nat))) : Benign w k (k.setDeque c l) :=
  setRq rfl fun hpark hc => (hpark.2 c hc).1

/-- An operation on a task is benign to the others, and to itself if it cannot
be called on a parked task. -/
theorem of_ne (h : ∀ u, t ≠ u → Benign u k k') (hw : Parked k w → t ≠ w) : Benign w k k' := by
  by_cases hpark : Parked k w
  · exact h w (hw hpark)
  have hother := h (t + 1) (by omega)
  exact ⟨hother.pi, hother.floor, fun hp => absurd hp hpark,
    fun hp => absurd hp hpark, hother.cpuCount⟩

end Benign

/-! ## What the scheduler does -/

section

variable {t c : Nat}

theorem pi_le_deadlineBoosted (k : Kernel) (v : Task) :
    v.piPriority ≤ (deadlineBoosted k v).effectivePriority := by
  unfold deadlineBoosted setEffectivePriority
  split <;> dsimp only <;> split <;> omega

theorem deadlineBoosted_piPriority (k : Kernel) (v : Task) :
    (deadlineBoosted k v).piPriority = v.piPriority := by
  rw [deadlineBoosted_eq]

theorem updateDeadlineBoost_benign (hne : t ≠ w) : Benign w k (updateDeadlineBoost k t) := by
  apply Benign.setTask
  · exact deadlineBoosted_piPriority k _
  · intro _
    exact pi_le_deadlineBoosted k (k.task t)
  intro _ ht
  exact absurd ht hne

theorem add_benign (hne : t ≠ w) : Benign w k (addToCpuQueueLocked k t c) := by
  have hassign : Benign w k (k.setTask t { k.task t with assignedCpu := c }) :=
    .setTask rfl id fun _ ht => absurd ht hne
  have hboost := hassign.trans (updateDeadlineBoost_benign hne)
  refine hboost.trans (.setRq rfl fun hpark hc => ?_)
  simpa [(insertByPriority_perm _ t _).mem_iff, Ne.symm hne] using (hpark.2 c hc).1

theorem remove_benign (t c : Nat) : Benign w k (removeFromCpuQueueLocked k t c).1 := by
  unfold removeFromCpuQueueLocked
  split
  · exact .setRq rfl fun hpark hc hmem =>
      (hpark.2 c hc).1 (List.mem_of_mem_erase hmem)
  · exact .refl w k

theorem publishTask_benign (t c : Nat) : Benign w k (publishTask k t c) := by
  unfold publishTask stealDequePush
  split
  · split
    · exact .refl w k
    · exact .setDeque _ _
  · exact .refl w k

theorem schedulerAddTaskToCpu_benign (t c : Nat) : Benign w k (schedulerAddTaskToCpu k t c) := by
  unfold schedulerAddTaskToCpu
  split
  · exact .refl w k
  rename_i hready
  apply Benign.of_ne (t := t)
  · intro u hu
    exact (add_benign hu).trans (publishTask_benign _ _)
  rintro hpark rfl
  simp [hpark.1] at hready

theorem schedulerRemoveTask_benign (t : Nat) : Benign w k (schedulerRemoveTask k t) := by
  unfold schedulerRemoveTask
  split
  · exact .refl w k
  · exact remove_benign _ _

theorem schedRepositionTask_benign (t : Nat) : Benign w k (schedRepositionTask k t) := by
  unfold schedRepositionTask repositionLocked
  split
  · exact .refl w k
  rename_i hcpu
  split
  · exact .refl w k
  rename_i prev next hfound
  apply Benign.of_ne (t := t)
  · intro u hu
    have hboost := updateDeadlineBoost_benign (k := k) hu
    dsimp only
    split
    · exact hboost
    · exact (hboost.trans (remove_benign t _)).trans (add_benign hu)
  rintro hpark rfl
  have hnot := (hpark.2 _ (Nat.lt_of_not_le hcpu)).1
  obtain ⟨l₁, l₂, hqueue, -, -⟩ := neighbours_eq_some hfound
  simp [hqueue] at hnot

/-! ### `schedule` -/

theorem requeueCurrent_benign (hc : c < k.cpuCount) (hrun : (k.task cur).state = .running) :
    Benign w k (requeueCurrent k c cur) := by
  apply Benign.of_ne (t := cur)
  · intro u hu
    have hready : Benign u k (k.setState cur .ready) := .setState hu
    have hadd : Benign u k (if cur ≠ ((k.setState cur .ready).rq c).idleTask then
          addToCpuQueueLocked (k.setState cur .ready) cur c
        else k.setState cur .ready) := by
      split
      · exact hready.trans (add_benign hu)
      · exact hready
    unfold requeueCurrent
    dsimp only
    generalize (if cur ≠ ((k.setState cur .ready).rq c).idleTask then
      addToCpuQueueLocked (k.setState cur .ready) cur c
      else k.setState cur .ready) = k₁ at hadd ⊢
    split
    · exact hadd
    rename_i head l hqueue
    refine hadd.trans (.of_ne (fun v hv => updateDeadlineBoost_benign hv) ?_)
    rintro hpark rfl
    have hnot := (hpark.2 c (by rw [hadd.cpuCount]; exact hc)).1
    simp [hqueue] at hnot
  rintro hpark rfl
  simp [hpark.1] at hrun

theorem ne_of_pickNextTask (hc : c < k.cpuCount)
    (hpick : pickNextTask k c = some next) (hpark : Parked k w) : next ≠ w := by
  rintro rfl
  obtain ⟨hnot, hidle⟩ := hpark.2 c hc
  obtain ⟨-, heq⟩ | ⟨l, hqueue, -⟩ := pickNextTask_cases hpick
  · exact hidle heq
  · simp [hqueue] at hnot

theorem dispatch_benign (hne : Parked k w → next ≠ w)
    (h : dispatch k c next = some k') : Benign w k k' := by
  apply Benign.of_ne (t := next) _ hne
  intro u hu
  unfold dispatch at h
  dsimp only at h
  generalize hpop : (if next ≠ (k.rq c).idleTask ∧ (k.rq c).queue.head? = some next then
      k.setQueue c (k.rq c).queue.tail else k) = k₁ at h
  have hbase : Benign u k k₁ := by
    rw [← hpop]
    split
    · exact .setRq rfl fun hpark hc hmem =>
        (hpark.2 c hc).1 (List.mem_of_mem_tail hmem)
    · exact .refl u k
  -- whatever else is written, the queue of the CPU stays as it is
  have hswitch : ∀ z cur, Benign u k ((k₁.setState next .running).setRq c
      { k₁.rq c with zombie := z, current := cur }) := by
    intro z cur
    exact (hbase.trans (.setState hu)).trans (.setRq rfl fun hpark hc => (hpark.2 c hc).1)
  split at h
  · cases h
    exact hswitch _ _
  split at h
  · rename_i heq
    split at h
    · cases h
    cases h
    rw [← heq]
    exact hbase.trans (.setState hu)
  cases h
  exact hswitch _ _

theorem scheduleLocked_benign (hc : c < k.cpuCount)
    (h : scheduleLocked k c = some k') : Benign w k k' := by
  unfold scheduleLocked at h
  cases hpick : pickNextTask k c with
  | none => simp [hpick] at h
  | some next =>
    rw [hpick] at h
    dsimp only at h
    split at h
    · exact dispatch_benign (ne_of_pickNextTask hc hpick) h
    split at h
    · rename_i cur _ hrun
      have hback := requeueCurrent_benign (w := w) hc hrun
      split at h
      · cases h
      rename_i next' hpick'
      refine hback.trans (dispatch_benign (fun hpark => ?_) h)
      exact ne_of_pickNextTask (by rw [hback.cpuCount]; exact hc) hpick' hpark
    · exact dispatch_benign (ne_of_pickNextTask hc hpick) h

theorem taskSetPriority_benign (t priority : Nat) : Benign w k (taskSetPriority k t priority) := by
  unfold taskSetPriority
  dsimp only
  generalize (if priority > taskPriorityMax then taskPriorityMax
    else priority) = p
  apply Benign.setTask
  · split <;> rfl
  · intro hle
    simp only [Kernel.eff] at hle
    split <;> dsimp only <;> omega
  rintro hpark rfl
  simp only [Kernel.eff]
  split
  · exact ⟨hpark.1, by dsimp only; omega⟩
  · exact ⟨hpark.1, le_refl _⟩

/-- Operations that are not made by a mutex, and do not wake or refresh `w`. -/
def PrioAction.Spares (w : Nat) : PrioAction → Prop
  | .refresh t => t ≠ w
  | .setState t _ => t ≠ w
  | .boost _ _ => False
  | .dropInherited _ => False
  | _ => True

theorem prioStep_benign (hok : a.Spares w) (h : prioStep k a = some k') : Benign w k k' := by
  cases a with
  | enqueue t c =>
    cases h
    exact schedulerAddTaskToCpu_benign t c
  | dequeue t =>
    cases h
    exact schedulerRemoveTask_benign t
  | schedule c =>
    simp only [prioStep, Option.ite_none_right_eq_some] at h
    exact scheduleLocked_benign h.1 h.2
  | setPriority t priority =>
    cases h
    exact taskSetPriority_benign t priority
  | setDeadline t deadline | setAiPriority t level =>
    cases h
    exact .setTask rfl id fun hpark ht => by
      subst ht
      exact ⟨hpark.1, le_refl _⟩
  | refresh t =>
    cases h
    exact updateDeadlineBoost_benign hok
  | boost owner caller | dropInherited t => exact absurd hok id
  | setState t st =>
    simp only [prioStep, Option.ite_none_left_eq_some] at h
    obtain ⟨-, h⟩ := h
    cases h
    exact .setState hok
  | tick ns =>
    cases h
    exact ⟨fun _ => rfl, fun _ h => h, id, fun _ => le_refl _, rfl⟩

end

/-! ## Floors that rise and fall -/

/-- The floor of `owner` rises to at least `p`; nothing else gets worse. -/
structure Raised (w : Nat) (k k' : Kernel) (owner p : Nat) : Prop where
  raised : p ≤ k'.pi owner
  grows : ∀ t, k.pi t ≤ k'.pi t
  others : ∀ t, t ≠ owner → k'.pi t = k.pi t
  floor : (∀ t, k.pi t ≤ k.eff t) → ∀ t, k'.pi t ≤ k'.eff t
  parked : Parked k w → Parked k' w
  rests : Parked k w → k.eff w ≤ k'.eff w

theorem Raised.trans (h : Raised w k k' owner p) (h' : Benign w k' k'') :
    Raised w k k'' owner p where
  raised := by
    rw [h'.pi]
    exact h.raised
  grows := by
    intro t
    rw [h'.pi]
    exact h.grows t
  others := by
    intro t ht
    rw [h'.pi, h.others t ht]
  floor := by
    intro hfloor t
    rw [h'.pi]
    exact h'.floor t (h.floor hfloor t)
  parked := fun hw => h'.parked (h.parked hw)
  rests := fun hw => le_trans (h.rests hw) (h'.rests (h.parked hw))

theorem tryBoostOwner_raised (w : Nat) (k : Kernel) (owner caller : Nat) :
    Raised w k (tryBoostOwner k owner caller).1 owner (k.eff caller) := by
  obtain ⟨v, hv, hstate, hpi, hgrow, heff, hboost⟩ : ∃ v : Task,
      (tryBoostOwner k owner caller).1 = k.setTask owner v ∧
      v.state = (k.task owner).state ∧ k.eff caller ≤ v.piPriority ∧
      k.pi owner ≤ v.piPriority ∧ k.eff owner ≤ v.effectivePriority ∧
      (k.pi owner ≤ k.eff owner → v.piPriority ≤ v.effectivePriority) := by
    refine ⟨(tryBoostOwner k owner caller).1.task owner, by simp [tryBoostOwner], ?_⟩
    by_cases h₁ : (k.task owner).piPriority < k.eff caller
    all_goals
      by_cases h₂ : (k.task owner).effectivePriority < k.eff caller
      all_goals
        simp [tryBoostOwner, Kernel.pi, h₁, h₂]
        simp only [Kernel.eff] at h₁ h₂ ⊢
        omega
  rw [hv]
  constructor
  · simpa [Kernel.pi] using hpi
  · intro t
    by_cases ht : t = owner
    · subst ht
      simpa [Kernel.pi] using hgrow
    · simp [Kernel.pi, setTask_of_ne _ _ ht]
  · intro t ht
    simp [Kernel.pi, setTask_of_ne _ _ ht]
  · intro hfloor t
    by_cases ht : t = owner
    · subst ht
      simpa [Kernel.pi, eff_setTask_self] using hboost (hfloor t)
    · simpa [Kernel.pi, setTask_of_ne _ _ ht, eff_setTask_of_ne _ _ ht] using hfloor t
  · intro hpark
    refine ⟨?_, hpark.2⟩
    by_cases ht : w = owner
    · subst ht
      simpa [hstate] using hpark.1
    · simpa [setTask_of_ne _ _ ht] using hpark.1
  intro _
  by_cases ht : w = owner
  · subst ht
    simpa [eff_setTask_self] using heff
  · simp [eff_setTask_of_ne _ _ ht]

theorem boostOwner_raised (w : Nat) (k : Kernel) (owner caller : Nat) :
    Raised w k (boostOwner k owner caller) owner (k.eff caller) := by
  have htry := tryBoostOwner_raised w k owner caller
  unfold boostOwner
  dsimp only
  split
  · exact htry.trans (schedRepositionTask_benign owner)
  · exact htry

/-! A caller that is running is in no queue, and a boost leaves it there. -/

theorem setQueue_off (h : Off k w) (hl : w ∈ l → w ∈ (k.rq c).queue) : Off (k.setQueue c l) w := by
  intro d hd
  by_cases hdc : d = c
  · subst hdc
    simpa [setQueue] using ⟨fun hw => (h d hd).1 (hl hw), (h d hd).2⟩
  · simpa [setQueue_of_ne _ _ hdc] using h d hd

theorem schedRepositionTask_off (h : Off k w) (t : Nat) : Off (schedRepositionTask k t) w := by
  unfold schedRepositionTask repositionLocked
  split
  · exact h
  rename_i hcpu
  split
  · exact h
  rename_i prev next hfound
  have hne : t ≠ w := by
    rintro rfl
    obtain ⟨l₁, l₂, hqueue, -, -⟩ := neighbours_eq_some hfound
    have hnot := (h _ (Nat.lt_of_not_le hcpu)).1
    simp [hqueue] at hnot
  dsimp only
  split
  · exact h
  have herase : Off (removeFromCpuQueueLocked (updateDeadlineBoost k t) t
      (k.task t).assignedCpu).1 w := by
    unfold removeFromCpuQueueLocked
    split
    · exact setQueue_off (k := updateDeadlineBoost k t) h List.mem_of_mem_erase
    · exact h
  refine setQueue_off (k := updateDeadlineBoost _ t) herase fun hw => ?_
  simpa [(insertByPriority_perm _ t _).mem_iff, Ne.symm hne] using hw

theorem boostOwner_off (h : Off k w) (owner caller : Nat) : Off (boostOwner k owner caller) w := by
  have htry : Off (tryBoostOwner k owner caller).1 w := h
  unfold boostOwner
  dsimp only
  split
  · exact schedRepositionTask_off htry owner
  · exact htry

theorem remove_task (k : Kernel) (t c : Nat) :
    (removeFromCpuQueueLocked k t c).1.task = k.task := by
  unfold removeFromCpuQueueLocked
  split <;> simp

theorem boostOwner_eff (h : t ≠ owner) : (boostOwner k owner caller).eff t = k.eff t := by
  have htry : (tryBoostOwner k owner caller).1.eff t = k.eff t := by
    simp [tryBoostOwner, eff_setTask_of_ne _ _ h]
  have hmove : ∀ k : Kernel, (schedRepositionTask k owner).eff t = k.eff t := by
    intro k
    unfold schedRepositionTask repositionLocked
    split
    · simp
    split
    · simp
    dsimp only
    split <;>
      simp [Kernel.eff, updateDeadlineBoost, addToCpuQueueLocked, remove_task, setTask_of_ne _ _ h]
  unfold boostOwner
  dsimp only
  split <;> simp [hmove, htry]

/-- The floor of `t` is dropped; the floors of the others stay. -/
structure Dropped (w : Nat) (k k' : Kernel) (t : Nat) : Prop where
  self : k'.pi t = 0
  others : ∀ u, u ≠ t → k'.pi u = k.pi u
  floor : (∀ u, k.pi u ≤ k.eff u) → ∀ u, k'.pi u ≤ k'.eff u
  parked : Parked k w → Parked k' w
  rests : t ≠ w → k'.eff w = k.eff w

theorem dropInherited_dropped (w : Nat) (k : Kernel) (t : Nat) :
    Dropped w k (dropInherited k t) t := by
  unfold dropInherited
  split
  · rename_i hne
    let v : Task := { k.task t with piPriority := 0 }
    have hk : updateDeadlineBoost (k.setTask t v) t =
        k.setTask t (deadlineBoosted (k.setTask t v) v) := by
      simp [updateDeadlineBoost, setTask]
    have hpi : (deadlineBoosted (k.setTask t v) v).piPriority = 0 := deadlineBoosted_piPriority _ v
    rw [hk]
    constructor
    · simpa [Kernel.pi] using hpi
    · intro u hu
      simp [Kernel.pi, setTask_of_ne _ _ hu]
    · intro hfloor u
      by_cases hu : u = t
      · subst hu
        simp [Kernel.pi, hpi]
      · simpa [Kernel.pi, setTask_of_ne _ _ hu, eff_setTask_of_ne _ _ hu] using hfloor u
    · intro hpark
      refine ⟨?_, hpark.2⟩
      by_cases hu : w = t
      · subst hu
        rw [setTask_self, deadlineBoosted_eq]
        exact hpark.1
      · simpa [setTask_of_ne _ _ hu] using hpark.1
    intro hu
    simp [eff_setTask_of_ne _ _ (Ne.symm hu)]
  rename_i hzero
  have hzero : k.pi t = 0 := by simpa [Kernel.pi] using hzero
  exact ⟨hzero, fun _ _ => rfl, id, id, fun _ => rfl⟩

end SlmOs.Sched
