import SlmOs.Foundation.Transition
import SlmOs.Sched.Kernel

/-!
# Sleeping tasks

`kernel/sched/task_sleep.c`: a task puts itself on the sleep queue with a deadline
and blocks; a timer tick takes the tasks whose deadline has passed off the queue,
and `task_sleep_wake` takes off one task before its time.  Every section under the
lock of the queue is one step.  What a tick or a waker does after it has dropped
the lock, task by task, are steps of their own, in any order.

The queue and the lists of the ticks are chained through `task->sleep_next`.  They
are lists here; a task is never on two of them.  Every entry of the queue carries
a number, which says what becomes of this one sleep.
-/

namespace SlmOs.Sched

open Function Foundation List
open Prod (fst)

/-! ## The steps -/

structure Sleep where
  task : Nat
  number : Nat
  deriving DecidableEq, Repr

inductive WakeCause where
  | expiry
  | wake
  deriving DecidableEq, Repr

structure Sleepers where
  state : Nat → TaskState
  /-- `TASK_FLAG_WAKEUP_PENDING`. -/
  wakeupPending : Nat → Bool
  wakeTime : Nat → Nat
  queue : List Sleep
  /-- Taken off the queue by a tick and not made ready yet. -/
  expired : List Sleep
  /-- Made ready, before the call of `scheduler_add_task`. -/
  toAdd : List (Sleep × WakeCause)
  /-- The calls of `scheduler_add_task`, the newest first. -/
  added : List (Sleep × WakeCause)
  /-- How many sleeps have been enqueued. -/
  enqueued : Nat

namespace Sleepers

def setState (s : Sleepers) (t : Nat) (state : TaskState) : Sleepers :=
  { s with state := update s.state t state }

/-- `task_sleep_ms` of the running task `t`, up to the call of `schedule`. -/
def taskSleepMs (s : Sleepers) (t ms freq count : Nat) : Sleepers :=
  if ms = 0 then s
  else if freq = 0 then s
  else
    let deadline := (count + freq / 1000 * ms) % 2 ^ 64
    if s.wakeupPending t then
      { s with wakeupPending := update s.wakeupPending t false }
    else
      { s with
        wakeTime := update s.wakeTime t deadline
        queue := ⟨t, s.enqueued⟩ :: s.queue
        state := update s.state t .blocked
        enqueued := s.enqueued + 1 }

/-- The locked section of `task_wake_sleepers`. -/
def collectExpired (s : Sleepers) (now : Nat) : Sleepers :=
  { s with
    queue := s.queue.filter fun e => ¬s.wakeTime e.task ≤ now
    expired := (s.queue.filter fun e => s.wakeTime e.task ≤ now).reverse ++ s.expired }

def readyExpired (s : Sleepers) (e : Sleep) : Sleepers :=
  { s with
    expired := s.expired.erase e
    wakeTime := update s.wakeTime e.task 0
    state := update s.state e.task .ready
    toAdd := (e, .expiry) :: s.toAdd }

/-- The locked section of `task_sleep_wake`. -/
def taskSleepWake (s : Sleepers) (t : Nat) : Sleepers :=
  match s.queue.find? fun e => e.task = t with
  | some e =>
    { s with
      queue := s.queue.erase e
      wakeTime := update s.wakeTime t 0
      state := update s.state t .ready
      toAdd := (e, .wake) :: s.toAdd }
  | none => { s with wakeupPending := update s.wakeupPending t true }

def addTask (s : Sleepers) (e : Sleep × WakeCause) : Sleepers :=
  { s with toAdd := s.toAdd.erase e, added := e :: s.added }

def asleep (s : Sleepers) (t : Nat) : Bool :=
  (s.queue ++ s.expired).any fun e => e.task = t

end Sleepers

inductive SleepAction where
  | sleep (t ms freq count : Nat)
  | collect (now : Nat)
  | ready (e : Sleep)
  | wake (t : Nat)
  | add (e : Sleep × WakeCause)
  | other (t : Nat) (state : TaskState)
  deriving DecidableEq, Repr

/--
A task that is blocked does not call anything.  The rest of the kernel may change
the state of tasks that are not asleep.
-/
def sleepStep (s : Sleepers) : SleepAction → Option Sleepers
  | .sleep t ms freq count =>
    if s.state t = .blocked then none else some (s.taskSleepMs t ms freq count)
  | .collect now => some (s.collectExpired now)
  | .ready e => if e ∈ s.expired then some (s.readyExpired e) else none
  | .wake t => some (s.taskSleepWake t)
  | .add e => if e ∈ s.toAdd then some (s.addTask e) else none
  | .other t state => if s.asleep t then none else some (s.setState t state)

/-! ## Where a sleep is -/

namespace Sleepers

def all (s : Sleepers) : List Sleep :=
  s.queue ++ s.expired ++ s.toAdd.map fst ++ s.added.map fst

/--
Every sleep is in one place, and a task is asleep at most once, and then blocked.
-/
structure Orderly (s : Sleepers) : Prop where
  places : (s.all.map Sleep.number).Perm (List.range s.enqueued)
  once : ((s.queue ++ s.expired).map Sleep.task).Nodup
  blocked : ∀ e ∈ s.queue ++ s.expired, s.state e.task = .blocked

variable {s : Sleepers}

section

variable (h : s.Orderly)
include h

theorem Orderly.of_perm {s' : Sleepers} (hall : s'.all.Perm s.all)
    (hnum : s'.enqueued = s.enqueued) :
    (s'.all.map Sleep.number).Perm (List.range s'.enqueued) := by
  rw [hnum]
  exact (hall.map _).trans h.places

theorem Orderly.sleep (hrun : s.state t ≠ .blocked)
    (ms freq count : Nat) : (s.taskSleepMs t ms freq count).Orderly := by
  have hawake : t ∉ (s.queue ++ s.expired).map Sleep.task := by
    intro hmem
    obtain ⟨e, he, rfl⟩ := List.mem_map.mp hmem
    exact hrun (h.blocked e he)
  unfold taskSleepMs
  split
  · exact h
  split
  · exact h
  simp only
  split
  · exact ⟨h.places, h.once, h.blocked⟩
  refine ⟨?_, nodup_cons.mpr ⟨hawake, h.once⟩, ?_⟩
  · rw [range_succ]
    refine List.Perm.trans ?_ (perm_append_singleton _ _).symm
    exact h.places.cons _
  intro e he
  rcases mem_cons.mp he with rfl | he
  · exact update_self ..
  have hne : e.task ≠ t := fun heq => hawake (mem_map.mpr ⟨e, he, heq⟩)
  simpa [hne] using h.blocked e he

theorem Orderly.leave (hperm : (s.queue ++ s.expired).Perm (e :: rest)) (state : TaskState) :
    (rest.map Sleep.task).Nodup ∧ ∀ d ∈ rest, update s.state e.task state d.task = .blocked := by
  have hnodup : ((e :: rest).map Sleep.task).Nodup := (hperm.map _).nodup_iff.mp h.once
  rw [List.map_cons, List.nodup_cons] at hnodup
  refine ⟨hnodup.2, fun d hd => ?_⟩
  have hne : d.task ≠ e.task := by
    intro heq
    exact hnodup.1 (mem_map.mpr ⟨d, hd, heq⟩)
  rw [update_of_ne hne]
  exact h.blocked d (hperm.mem_iff.mpr (mem_cons_of_mem e hd))

theorem Orderly.collect (now : Nat) : (s.collectExpired now).Orderly := by
  have hperm : ((s.collectExpired now).queue ++ (s.collectExpired now).expired).Perm
      (s.queue ++ s.expired) := by
    simp only [collectExpired, ← List.append_assoc]
    refine List.Perm.append_right _ ?_
    refine ((reverse_perm _).append_left _).trans (perm_append_comm.trans ?_)
    simpa only [decide_not] using
      filter_append_perm (fun e => decide (s.wakeTime e.task ≤ now)) s.queue
  refine ⟨h.of_perm ((hperm.append_right _).append_right _) rfl, ?_, ?_⟩
  · exact (hperm.map _).nodup_iff.mpr h.once
  · exact fun e he => h.blocked e (hperm.mem_iff.mp he)

theorem Orderly.ready (he : e ∈ s.expired) : (s.readyExpired e).Orderly := by
  have hperm : (s.queue ++ s.expired).Perm (e :: (s.queue ++ s.expired.erase e)) :=
    ((List.perm_cons_erase he).append_left _).trans List.perm_middle
  obtain ⟨honce, hblocked⟩ := h.leave hperm .ready
  refine ⟨h.of_perm ?_ rfl, honce, hblocked⟩
  -- the sleep moves from the list of the tick to the tasks to be added
  have hmove : (s.queue ++ s.expired.erase e ++ e :: s.toAdd.map fst).Perm
      (s.queue ++ s.expired ++ s.toAdd.map fst) :=
    perm_middle.trans (hperm.symm.append_right (s.toAdd.map fst))
  exact hmove.append_right _

theorem Orderly.wake (t : Nat) : (s.taskSleepWake t).Orderly := by
  unfold taskSleepWake
  split
  case h_2 => exact ⟨h.places, h.once, h.blocked⟩
  case h_1 e hfind =>
    obtain rfl : e.task = t := by simpa using find?_some hfind
    have hperm : (s.queue ++ s.expired).Perm (e :: (s.queue.erase e ++ s.expired)) :=
      (perm_cons_erase (mem_of_find?_eq_some hfind)).append_right _
    obtain ⟨honce, hblocked⟩ := h.leave hperm .ready
    refine ⟨h.of_perm ?_ rfl, honce, hblocked⟩
    have hmove : (s.queue.erase e ++ s.expired ++ e :: s.toAdd.map fst).Perm
        (s.queue ++ s.expired ++ s.toAdd.map fst) :=
      perm_middle.trans (hperm.symm.append_right (s.toAdd.map fst))
    exact hmove.append_right _

theorem Orderly.add (he : e ∈ s.toAdd) : (s.addTask e).Orderly := by
  refine ⟨h.of_perm ?_ rfl, h.once, h.blocked⟩
  have hmove : ((s.toAdd.erase e).map Prod.fst ++ e.1 :: s.added.map Prod.fst).Perm
      (s.toAdd.map fst ++ s.added.map fst) :=
    perm_middle.trans (((perm_cons_erase he).map fst).symm.append_right (s.added.map fst))
  simpa [all, addTask] using hmove.append_left (s.queue ++ s.expired)

theorem Orderly.other (hawake : ¬s.asleep t)
    (state : TaskState) : (s.setState t state).Orderly := by
  refine ⟨h.places, h.once, fun e he => ?_⟩
  have hne : e.task ≠ t := by
    intro heq
    exact hawake (any_eq_true.mpr ⟨e, he, by simpa using heq⟩)
  exact (update_of_ne hne ..).trans (h.blocked e he)

end

end Sleepers

open Sleepers

variable {s : Sleepers} {s' : Sleepers}

theorem orderly_step (h : s.Orderly) (hstep : sleepStep s a = some s') : s'.Orderly := by
  cases a with
  | sleep t ms freq count =>
    obtain ⟨hrun, rfl⟩ := by simpa [sleepStep] using hstep
    exact h.sleep hrun ms freq count
  | collect now =>
    obtain rfl := Option.some.inj hstep
    exact h.collect now
  | ready e =>
    obtain ⟨he, rfl⟩ := by simpa [sleepStep] using hstep
    exact h.ready he
  | wake t =>
    obtain rfl := Option.some.inj hstep
    exact h.wake t
  | add e =>
    obtain ⟨he, rfl⟩ := by simpa [sleepStep] using hstep
    exact h.add he
  | other t state =>
    obtain ⟨hawake, rfl⟩ := by simpa [sleepStep] using hstep
    exact h.other (by simp [hawake]) state

/-! ## A pending wake-up -/

variable {t : Nat}

theorem wakeupPending_kept
    (hpending : s.wakeupPending t) (hother : ∀ ms freq count, a ≠ .sleep t ms freq count)
    (hstep : sleepStep s a = some s') : s'.wakeupPending t := by
  cases a with
  | sleep u ms freq count =>
    obtain ⟨-, rfl⟩ := by simpa [sleepStep] using hstep
    have hne : t ≠ u := by
      rintro rfl
      exact hother _ _ _ rfl
    unfold taskSleepMs
    split_ifs <;> simp [hpending, hne]
  | collect now =>
    obtain rfl := Option.some.inj hstep
    exact hpending
  | ready e | add e | other u state =>
    obtain ⟨-, rfl⟩ := by simpa [sleepStep] using hstep
    exact hpending
  | wake u =>
    obtain rfl := Option.some.inj hstep
    unfold taskSleepWake
    split
    · exact hpending
    · simp [update_apply, hpending]

theorem wakeupPending_of_wake (hoff : ∀ e ∈ s.queue, e.task ≠ t) :
    (s.taskSleepWake t).wakeupPending t := by
  have hfind : (s.queue.find? fun e => e.task = t) = none := by simpa using hoff
  simp [taskSleepWake, hfind]

theorem taskSleepMs_of_pending (hpending : s.wakeupPending t)
    (hms : 0 < ms) (hfreq : 0 < freq) (count : Nat) :
    s.taskSleepMs t ms freq count = { s with wakeupPending := update s.wakeupPending t false } := by
  simp [taskSleepMs, hpending, hms.ne', hfreq.ne']

/-! ## Every sleep comes to its end -/

/-- The steps that finish sleeps: of the timer, and of the ticks and wakers under way. -/
def SleepAction.finishing : SleepAction → Bool
  | .collect _ | .ready _ | .add _ => true
  | .sleep .. | .wake _ | .other .. => false

def Finishes (s s' : Sleepers) : Prop :=
  Run sleepStep (fun _ a => a.finishing) s s'

theorem finishes_list {ε τ : Type} [BEq ε] [LawfulBEq ε] (pending : Sleepers → List ε)
    (rest : Sleepers → τ) (act : ε → SleepAction) (next : Sleepers → ε → Sleepers)
    (hact : ∀ e, (act e).finishing) (hrest : ∀ s e, rest (next s e) = rest s)
    (hnext : ∀ s e, pending (next s e) = (pending s).erase e)
    (hstep : ∀ s, ∀ e ∈ pending s, sleepStep s (act e) = some (next s e)) (s : Sleepers) :
    ∃ s', Finishes s s' ∧ pending s' = [] ∧ rest s' = rest s := by
  induction hn : (pending s).length generalizing s with
  | zero => exact ⟨s, .refl s, List.length_eq_zero_iff.mp hn, rfl⟩
  | succ n ih =>
    obtain ⟨e, he⟩ := List.exists_mem_of_length_pos (l := pending s) (by omega)
    obtain ⟨s', hrun, hempty, hsame⟩ := ih (next s e) (by simp [hnext, length_erase_of_mem he, hn])
    exact ⟨s', Run.trans (.tail (.refl s) (hact e) (hstep s e he)) hrun, hempty,
      hsame.trans (hrest s e)⟩

theorem finishes_queue (s : Sleepers) :
    ∃ s', Finishes s s' ∧ s'.queue = [] ∧ s'.enqueued = s.enqueued := by
  obtain ⟨now, hnow⟩ : ∃ now, ∀ e ∈ s.queue, s.wakeTime e.task ≤ now :=
    ⟨(s.queue.map fun e => s.wakeTime e.task).sum, fun e he =>
      List.le_sum_of_mem (List.mem_map.mpr ⟨e, he, rfl⟩)⟩
  have hstep : sleepStep s (.collect now) = some (s.collectExpired now) := rfl
  refine ⟨s.collectExpired now, .tail (.refl s) rfl hstep, ?_, rfl⟩
  simpa [collectExpired, List.filter_eq_nil_iff] using hnow

theorem finishes_all (s : Sleepers) :
    ∃ s', Finishes s s' ∧ s'.queue = [] ∧ s'.expired = [] ∧ s'.toAdd = [] ∧
      s'.enqueued = s.enqueued := by
  obtain ⟨s₁, hrun₁, hqueue₁, hnum₁⟩ := finishes_queue s
  obtain ⟨s₂, hrun₂, hexpired₂, hrest₂⟩ := finishes_list Sleepers.expired
    (fun s => (s.queue, s.enqueued)) .ready readyExpired (fun _ => rfl) (fun _ _ => rfl)
    (fun _ _ => rfl) (fun _ _ he => if_pos he) s₁
  obtain ⟨s₃, hrun₃, htoAdd₃, hrest₃⟩ := finishes_list Sleepers.toAdd
    (fun s => (s.queue, s.enqueued, s.expired)) .add addTask (fun _ => rfl) (fun _ _ => rfl)
    (fun _ _ => rfl) (fun _ _ he => if_pos he) s₂
  simp only [Prod.mk.injEq] at hrest₂ hrest₃
  refine ⟨s₃, (hrun₁.trans hrun₂).trans hrun₃, ?_, ?_, htoAdd₃, ?_⟩
  · rw [hrest₃.1, hrest₂.1, hqueue₁]
  · rw [hrest₃.2.2, hexpired₂]
  · rw [hrest₃.2.1, hrest₂.2, hnum₁]

def Sleepers.Fresh (s : Sleepers) : Prop :=
  s.queue = [] ∧ s.expired = [] ∧ s.toAdd = [] ∧ s.added = [] ∧ s.enqueued = 0

theorem Sleepers.Fresh.orderly (h : s.Fresh) : s.Orderly := by
  obtain ⟨hqueue, hexpired, htoAdd, hadded, hnone⟩ := h
  constructor <;> simp [all, hqueue, hexpired, htoAdd, hadded, hnone]

/-! ## Runs -/

def Sleepers.addedNumbers (s : Sleepers) : List Nat :=
  s.added.map fun e => e.1.number

theorem Sleepers.Orderly.added_nodup (h : s.Orderly) : s.addedNumbers.Nodup := by
  have hall : (s.all.map Sleep.number).Nodup := h.places.nodup_iff.mpr List.nodup_range
  have hsub : s.addedNumbers.Sublist (s.all.map Sleep.number) := by
    simp only [all, map_append, map_map]
    exact sublist_append_right ..
  exact hall.sublist hsub

/--
What has been added and what is still to be added are together the sleeps that
have been enqueued.
-/
theorem Sleepers.Orderly.added_all (h : s.Orderly) (hqueue : s.queue = [])
    (hexpired : s.expired = []) (htoAdd : s.toAdd = []) :
    s.addedNumbers.Perm (List.range s.enqueued) := by
  have hplaces := h.places
  simpa [all, hqueue, hexpired, htoAdd, addedNumbers, Function.comp_def] using hplaces

theorem orderly_run {ok : Sleepers → SleepAction → Prop} (h : s.Orderly)
    (hrun : Run sleepStep ok s s') : s'.Orderly :=
  hrun.invariant (I := Orderly) (fun _ _ _ hs _ hstep => orderly_step hs hstep) h

/--
In every reachable state a task is on the sleep queue at most once, and every
sleep that has been enqueued is in one place: on the queue, with a tick or a waker
that is about to add its task, or added, once and for one cause.  Those that are
not added yet can be, after which each of them has been added once.  A task that is
woken while it is not on the queue returns from its next call of `task_sleep_ms`
without sleeping, whatever happens before that call.
-/
theorem sleeps_end_once {init s : Sleepers} (hinit : init.Fresh)
    (hrun : Run sleepStep (fun _ _ => True) init s) :
    (s.queue.map Sleep.task).Nodup ∧ (s.all.map Sleep.number).Perm (List.range s.enqueued) ∧
      s.addedNumbers.Nodup ∧
      (∃ s', Finishes s s' ∧ s'.addedNumbers.Perm (List.range s.enqueued)) ∧
      ∀ t, (∀ e ∈ s.queue, e.task ≠ t) → ∀ s₁ s₂ s₃ ms freq count, sleepStep s (.wake t) = some s₁ →
        Run sleepStep (fun _ a => ∀ ms freq count, a ≠ .sleep t ms freq count) s₁ s₂ →
        0 < ms → 0 < freq → sleepStep s₂ (.sleep t ms freq count) = some s₃ →
        s₃ = { s₂ with wakeupPending := update s₂.wakeupPending t false } := by
  have horderly : s.Orderly := orderly_run hinit.orderly hrun
  refine ⟨?_, horderly.places, horderly.added_nodup, ?_, ?_⟩
  · have honce := horderly.once
    rw [map_append] at honce
    exact honce.of_append_left
  · obtain ⟨s', hfinish, hqueue, hexpired, htoAdd, hnum⟩ := finishes_all s
    have hdone := (orderly_run horderly hfinish).added_all hqueue hexpired htoAdd
    exact ⟨s', hfinish, hnum ▸ hdone⟩
  intro t hoff s₁ s₂ s₃ ms freq count hwake hwait hms hfreq hsleep
  obtain rfl := Option.some.inj hwake
  have hpending : s₂.wakeupPending t := hwait.invariant (I := fun s => s.wakeupPending t = true)
      (fun _ _ _ hs hother hstep => wakeupPending_kept hs hother hstep)
      (wakeupPending_of_wake hoff)
  obtain ⟨-, rfl⟩ := by simpa [sleepStep] using hsleep
  exact taskSleepMs_of_pending hpending hms hfreq count

def noSleepers : Sleepers where
  state := fun _ => .running
  wakeupPending := fun _ => false
  wakeTime := fun _ => 0
  queue := []
  expired := []
  toAdd := []
  added := []
  enqueued := 0

/--
Task 3 sleeps and is woken; its waker's call of `scheduler_add_task` comes after
task 5 has fallen asleep and a tick has taken task 5 off the queue.
-/
def sleepTrace : List SleepAction :=
  [.sleep 3 20 62500000 0, .wake 3, .sleep 5 10 62500000 0, .collect 1000000, .add (⟨3, 0⟩, .wake)]

theorem sleeps_end_once_two : ∃ s, exec sleepStep noSleepers sleepTrace = some s ∧
      s.addedNumbers = [0] ∧ s.expired = [⟨5, 1⟩] ∧ s.addedNumbers.Nodup := by
  have hfresh : noSleepers.Fresh := ⟨rfl, rfl, rfl, rfl, rfl⟩
  refine ⟨_, rfl, by decide, by decide, ?_⟩
  exact (sleeps_end_once hfresh (run_exec sleepTrace rfl)).2.2.1

end SlmOs.Sched
