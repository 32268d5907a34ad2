import SlmOs.Foundation.SinglyLinked
import SlmOs.Sched.Dispatch

/-!
# Mutexes with priority inheritance

A model of `kernel/ipc/pi_mutex.c`: any number of tasks and mutexes, where every
critical section under the guard of a mutex is one step.  The wait queue of a
mutex is linked through the `next` field of the tasks, which the run queues use
as well; the scheduler may therefore change it for every task that is not waiting.
This module has the code and what an unlock does to a wait queue.
-/

namespace SlmOs.Ipc

open Function Foundation List
open Sched (Kernel boostOwner dropInherited schedulerAddTaskToCpu)

/-! ## Mutexes and tasks -/

structure PiMutex where
  owner : Option Nat
  waitHead : Option Nat
  waitTail : Option Nat
  locked : Bool
  deriving DecidableEq, Repr

def piMutexInit : PiMutex := ⟨none, none, none, false⟩

structure PiSys where
  kernel : Kernel
  taskCount : Nat
  mutexCount : Nat
  /-- `task->next` -/
  next : Nat → Option Nat
  /-- `task->pi_mutexes_held`, a byte -/
  held : Nat → Nat
  mutex : Nat → PiMutex
  /-- The mutex in whose `pi_mutex_lock` the task is blocked. -/
  waitingFor : Nat → Option Nat
  /-- Tasks that were handed a mutex and are not back in a run queue yet. -/
  woken : List Nat

namespace PiSys

def noteMutexAcquired (s : PiSys) (t : Nat) : PiSys :=
  { s with held := update s.held t ((s.held t + 1) % 256) }

def acquire (s : PiSys) (self m : Nat) : PiSys :=
  noteMutexAcquired
    { s with
      mutex := update s.mutex m { s.mutex m with locked := true, owner := some self } } self

def block (s : PiSys) (self m : Nat) : PiSys :=
  let mutex := s.mutex m
  let link := setLink (update s.next self none) mutex.waitHead mutex.waitTail (some self)
  { s with
    kernel := s.kernel.setState self .blocked
    next := link.1
    mutex := update s.mutex m { mutex with waitHead := link.2, waitTail := some self }
    waitingFor := update s.waitingFor self (some m) }

def piMutexLock (s : PiSys) (self m : Nat) : PiSys :=
  if !(s.mutex m).locked then s.acquire self m
  else
    let kernel :=
      match (s.mutex m).owner with
      | some owner => boostOwner s.kernel owner self
      | none => s.kernel
    block { s with kernel := kernel } self m

def piMutexTrylock (s : PiSys) (self m : Nat) : PiSys × Bool :=
  if !(s.mutex m).locked then (s.acquire self m, true) else (s, false)

def releaseOwner (s : PiSys) (m : Nat) : PiSys :=
  match (s.mutex m).owner with
  | none => s
  | some owner =>
    let held := if s.held owner > 0 then s.held owner - 1 else s.held owner
    { s with
      held := update s.held owner held
      kernel := if held = 0 then dropInherited s.kernel owner else s.kernel }

/--
One round of the search for the best waiter: the slot that leads to the current
waiter, and the best one so far with the slot that leads to it.
-/
def pickWaiter (eff : Nat → Nat) (found : Option Nat × Option (Nat × Option Nat)) (cur : Nat) :
    Option Nat × Option (Nat × Option Nat) :=
  (some cur,
    match found.2 with
    | none => some (cur, found.1)
    | some (best, slot) =>
      if eff cur > eff best then some (cur, found.1) else some (best, slot))

def raiseInheritedPriority (k : Kernel) (t priority : Nat) : Kernel :=
  if priority > (k.task t).piPriority then
    k.setTask t { k.task t with piPriority := priority }
  else k

def handOff (s : PiSys) (m best : Nat) (link : (Nat → Option Nat) × Option Nat) (tail : Option Nat)
    (kernel : Kernel) : PiSys :=
  noteMutexAcquired
    { s with
      kernel := kernel.setState best .ready
      next := link.1
      mutex := update s.mutex m
        { s.mutex m with
          owner := some best
          waitHead := link.2
          waitTail := tail }
      waitingFor := update s.waitingFor best none
      woken := s.woken ++ [best] } best

def free (s : PiSys) (m : Nat) : PiSys :=
  { s with
    mutex := update s.mutex m { s.mutex m with owner := none, locked := false } }

/-- A wait queue has at most all tasks, so a loop along it is given that bound. -/
def bound (s : PiSys) : Nat := s.taskCount + 1

def newTail (s : PiSys) (m best : Nat)
    (link : (Nat → Option Nat) × Option Nat) : Option (Option Nat) :=
  if (s.mutex m).waitTail = some best then
    foldChain link.1 (fun _ t => some t) s.bound none link.2
  else some (s.mutex m).waitTail

/-- The second half of `pi_mutex_unlock`, after the owner has been dealt with. -/
def passOn (s : PiSys) (m : Nat) : Option PiSys := do
  let mutex := s.mutex m
  let found ← foldChain s.next (pickWaiter s.kernel.eff) s.bound (none, none) mutex.waitHead
  match found.2 with
  | none => some (s.free m)
  | some (best, slot) => do
      let link := setLink s.next mutex.waitHead slot (s.next best)
      let tail ← s.newTail m best link
      let link := (update link.1 best none, link.2)
      let kernel ← foldChain link.1
        (fun k t => raiseInheritedPriority k best (k.eff t)) s.bound s.kernel
        link.2
      some (s.handOff m best link tail kernel)

/-- The result is `none` only if a loop does not end. -/
def piMutexUnlock (s : PiSys) (m : Nat) : Option PiSys :=
  (s.releaseOwner m).passOn m

end PiSys

inductive PiAction where
  | lock (self m : Nat)
  | trylock (self m : Nat)
  | unlock (caller m : Nat)
  /-- The call of `scheduler_add_task_to_cpu` after a hand-off. -/
  | publish (t : Nat)
  /-- Anything the rest of the kernel does to tasks. -/
  | sched (kernel : Kernel) (next : Nat → Option Nat)

def PiSys.canCall (s : PiSys) (self m : Nat) : Bool :=
  self < s.taskCount ∧ m < s.mutexCount ∧ s.waitingFor self = none

def piStep (s : PiSys) : PiAction → Option PiSys
  | .lock self m =>
    if s.canCall self m then some (s.piMutexLock self m) else none
  | .trylock self m =>
    if s.canCall self m then some (s.piMutexTrylock self m).1 else none
  | .unlock caller m => if s.canCall caller m then s.piMutexUnlock m else none
  | .publish t =>
    if t ∈ s.woken then
      some
        { s with
          woken := s.woken.erase t
          kernel := schedulerAddTaskToCpu s.kernel t (s.kernel.task t).assignedCpu }
    else none
  | .sched kernel next =>
    some
      { s with
        kernel := kernel
        next := fun t =>
          if s.waitingFor t = none then next t else s.next t }

/-! ## Wait queues -/

/-- The wait queue of `m` is the list `l`, in the order of arrival. -/
structure WaitQueue (s : PiSys) (m : Nat) (l : List Nat) : Prop where
  chain : Chain s.next (s.mutex m).waitHead l
  tail : (s.mutex m).waitTail = l.getLast?
  waiters : ∀ t, t ∈ l ↔ s.waitingFor t = some m

theorem WaitQueue.frame (h : WaitQueue s m l) (hhead : (s'.mutex m).waitHead = (s.mutex m).waitHead)
    (htail : (s'.mutex m).waitTail = (s.mutex m).waitTail)
    (hnext : ∀ t, s.waitingFor t = some m → s'.next t = s.next t)
    (hwait : ∀ t, s'.waitingFor t = some m ↔ s.waitingFor t = some m) :
    WaitQueue s' m l where
  chain := by
    rw [hhead]
    exact h.chain.congr fun t ht => hnext t ((h.waiters t).mp ht)
  tail := htail.trans h.tail
  waiters := fun t => (h.waiters t).trans (hwait t).symm

theorem WaitQueue.length_le (h : WaitQueue s m l)
    (hbound : ∀ t, s.waitingFor t = some m → t < s.taskCount) : l.length < s.bound := by
  have hsub : l ⊆ List.range s.taskCount := fun t ht =>
    mem_range.mpr (hbound t ((h.waiters t).mp ht))
  have hle := (h.chain.nodup.subperm hsub).length_le
  rw [length_range] at hle
  exact Nat.lt_succ_of_le hle

theorem WaitQueue.block (h : WaitQueue s m l) (hself : s.waitingFor self = none) :
    WaitQueue (s.block self m) m (l ++ [self]) where
  chain := by
    have hnot : self ∉ l := by
      rw [h.waiters, hself]
      exact nofun
    have happend := h.chain.append hnot
    rw [← h.tail] at happend
    simpa [PiSys.block] using happend
  tail := by
    simp [PiSys.block]
  waiters := by
    intro t
    by_cases ht : t = self
    · simp [PiSys.block, ht]
    · simp [PiSys.block, ht, h.waiters t]

def unlinked (s : PiSys) (m best : Nat) (slot : Option Nat) : (Nat → Option Nat) × Option Nat :=
  let link := setLink s.next (s.mutex m).waitHead slot (s.next best)
  (update link.1 best none, link.2)

/-! ## The best waiter -/

theorem foldl_last (l : List Nat) :
    ∀ p : Option Nat, l.foldl (fun _ t => some t) p = l.getLast?.or p := by
  induction l with
  | nil => exact fun p => rfl
  | cons a l ih =>
    intro p
    rw [foldl_cons, ih, getLast?_cons]
    cases l.getLast? <;> rfl

theorem foldl_pickWaiter (eff : Nat → Nat) (hl : l ≠ []) : ∃ best l₁ l₂, l = l₁ ++ best :: l₂ ∧
      (∀ u ∈ l₁, eff u < eff best) ∧ (∀ u ∈ l₂, eff u ≤ eff best) ∧
      l.foldl (PiSys.pickWaiter eff) (none, none) = (l.getLast?, some (best, l₁.getLast?)) := by
  induction l using List.reverseRecOn with
  | nil => exact absurd rfl hl
  | append_singleton l a ih =>
    rw [foldl_append, foldl_cons, foldl_nil, getLast?_concat]
    by_cases hnil : l = []
    · subst hnil
      exact ⟨a, [], [], rfl, nofun, nofun, rfl⟩
    obtain ⟨best, l₁, l₂, heq, h₁, h₂, hfold⟩ := ih hnil
    rw [hfold]
    by_cases ha : eff a > eff best
    · refine ⟨a, l, [], rfl, fun u hu => ?_, nofun, ?_⟩
      · have hle : eff u ≤ eff best := by
          rw [heq] at hu
          rcases mem_append.mp hu with hu | hu
          · exact Nat.le_of_lt (h₁ u hu)
          rcases mem_cons.mp hu with rfl | hu
          · exact Nat.le_refl _
          · exact h₂ u hu
        exact Nat.lt_of_le_of_lt hle ha
      · simp [PiSys.pickWaiter, ha]
    refine ⟨best, l₁, l₂ ++ [a], ?_, h₁, fun u hu => ?_, ?_⟩
    · rw [heq, append_assoc, cons_append]
    · rcases mem_append.mp hu with hu | hu
      · exact h₂ u hu
      · rw [mem_singleton.mp hu]
        omega
    · simp [PiSys.pickWaiter, ha]

theorem eff_raise (k : Kernel) (t priority : Nat) :
    (PiSys.raiseInheritedPriority k t priority).eff = k.eff := by
  funext u
  unfold PiSys.raiseInheritedPriority
  split
  · by_cases hu : u = t
    · subst hu
      rw [Sched.eff_setTask_self]
      rfl
    · rw [Sched.eff_setTask_of_ne _ _ hu]
  · rfl

def inherit (best : Nat) (k : Kernel) (l : List Nat) : Kernel :=
  l.foldl (fun k t => PiSys.raiseInheritedPriority k best (k.eff t)) k

theorem eff_inherit (best : Nat) (k : Kernel) (l : List Nat) : (inherit best k l).eff = k.eff := by
  induction l generalizing k with
  | nil => rfl
  | cons a l ih =>
    simp only [inherit, foldl_cons] at ih ⊢
    rw [ih, eff_raise]

/-! ## Unlocking -/

theorem getLast?_unlink (h : (l₁ ++ a :: l₂).getLast? ≠ some a) :
    (l₁ ++ a :: l₂).getLast? = (l₁ ++ l₂).getLast? := by
  rcases eq_nil_or_concat' l₂ with rfl | ⟨l₂, b, rfl⟩
  · simp at h
  · simp [getLast?_cons]

theorem passOn_empty (h : WaitQueue s m [])
    (hbound : 0 < s.bound) : s.passOn m = some (s.free m) := by
  have hfold := h.chain.foldChain_eq (PiSys.pickWaiter s.kernel.eff) (none, none) hbound
  simp [PiSys.passOn, hfold]

def PiSys.handedTo (s : PiSys) (m best : Nat) (l₁ l₂ : List Nat) : PiSys :=
  s.handOff m best (unlinked s m best l₁.getLast?) (l₁ ++ l₂).getLast?
    (inherit best s.kernel (l₁ ++ l₂))

theorem WaitQueue.handedTo (h : WaitQueue s m (l₁ ++ best :: l₂)) :
    WaitQueue (s.handedTo m best l₁ l₂) m (l₁ ++ l₂) where
  chain := by
    simpa [PiSys.handedTo, PiSys.handOff, PiSys.noteMutexAcquired, unlinked] using h.chain.unlink
  tail := by
    simp [PiSys.handedTo, PiSys.handOff, PiSys.noteMutexAcquired]
  waiters := by
    intro t
    have hnodup := nodup_middle.mp h.chain.nodup
    by_cases ht : t = best
    · subst ht
      have hnot := (nodup_cons.mp hnodup).1
      simpa [PiSys.handedTo, PiSys.handOff, PiSys.noteMutexAcquired] using hnot
    have hmem := h.waiters t
    simp only [mem_append, mem_cons, ht, false_or] at hmem
    simpa [PiSys.handedTo, PiSys.handOff, PiSys.noteMutexAcquired, update_of_ne ht] using hmem

theorem passOn_spec (h : WaitQueue s m l) (hl : l ≠ []) (hbound : l.length < s.bound) :
    ∃ best l₁ l₂, l = l₁ ++ best :: l₂ ∧ (∀ u ∈ l₁, s.kernel.eff u < s.kernel.eff best) ∧
      (∀ u ∈ l₂, s.kernel.eff u ≤ s.kernel.eff best) ∧
      s.passOn m = some (s.handedTo m best l₁ l₂) := by
  obtain ⟨best, l₁, l₂, heq, h₁, h₂, hpick⟩ := foldl_pickWaiter s.kernel.eff hl
  have hchain := h.chain
  have htail := h.tail
  have hfound := hchain.foldChain_eq (PiSys.pickWaiter s.kernel.eff) (none, none) hbound
  rw [hpick] at hfound
  subst heq
  have hlength : (l₁ ++ l₂).length < s.bound := by
    simp only [length_append, length_cons] at hbound ⊢
    omega
  have hdisj : ∀ a ∈ l₁, a ∉ l₂ := fun a ha ha₂ =>
    (nodup_append.mp hchain.nodup).2.2 a ha a (mem_cons_of_mem best ha₂) rfl
  have hlast := (hchain.splice hchain.behind hdisj).foldChain_eq
    (fun _ t => some t) (none : Option Nat) hlength
  have hraise := hchain.unlink.foldChain_eq
    (fun k t => PiSys.raiseInheritedPriority k best (k.eff t)) s.kernel hlength
  have hnewTail : s.newTail m best (setLink s.next (s.mutex m).waitHead l₁.getLast? (s.next best)) =
        some (l₁ ++ l₂).getLast? := by
    unfold PiSys.newTail
    split
    · rw [hlast, foldl_last, Option.or_none]
    rename_i hne
    rw [htail] at hne ⊢
    rw [getLast?_unlink hne]
  refine ⟨best, l₁, l₂, rfl, h₁, h₂, ?_⟩
  simp only [PiSys.passOn, hfound, hnewTail, hraise, PiSys.handedTo, unlinked,
    inherit, Option.bind_eq_bind, Option.bind_some]

end SlmOs.Ipc
