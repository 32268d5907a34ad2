import SlmOs.Foundation.Scan
import SlmOs.Ipc.PiMutex

/-!
# Who owns a mutex

`Ownership` ties the fields of the mutexes, the counters of the tasks and the
links of the wait queues together.  Every step writes one mutex, and
`Ownership.write` says what it has to take care of.  The invariant holds in every
state that can be reached as long as the counters, which are bytes, suffice.
-/

namespace SlmOs.Ipc

open Function Foundation List Option PiSys
open Sched (Kernel)

/-! ## The invariant -/

def PiSys.owned (s : PiSys) (t : Nat) : Nat :=
  (range s.mutexCount).countP fun m => (s.mutex m).owner = some t

structure Ownership (s : PiSys) : Prop where
  locked : ∀ m, (s.mutex m).locked = true ↔ ∃ t, (s.mutex m).owner = some t
  held : ∀ t, s.held t = s.owned t
  queue : ∀ m, ∃ l, WaitQueue s m l
  contended : ∀ t m, s.waitingFor t = some m → t < s.taskCount ∧ (s.mutex m).locked = true

structure Queued (s : PiSys) : Prop where
  locked : ∀ m, (s.mutex m).locked = true ↔ ∃ t, (s.mutex m).owner = some t
  queue : ∀ m, ∃ l, WaitQueue s m l
  contended : ∀ t m, s.waitingFor t = some m → t < s.taskCount ∧ (s.mutex m).locked = true

def Counted (s : PiSys) : Prop := ∀ t, s.held t = s.owned t % 256

/-- The owner of `m` shows a count of at most one only if that is right. -/
def CountRight (s : PiSys) (m : Nat) : Prop :=
  ∀ o, (s.mutex m).owner = some o → s.held o ≤ 1 → s.owned o = 1

theorem Queued.ownership (h : Queued s) (hcount : Counted s)
    (hfew : ∀ t, s.owned t ≤ 255) : Ownership s where
  locked := h.locked
  held := by
    intro t
    rw [hcount t]
    exact Nat.mod_eq_of_lt (Nat.lt_succ_of_le (hfew t))
  queue := h.queue
  contended := h.contended

/-! ## Counting mutexes -/

theorem owned_update {s s' : PiSys} {m : Nat} {x : PiMutex} (hm : m < s.mutexCount)
    (hcount : s'.mutexCount = s.mutexCount) (hmutex : s'.mutex = update s.mutex m x) (t : Nat) :
    s'.owned t + (if (s.mutex m).owner = some t then 1 else 0) =
      s.owned t + (if x.owner = some t then 1 else 0) := by
  have hchange := countP_change (p := fun i => decide ((s.mutex i).owner = some t))
    (q := fun i => decide ((s'.mutex i).owner = some t))
    (fun i (hi : i ≠ m) => by simp [hmutex, update_of_ne hi]) nodup_range (mem_range.mpr hm)
  rw [owned, owned, hcount]
  simpa [hmutex, Bool.toNat, Bool.cond_decide] using hchange

theorem owned_congr {s s' : PiSys} (hcount : s'.mutexCount = s.mutexCount)
    (howner : ∀ m, (s'.mutex m).owner = (s.mutex m).owner) (t : Nat) : s'.owned t = s.owned t := by
  rw [owned, owned, hcount]
  exact countP_congr fun m _ => by rw [howner m]

theorem owned_pos {s : PiSys} {m t : Nat} (hm : m < s.mutexCount)
    (howner : (s.mutex m).owner = some t) : 0 < s.owned t :=
  countP_pos_iff.mpr ⟨m, mem_range.mpr hm, by simpa using howner⟩

/-! ## Every step keeps the queues -/

theorem WaitQueue.kernel (h : WaitQueue s m l) (k : Kernel) (held : Nat → Nat) :
    WaitQueue { s with kernel := k, held := held } m l :=
  ⟨h.chain, h.tail, h.waiters⟩

theorem releaseOwner_eq (s : PiSys) (m : Nat) : s.releaseOwner m = { s with
      kernel := (s.releaseOwner m).kernel
      held := (s.releaseOwner m).held } := by
  unfold releaseOwner
  split <;> rfl

namespace Queued

variable {s : PiSys} {m self : Nat}

section

variable (h : Queued s)
include h

theorem length_lt (hqueue : WaitQueue s m l) : l.length < s.bound :=
  hqueue.length_le fun t ht => (h.contended t m ht).1

theorem kernel (k : Kernel) (held : Nat → Nat) : Queued { s with kernel := k, held := held } where
  locked := h.locked
  queue := fun m => (h.queue m).imp fun _ hqueue => hqueue.kernel k held
  contended := h.contended

theorem released : Queued (s.releaseOwner m) := by
  rw [releaseOwner_eq]
  exact h.kernel _ _

/-- A step that writes the mutex `m` and the tasks that wait for it. -/
theorem write (hcount : s'.taskCount = s.taskCount) (hmutex : s'.mutex = update s.mutex m x)
    (hlocked : x.locked = true ↔ ∃ t, x.owner = some t)
    (hnext : ∀ t i, i ≠ m → s.waitingFor t = some i → s'.next t = s.next t)
    (hwait : ∀ t i, i ≠ m → (s'.waitingFor t = some i ↔ s.waitingFor t = some i))
    (hqueue : ∃ l, WaitQueue s' m l)
    (hcontended : ∀ t, s'.waitingFor t = some m → t < s.taskCount ∧ x.locked = true) :
    Queued s' := by
  have hself : s'.mutex m = x := by simp [hmutex]
  have hother : ∀ i, i ≠ m → s'.mutex i = s.mutex i := fun i hi => by
    simp [hmutex, hi]
  constructor
  · intro i
    by_cases hi : i = m
    · simpa [hi, hself] using hlocked
    · simpa [hother i hi] using h.locked i
  · intro i
    by_cases hi : i = m
    · simpa [hi] using hqueue
    obtain ⟨l, hq⟩ := h.queue i
    exact ⟨l, hq.frame (by rw [hother i hi]) (by rw [hother i hi])
      (fun t => hnext t i hi) fun t => hwait t i hi⟩
  intro t i ht
  by_cases hi : i = m
  · subst hi
    simpa [hcount, hself] using hcontended t ht
  · simpa [hcount, hother i hi] using h.contended t i ((hwait t i hi).mp ht)

theorem acquire : Queued (s.acquire self m) := by
  obtain ⟨l, hqueue⟩ := h.queue m
  refine h.write rfl rfl (by simp) (fun _ _ _ _ => rfl) (fun _ _ _ => Iff.rfl)
    ⟨l, hqueue.frame ?_ ?_ (fun _ _ => rfl) fun _ => Iff.rfl⟩
    fun t ht => ⟨(h.contended t m ht).1, rfl⟩ <;> simp [PiSys.acquire, PiSys.noteMutexAcquired]

theorem block (hlocked : (s.mutex m).locked = true) (hself : s.waitingFor self = none)
    (hlt : self < s.taskCount) : Queued (s.block self m) := by
  have hothers : ∀ t, t ≠ self → (s.block self m).waitingFor t = s.waitingFor t := fun t ht =>
    update_of_ne ht _ _
  obtain ⟨l, hqueue⟩ := h.queue m
  refine h.write rfl rfl (h.locked m) (fun t i hi ht => ?_)
    (fun t i hi => ?_) ⟨_, hqueue.block hself⟩ fun t ht => ⟨?_, hlocked⟩
  · -- the only links written are those of the caller and of a waiter of `m`
    have hne : t ≠ self := by
      rintro rfl
      simp [hself] at ht
    have htail : (s.mutex m).waitTail ≠ some t := by
      intro heq
      have hmem : t ∈ l := mem_of_getLast? (hqueue.tail ▸ heq)
      rw [(hqueue.waiters t).mp hmem] at ht
      exact hi (some.inj ht).symm
    simp only [PiSys.block]
    rw [setLink_of_ne htail, update_of_ne hne]
  · by_cases ht : t = self
    · subst ht
      simp [PiSys.block, hself, Ne.symm hi]
    · rw [hothers t ht]
  by_cases hts : t = self
  · rw [hts]
    exact hlt
  rw [hothers t hts] at ht
  exact (h.contended t m ht).1

theorem free (hqueue : WaitQueue s m []) : Queued (s.free m) := by
  refine h.write rfl rfl (by simp) (fun _ _ _ _ => rfl) (fun _ _ _ => Iff.rfl)
    ⟨[], hqueue.frame ?_ ?_ (fun _ _ => rfl) fun _ => Iff.rfl⟩ fun t ht => ?_
  · simp [PiSys.free]
  · simp [PiSys.free]
  · exact absurd ((hqueue.waiters t).mpr ht) not_mem_nil

theorem handedTo (hqueue : WaitQueue s m (l₁ ++ best :: l₂)) :
    Queued (s.handedTo m best l₁ l₂) := by
  have hbest : s.waitingFor best = some m := (hqueue.waiters best).mp (by simp)
  have hnone : (s.handedTo m best l₁ l₂).waitingFor best = none := update_self _ _ _
  have hothers : ∀ t, t ≠ best → (s.handedTo m best l₁ l₂).waitingFor t = s.waitingFor t :=
    fun t ht => update_of_ne ht _ _
  have hlocked : (s.mutex m).locked = true := (h.contended best m hbest).2
  refine h.write rfl rfl (by simpa using hlocked) (fun t i hi ht => ?_)
    (fun t i hi => ?_) ⟨_, hqueue.handedTo⟩ fun t ht => ⟨?_, hlocked⟩
  · -- links are written only in the queue of `m`
    have hother : ∀ u ∈ l₁ ++ best :: l₂, t ≠ u := by
      rintro u hu rfl
      rw [(hqueue.waiters t).mp hu] at ht
      exact hi (some.inj ht).symm
    have hslot : l₁.getLast? ≠ some t := fun heq =>
      hother t (mem_append_left _ (mem_of_getLast? heq)) rfl
    change update (setLink s.next _ _ _).1 best none t = s.next t
    rw [update_of_ne (hother best (by simp)), setLink_of_ne hslot]
  · by_cases htb : t = best
    · subst htb
      simp [hnone, hbest, Ne.symm hi]
    · rw [hothers t htb]
  have htb : t ≠ best := by
    rintro rfl
    simp [hnone] at ht
  rw [hothers t htb] at ht
  exact (h.contended t m ht).1

theorem unlock_cases (m : Nat) : ∃ l, WaitQueue s m l ∧
      ((l = [] ∧ s.piMutexUnlock m = some ((s.releaseOwner m).free m)) ∨
        ∃ best l₁ l₂, l = l₁ ++ best :: l₂ ∧ (∀ u ∈ l₁, (s.releaseOwner m).kernel.eff u <
            (s.releaseOwner m).kernel.eff best) ∧
          (∀ u ∈ l₂, (s.releaseOwner m).kernel.eff u ≤ (s.releaseOwner m).kernel.eff best) ∧
          s.piMutexUnlock m = some ((s.releaseOwner m).handedTo m best l₁ l₂)) := by
  obtain ⟨l, hqueue⟩ := h.queue m
  have hreleased : WaitQueue (s.releaseOwner m) m l := by
    rw [releaseOwner_eq]
    exact hqueue.kernel _ _
  have hbound := h.released.length_lt hreleased
  refine ⟨l, hqueue, ?_⟩
  by_cases hl : l = []
  · subst hl
    exact .inl ⟨rfl, passOn_empty hreleased hbound⟩
  obtain ⟨best, l₁, l₂, heq, h₁, h₂, hpass⟩ := passOn_spec hreleased hl hbound
  exact .inr ⟨best, l₁, l₂, heq, h₁, h₂, hpass⟩

end

theorem released_queue (hqueue : WaitQueue s m l) : WaitQueue (s.releaseOwner m) m l := by
  rw [releaseOwner_eq]
  exact hqueue.kernel _ _

theorem unlock (h : Queued s) (hstep : s.piMutexUnlock m = some s') : Queued s' := by
  obtain ⟨l, hqueue, ⟨rfl, heq⟩ | ⟨best, l₁, l₂, rfl, -, -, heq⟩⟩ := h.unlock_cases m
  · rw [hstep, some.injEq] at heq
    subst heq
    exact h.released.free (released_queue hqueue)
  rw [hstep, some.injEq] at heq
  subst heq
  exact h.released.handedTo (released_queue hqueue)

theorem lock (h : Queued s) (hself : s.waitingFor self = none)
    (hlt : self < s.taskCount) : Queued (s.piMutexLock self m) := by
  unfold piMutexLock
  cases hlocked : (s.mutex m).locked with
  | false => exact h.acquire
  | true =>
    simp only [Bool.not_true, Bool.false_eq_true, if_false]
    exact (h.kernel _ s.held).block hlocked hself hlt

theorem trylock (h : Queued s) : Queued (s.piMutexTrylock self m).1 := by
  unfold piMutexTrylock
  cases (s.mutex m).locked with
  | false => exact h.acquire
  | true => exact h

theorem sched (h : Queued s) (k : Kernel) (next : Nat → Option Nat) : Queued
      { s with
        kernel := k
        next := fun t =>
          if s.waitingFor t = none then next t else s.next t } where
  locked := h.locked
  queue := by
    intro m
    obtain ⟨l, hqueue⟩ := h.queue m
    refine ⟨l, hqueue.frame rfl rfl (fun t ht => ?_) fun _ => Iff.rfl⟩
    simp [ht]
  contended := h.contended

end Queued

/-! ## Every step keeps the counters -/

namespace Counted

variable {s : PiSys} {m self : Nat}

section

variable (h : Counted s)
include h

theorem acquire (hqueued : Queued s) (hfree : (s.mutex m).locked = false) (hm : m < s.mutexCount) :
    Counted (s.acquire self m) := by
  intro t
  have hnone : (s.mutex m).owner ≠ some t := fun howner => by
    simp [(hqueued.locked m).mpr ⟨t, howner⟩] at hfree
  have hcount : (s.acquire self m).mutexCount = s.mutexCount := rfl
  have howned := owned_update hm hcount rfl t
  have hheld := h t
  rw [if_neg hnone] at howned
  by_cases ht : t = self
  · subst ht
    have hbyte : (s.acquire t m).held t = (s.held t + 1) % 256 := update_self _ _ _
    simp only [if_true] at howned
    omega
  have hsame : (s.acquire self m).held t = s.held t := update_of_ne ht _ _
  rw [if_neg fun heq => ht (some.inj heq).symm] at howned
  omega

theorem block : Counted (s.block self m) := by
  intro t
  have hcount : (s.block self m).mutexCount = s.mutexCount := rfl
  have howned : (s.block self m).owned t = s.owned t := by
    refine owned_congr hcount (fun i => ?_) t
    by_cases hi : i = m
    · subst hi
      simp [PiSys.block]
    · simp [PiSys.block, hi]
  rw [howned]
  exact h t

theorem released (hright : CountRight s m) (t : Nat) : (s.releaseOwner m).held t =
      (s.owned t - if (s.mutex m).owner = some t then 1 else 0) % 256 := by
  have hheld := h t
  unfold releaseOwner
  cases howner : (s.mutex m).owner with
  | none => simpa using hheld
  | some owner =>
    by_cases ht : t = owner
    · subst ht
      have hone := hright t howner
      simp only [update_self, if_true]
      split <;> omega
    · simpa [update_of_ne ht, Ne.symm ht] using hheld

theorem unlock {s' : PiSys} (hqueued : Queued s) (hm : m < s.mutexCount) (hright : CountRight s m)
    (hstep : s.piMutexUnlock m = some s') : Counted s' := by
  have hmutex : (s.releaseOwner m).mutex = s.mutex := by
    rw [releaseOwner_eq]
  have hcount : (s.releaseOwner m).mutexCount = s.mutexCount := by
    rw [releaseOwner_eq]
  intro t
  have hheld := h.released hright t
  have hpos : (s.mutex m).owner = some t → 0 < s.owned t := owned_pos hm
  obtain ⟨l, -, ⟨-, heq⟩ | ⟨best, l₁, l₂, -, -, -, heq⟩⟩ := hqueued.unlock_cases m
  · rw [hstep, some.injEq] at heq
    subst heq
    have hwrite : ((s.releaseOwner m).free m).mutex = update s.mutex m
          { s.mutex m with owner := none, locked := false } := by
      rw [PiSys.free, hmutex]
    have hcount' : ((s.releaseOwner m).free m).mutexCount = s.mutexCount := hcount
    have howned := owned_update hm hcount' hwrite t
    have hsame : ((s.releaseOwner m).free m).held t = (s.releaseOwner m).held t := rfl
    split at hheld
    · simp_all
      omega
    · simp_all
  rw [hstep, some.injEq] at heq
  subst heq
  have hwrite : ((s.releaseOwner m).handedTo m best l₁ l₂).mutex = update s.mutex m
        { s.mutex m with
          owner := some best
          waitHead := (unlinked (s.releaseOwner m) m best l₁.getLast?).2
          waitTail := (l₁ ++ l₂).getLast? } := by
    rw [PiSys.handedTo, PiSys.handOff, PiSys.noteMutexAcquired, hmutex]
  have hcount' : ((s.releaseOwner m).handedTo m best l₁ l₂).mutexCount = s.mutexCount := hcount
  have howned := owned_update hm hcount' hwrite t
  by_cases htb : t = best
  · subst htb
    have hbyte : ((s.releaseOwner m).handedTo m t l₁ l₂).held t =
        ((s.releaseOwner m).held t + 1) % 256 := update_self _ _ _
    split at hheld
    · simp_all
      omega
    · simp_all
  have hsame : ((s.releaseOwner m).handedTo m best l₁ l₂).held t =
      (s.releaseOwner m).held t := update_of_ne htb _ _
  rw [if_neg fun heq => htb (some.inj heq).symm] at howned
  split at hheld
  · simp_all
    omega
  · simp_all

end

end Counted

/-! ## Runs -/

def HoldsFew (s : PiSys) (a : PiAction) : Prop :=
  ∀ s', piStep s a = some s' → ∀ t, s'.owned t ≤ 255

theorem PiSys.canCall_iff {s : PiSys} {self m : Nat} : s.canCall self m = true ↔
      self < s.taskCount ∧ m < s.mutexCount ∧ s.waitingFor self = none := by
  simp [canCall]

variable {s' : PiSys}

theorem piStep_lock {s : PiSys} {self m : Nat} : piStep s (.lock self m) = some s' ↔
      (self < s.taskCount ∧ m < s.mutexCount ∧ s.waitingFor self = none) ∧
        s.piMutexLock self m = s' := by
  simp [piStep, canCall_iff]

theorem piStep_trylock {s : PiSys} {self m : Nat} : piStep s (.trylock self m) = some s' ↔
      (self < s.taskCount ∧ m < s.mutexCount ∧ s.waitingFor self = none) ∧
        (s.piMutexTrylock self m).1 = s' := by
  simp [piStep, canCall_iff]

theorem piStep_unlock {s : PiSys} {caller m : Nat} : piStep s (.unlock caller m) = some s' ↔
      (caller < s.taskCount ∧ m < s.mutexCount ∧
        s.waitingFor caller = none) ∧ s.piMutexUnlock m = some s' := by
  simp [piStep, canCall_iff]

theorem piStep_publish : piStep s (.publish t) = some s' ↔ t ∈ s.woken ∧
      { s with
        woken := s.woken.erase t
        kernel := Sched.schedulerAddTaskToCpu s.kernel t (s.kernel.task t).assignedCpu } = s' := by
  simp [piStep]

variable {a : PiAction}

theorem Queued.step {s : PiSys} (h : Queued s) (hstep : piStep s a = some s') : Queued s' := by
  cases a with
  | lock self m =>
    obtain ⟨⟨hlt, -, hself⟩, rfl⟩ := piStep_lock.mp hstep
    exact h.lock hself hlt
  | trylock self m =>
    obtain ⟨-, rfl⟩ := piStep_trylock.mp hstep
    exact h.trylock
  | unlock caller m =>
    obtain ⟨-, heq⟩ := piStep_unlock.mp hstep
    exact h.unlock heq
  | publish t =>
    obtain ⟨-, rfl⟩ := piStep_publish.mp hstep
    exact ⟨h.locked, fun m => (h.queue m).imp fun _ hq =>
      ⟨hq.chain, hq.tail, hq.waiters⟩, h.contended⟩
  | sched k next =>
    cases hstep
    exact h.sched k next

theorem Counted.step {s : PiSys} (h : Counted s) (hqueued : Queued s)
    (hright : ∀ caller m, a = .unlock caller m → CountRight s m)
    (hstep : piStep s a = some s') : Counted s' := by
  cases a with
  | lock self m =>
    obtain ⟨⟨-, hm, -⟩, rfl⟩ := piStep_lock.mp hstep
    unfold piMutexLock
    cases hlocked : (s.mutex m).locked with
    | false => exact h.acquire hqueued hlocked hm
    | true => exact block h
  | trylock self m =>
    obtain ⟨⟨-, hm, -⟩, rfl⟩ := piStep_trylock.mp hstep
    unfold piMutexTrylock
    cases hlocked : (s.mutex m).locked with
    | false => exact h.acquire hqueued hlocked hm
    | true => exact h
  | unlock caller m =>
    obtain ⟨⟨-, hm, -⟩, heq⟩ := piStep_unlock.mp hstep
    exact h.unlock hqueued hm (hright caller m rfl) heq
  | publish t =>
    obtain ⟨-, rfl⟩ := piStep_publish.mp hstep
    exact h
  | sched k next =>
    cases hstep
    exact h

theorem CountRight.of_few {s : PiSys} {m : Nat} (h : Counted s) (hm : m < s.mutexCount)
    (hfew : ∀ t, s.owned t ≤ 255) : CountRight s m := by
  intro o howner hle
  have hheld := h o
  have hpos := owned_pos hm howner
  have ho := hfew o
  omega

theorem Queued.waiter (h : Queued s) (hstep : piStep s a = some s') (ht : s.waitingFor t = some m) :
    s'.waitingFor t = some m ∨ (s'.waitingFor t = none ∧ (s'.mutex m).owner = some t) := by
  cases a with
  | lock self i =>
    obtain ⟨⟨-, -, hself⟩, rfl⟩ := piStep_lock.mp hstep
    have hne : t ≠ self := by
      rintro rfl
      rw [hself] at ht
      cases ht
    left
    unfold piMutexLock
    split
    · exact ht
    · simpa [PiSys.block, update_of_ne hne] using ht
  | trylock self i =>
    obtain ⟨-, rfl⟩ := piStep_trylock.mp hstep
    left
    unfold piMutexTrylock
    split <;> exact ht
  | unlock caller i =>
    obtain ⟨-, heq⟩ := piStep_unlock.mp hstep
    have hwait : (s.releaseOwner i).waitingFor = s.waitingFor := by
      rw [releaseOwner_eq]
    obtain ⟨l, hqueue, ⟨-, hfree⟩ | ⟨best, l₁, l₂, rfl, -, -, hgive⟩⟩ := h.unlock_cases i
    · rw [heq, some.injEq] at hfree
      subst hfree
      exact .inl (by simpa [PiSys.free, hwait] using ht)
    rw [heq, some.injEq] at hgive
    subst hgive
    by_cases htb : t = best
    · subst htb
      have hwait := (hqueue.waiters t).mp (by simp)
      rw [ht, some.injEq] at hwait
      subst hwait
      exact .inr ⟨update_self _ _ _, by
        simp [PiSys.handedTo, PiSys.handOff, PiSys.noteMutexAcquired]⟩
    left
    simpa [PiSys.handedTo, PiSys.handOff, PiSys.noteMutexAcquired, update_of_ne htb, hwait] using ht
  | publish u =>
    obtain ⟨-, rfl⟩ := piStep_publish.mp hstep
    exact .inl ht
  | sched k next =>
    cases hstep
    exact .inl ht

theorem Queued.best (h : Queued s) (hstep : piStep s (.unlock caller m) = some s')
    (hqueue : WaitQueue s m l) (hl : l ≠ []) :
    ∃ best l₁ l₂, l = l₁ ++ best :: l₂ ∧ (s'.mutex m).owner = some best ∧
      WaitQueue s' m (l₁ ++ l₂) ∧
      (∀ u ∈ l₁, s'.kernel.eff u < s'.kernel.eff best) ∧
      ∀ u ∈ l₂, s'.kernel.eff u ≤ s'.kernel.eff best := by
  obtain ⟨-, heq⟩ := piStep_unlock.mp hstep
  obtain ⟨l', hqueue', hcases⟩ := h.unlock_cases m
  obtain rfl := hqueue.chain.unique hqueue'.chain
  obtain ⟨hnil, -⟩ | ⟨best, l₁, l₂, rfl, h₁, h₂, hgive⟩ := hcases
  · exact absurd hnil hl
  rw [heq, some.injEq] at hgive
  subst hgive
  have heff : ((s.releaseOwner m).handedTo m best l₁ l₂).kernel.eff =
      (s.releaseOwner m).kernel.eff := by
    rw [← eff_inherit best (s.releaseOwner m).kernel (l₁ ++ l₂)]
    funext u
    exact Sched.setState_effectivePriority _ best u .ready
  rw [heff]
  exact ⟨best, l₁, l₂, rfl, by
    simp [PiSys.handedTo, PiSys.handOff, PiSys.noteMutexAcquired],
    (Queued.released_queue hqueue).handedTo, h₁, h₂⟩

/-- All mutexes are as `pi_mutex_init` leaves them, and no task is in a call. -/
def PiSys.Fresh (s : PiSys) : Prop :=
  (∀ m, s.mutex m = piMutexInit) ∧ (∀ t, s.held t = 0) ∧ ∀ t, s.waitingFor t = none

theorem PiSys.Fresh.queued (h : s.Fresh) : Queued s := by
  obtain ⟨hmutex, -, hwait⟩ := h
  constructor
  · simp [hmutex, piMutexInit]
  · intro m
    exact ⟨[], by rw [hmutex]; rfl, by rw [hmutex]; rfl, by simp [hwait]⟩
  · simp [hwait]

theorem PiSys.Fresh.owned_eq {s : PiSys} (h : s.Fresh) (t : Nat) : s.owned t = 0 :=
  countP_eq_zero.mpr fun m _ => by simp [h.1 m, piMutexInit]

theorem PiSys.Fresh.counted {s : PiSys} (h : s.Fresh) : Counted s := by
  intro t
  rw [h.owned_eq, h.2.1]

/--
In every run in which no task comes to own more than 255 mutexes: the fields of
every mutex agree, the counters of the tasks are right, the wait queue of a mutex
is a list of exactly the tasks blocked on it in the order of arrival, and an
unlock hands the mutex to the first of its best waiters.
-/
theorem mutex_owned_by_best_waiter {s₀ s : PiSys} (hfresh : s₀.Fresh)
    (hrun : Run piStep HoldsFew s₀ s) :
    (∀ m, (s.mutex m).locked = true ↔ ∃ t, (s.mutex m).owner = some t) ∧
    (∀ m t u, (s.mutex m).owner = some t → (s.mutex m).owner = some u → t = u) ∧
    (∀ t, s.held t = s.owned t) ∧
    (∀ m, ∃ l, l.Nodup ∧ WaitQueue s m l) ∧
    (∀ caller m, s.canCall caller m = true → ∃ s', piStep s (.unlock caller m) = some s') ∧
    (∀ caller m s' l, piStep s (.unlock caller m) = some s' → WaitQueue s m l → l ≠ [] →
      ∃ best l₁ l₂, l = l₁ ++ best :: l₂ ∧ (s'.mutex m).owner = some best ∧
        WaitQueue s' m (l₁ ++ l₂) ∧
        (∀ u ∈ l₁, s'.kernel.eff u < s'.kernel.eff best) ∧
        ∀ u ∈ l₂, s'.kernel.eff u ≤ s'.kernel.eff best) ∧
    (∀ self m s' l, piStep s (.lock self m) = some s' →
      (s.mutex m).locked = true → WaitQueue s m l →
      WaitQueue s' m (l ++ [self])) ∧
    (∀ a s' t m, piStep s a = some s' → s.waitingFor t = some m → s'.waitingFor t = some m ∨
        (s'.waitingFor t = none ∧ (s'.mutex m).owner = some t)) := by
  have hinv : Queued s ∧ Counted s ∧ ∀ t, s.owned t ≤ 255 := by
    refine Run.invariant (I := fun s => Queued s ∧ Counted s ∧ ∀ t, s.owned t ≤ 255)
      (fun s a s' h hok hstep => ?_)
      ⟨hfresh.queued, hfresh.counted, fun t => ?_⟩ hrun
    · obtain ⟨hqueued, hcount, hfew⟩ := h
      refine ⟨hqueued.step hstep, hcount.step hqueued ?_ hstep, hok s' hstep⟩
      rintro caller m rfl
      have hm := (piStep_unlock.mp hstep).1.2.1
      exact .of_few hcount hm hfew
    · simp [hfresh.owned_eq]
  obtain ⟨h, hcount, hfew⟩ := hinv
  refine ⟨h.locked, fun m t u ht hu => ?_, (h.ownership hcount hfew).held, fun m => ?_,
    fun caller m hcall => ?_, fun caller m s' l hstep hqueue hl =>
      h.best hstep hqueue hl, fun self m s' l hstep hlocked hqueue => ?_,
    fun a s' t m hstep ht => h.waiter hstep ht⟩
  · exact some.inj (ht.symm.trans hu)
  · obtain ⟨l, hqueue⟩ := h.queue m
    exact ⟨l, hqueue.chain.nodup, hqueue⟩
  · obtain ⟨l, -, ⟨-, heq⟩ | ⟨best, l₁, l₂, -, -, -, heq⟩⟩ :=
      h.unlock_cases m <;> exact ⟨_, (if_pos hcall).trans heq⟩
  obtain ⟨⟨-, -, hself⟩, rfl⟩ := piStep_lock.mp hstep
  simp only [piMutexLock, hlocked, Bool.not_true, Bool.false_eq_true, if_false]
  exact (hqueue.kernel _ s.held).block hself

def threeTasks : PiSys where
  kernel := (Sched.machine 1).kernel
  taskCount := 3
  mutexCount := 1
  next := fun _ => none
  held := fun _ => 0
  mutex := fun _ => piMutexInit
  waitingFor := fun _ => none
  woken := []

theorem mutex_owned_by_best_waiter_three :
    ∃ s s', exec piStep threeTasks [.lock 0 0, .lock 1 0, .lock 2 0] =
        some s ∧ piStep s (.unlock 0 0) = some s' ∧
      ∃ best, s.waitingFor best = some 0 ∧ (s'.mutex 0).owner = some best := by
  have hfew : ∀ s' : PiSys, s'.mutexCount = 1 → ∀ t, s'.owned t ≤ 255 := by
    intro s' hcount t
    have hle : s'.owned t ≤ (range s'.mutexCount).length := countP_le_length
    rw [hcount, length_range] at hle
    omega
  have halong : Along piStep HoldsFew threeTasks [.lock 0 0, .lock 1 0, .lock 2 0] := by
    refine ⟨?_, ?_, ?_, trivial⟩
    all_goals
      rintro s' ⟨⟩
      exact hfew _ rfl
  have hrun : Run piStep HoldsFew threeTasks _ := run_of_exec _ _ _ _ _ halong rfl
  have hfresh : threeTasks.Fresh := ⟨fun _ => rfl, fun _ => rfl, fun _ => rfl⟩
  obtain ⟨-, -, -, hqueues, -, hbest, -⟩ := mutex_owned_by_best_waiter hfresh hrun
  obtain ⟨l, -, hqueue⟩ := hqueues 0
  have hone : 1 ∈ l := (hqueue.waiters 1).mpr rfl
  obtain ⟨best, l₁, l₂, rfl, howner, -⟩ := hbest 0 0 _ l rfl hqueue (ne_nil_of_mem hone)
  exact ⟨_, _, rfl, rfl, best, (hqueue.waiters best).mp (by simp), howner⟩

end SlmOs.Ipc
