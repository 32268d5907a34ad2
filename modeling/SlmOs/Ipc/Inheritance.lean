import SlmOs.Ipc.Ownership
import SlmOs.Sched.Floor

/-!
# The inherited floor of a mutex owner

A task that blocks on a mutex makes its priority a floor for the owner, and the
owner keeps the floor until it has released its last mutex.  The system here is
that of `pi_mutex.c` together with the operations of the scheduler that recompute
priorities, and it remembers with which priority each waiting task blocked.
-/

namespace SlmOs.Ipc

open Function Foundation Option PiSys Sched
open Sched (Kernel Off Parked PrioAction prioStep)

structure FloorSys where
  sys : PiSys
  /-- The effective priority that `try_boost_owner` read when the task blocked. -/
  blockedAt : Nat → Nat

namespace FloorSys

def running (s : FloorSys) (t : Nat) : Bool :=
  (s.sys.kernel.task t).state = .running ∧ Off s.sys.kernel t

end FloorSys

inductive FloorAction where
  | lock (self m : Nat)
  | trylock (self m : Nat)
  | unlock (self m : Nat)
  | publish (t : Nat)
  | prio (a : PrioAction) (next : Nat → Option Nat)

/-- A task blocked in a mutex is woken by a hand-off and by nothing else. -/
def FloorSys.mayPrio (s : FloorSys) : PrioAction → Bool
  | .refresh t => s.sys.waitingFor t = none
  | .setState t _ => s.sys.waitingFor t = none
  | .boost _ _ => false
  | .dropInherited _ => false
  | _ => true

def floorStep (s : FloorSys) : FloorAction → Option FloorSys
  | .lock self m =>
    if s.running self then
      (piStep s.sys (.lock self m)).map fun sys =>
        { sys := sys
          blockedAt :=
            if (s.sys.mutex m).locked then
              update s.blockedAt self (s.sys.kernel.eff self)
            else s.blockedAt }
    else none
  | .trylock self m =>
    if s.running self then
      (piStep s.sys (.trylock self m)).map fun sys => { s with sys := sys }
    else none
  | .unlock self m =>
    if s.running self ∧ (s.sys.mutex m).owner = some self then
      (piStep s.sys (.unlock self m)).map fun sys => { s with sys := sys }
    else none
  | .publish t =>
    (piStep s.sys (.publish t)).map fun sys => { s with sys := sys }
  | .prio a next =>
    if s.mayPrio a then
      (prioStep s.sys.kernel a).bind fun kernel =>
        (piStep s.sys (.sched kernel next)).map fun sys =>
          { s with sys := sys }
    else none

/-- An owner whose counter shows at most one releases its only mutex. -/
def FloorSafe (s : FloorSys) : FloorAction → Prop
  | .unlock _ m => CountRight s.sys m
  | _ => True

/-! ## The invariant -/

structure Floors (s : FloorSys) : Prop where
  queued : Queued s.sys
  counted : Counted s.sys
  inside : ∀ m t, (s.sys.mutex m).owner = some t → m < s.sys.mutexCount
  parked : ∀ w m, s.sys.waitingFor w = some m → Parked s.sys.kernel w
  rests : ∀ w m, s.sys.waitingFor w = some m → s.blockedAt w ≤ s.sys.kernel.eff w
  floor : ∀ t, s.sys.kernel.pi t ≤ s.sys.kernel.eff t
  unheld : ∀ t, s.sys.owned t = 0 → s.sys.kernel.pi t = 0
  covered : ∀ m o w, (s.sys.mutex m).owner = some o →
    s.sys.waitingFor w = some m → s.blockedAt w ≤ s.sys.kernel.pi o

structure LetGo (s : FloorSys) (k : Kernel) (t : Nat) : Prop where
  owner : k.pi t = s.sys.kernel.pi t ∧ 2 ≤ s.sys.owned t ∨ k.pi t = 0 ∧ s.sys.owned t = 1
  others : ∀ u, u ≠ t → k.pi u = s.sys.kernel.pi u
  floor : ∀ u, k.pi u ≤ k.eff u
  parked : ∀ w, Parked s.sys.kernel w → Parked k w
  rests : ∀ w, w ≠ t → k.eff w = s.sys.kernel.eff w

namespace Floors

section

variable (h : Floors s)
include h

theorem ne_of_waiting (hrun : s.running self = true)
    (hw : s.sys.waitingFor w = some i) : w ≠ self := by
  rintro rfl
  simp [FloorSys.running, (h.parked w i hw).1] at hrun

theorem benign (hcount : sys.mutexCount = s.sys.mutexCount) (hmutex : sys.mutex = s.sys.mutex)
    (hwait : sys.waitingFor = s.sys.waitingFor) (hqueued : Queued sys) (hcounted : Counted sys)
    (hany : ∃ w, Sched.Benign w s.sys.kernel sys.kernel)
    (hk : ∀ w m, s.sys.waitingFor w = some m → Sched.Benign w s.sys.kernel sys.kernel) :
    Floors { s with sys := sys } := by
  obtain ⟨u, hu⟩ := hany
  constructor
  · exact hqueued
  · exact hcounted
  · simpa [hmutex, hcount] using h.inside
  · intro w m hw
    simp only [hwait] at hw
    exact (hk w m hw).parked (h.parked w m hw)
  · intro w m hw
    simp only [hwait] at hw
    exact Nat.le_trans (h.rests w m hw) ((hk w m hw).rests (h.parked w m hw))
  · intro t
    simpa [hu.pi] using hu.floor t (h.floor t)
  · intro t ht
    have howned := owned_congr hcount (fun m => by rw [hmutex]) t
    simpa [hu.pi] using h.unheld t (howned.symm.trans ht)
  · simpa [hmutex, hwait, hu.pi] using h.covered

theorem acquire {m self : Nat} (hm : m < s.sys.mutexCount)
    (hfree : (s.sys.mutex m).locked = false) : Floors { s with sys := s.sys.acquire self m } := by
  have hnone : ∀ t, (s.sys.mutex m).owner ≠ some t := by
    intro t howner
    simp [(h.queued.locked m).mpr ⟨t, howner⟩] at hfree
  have howner : ∀ i t, ((s.sys.acquire self m).mutex i).owner = some t →
      i = m ∨ (s.sys.mutex i).owner = some t := by
    intro i t ht
    by_cases hi : i = m
    · simp [hi]
    right
    simpa [PiSys.acquire, PiSys.noteMutexAcquired, hi] using ht
  constructor
  · exact h.queued.acquire
  · exact h.counted.acquire h.queued hfree hm
  · intro i t ht
    rcases howner i t ht with rfl | ht
    · exact hm
    · exact h.inside i t ht
  · exact h.parked
  · exact h.rests
  · exact h.floor
  · intro t ht
    have hcount : (s.sys.acquire self m).mutexCount = s.sys.mutexCount := rfl
    have howned := owned_update hm hcount rfl t
    simp only [hnone t, if_false] at howned
    apply h.unheld t
    simp only at ht
    omega
  intro i o w ho hw
  rcases howner i o ho with rfl | ho
  · simp [(h.queued.contended w i hw).2] at hfree
  · exact h.covered i o w ho hw

theorem block {m self : Nat} (hrun : s.running self = true) (hself : s.sys.waitingFor self = none)
    (hlt : self < s.sys.taskCount) (hlocked : (s.sys.mutex m).locked = true) :
    Floors
      { sys := s.sys.piMutexLock self m
        blockedAt := update s.blockedAt self (s.sys.kernel.eff self) } := by
  obtain ⟨owner, howner⟩ := (h.queued.locked m).mp hlocked
  have hoff : Off s.sys.kernel self := by
    simp [FloorSys.running] at hrun
    exact hrun.2
  generalize hk : Sched.boostOwner s.sys.kernel owner self = k
  have hraised : ∀ w, Sched.Raised w s.sys.kernel k owner (s.sys.kernel.eff self) := by
    intro w
    rw [← hk]
    exact Sched.boostOwner_raised w _ owner self
  have hfloor := (hraised self).floor h.floor
  have hown : s.sys.kernel.eff self ≤ k.eff self := by
    by_cases hne : self = owner
    · subst hne
      exact Nat.le_trans (hraised self).raised (hfloor self)
    · simp [← hk, Sched.boostOwner_eff hne]
  have hsys : s.sys.piMutexLock self m = PiSys.block { s.sys with kernel := k } self m := by
    simp [PiSys.piMutexLock, hlocked, howner, hk]
  have hmutex : ∀ i, ((s.sys.piMutexLock self m).mutex i).owner = (s.sys.mutex i).owner := by
    intro i
    by_cases hi : i = m <;> simp [hsys, PiSys.block, hi]
  have hpi : (s.sys.piMutexLock self m).kernel.pi = k.pi := by
    rw [hsys]
    exact Sched.pi_setState k self .blocked
  have heff : (s.sys.piMutexLock self m).kernel.eff = k.eff := by
    funext t
    rw [hsys]
    exact Sched.setState_effectivePriority k self t .blocked
  have hwait : ∀ w i, (s.sys.piMutexLock self m).waitingFor w = some i →
      (w = self ∧ i = m) ∨ (w ≠ self ∧ s.sys.waitingFor w = some i) := by
    intro w i hw
    by_cases hws : w = self
    · subst hws
      simp [hsys, PiSys.block] at hw
      simp [hw]
    simp [hsys, PiSys.block, hws] at hw
    simp [hws, hw]
  constructor
  · exact h.queued.lock hself hlt
  · rw [hsys]
    exact Counted.block (s := { s.sys with kernel := k }) h.counted
  · intro i t ht
    rw [hmutex] at ht
    rw [hsys]
    exact h.inside i t ht
  · intro w i hw
    rw [hsys]
    rcases hwait w i hw with ⟨rfl, rfl⟩ | ⟨hws, hw⟩
    · have hstay : Off k w := hk ▸ Sched.boostOwner_off hoff owner w
      exact ⟨by simp [PiSys.block], hstay⟩
    have hpark := (hraised w).parked (h.parked w i hw)
    exact ⟨by simpa [PiSys.block, hws] using hpark.1, hpark.2⟩
  · intro w i hw
    rw [heff]
    rcases hwait w i hw with ⟨rfl, rfl⟩ | ⟨hws, hw⟩
    · simpa using hown
    · simpa [hws] using Nat.le_trans (h.rests w i hw) ((hraised w).rests (h.parked w i hw))
  · simpa [hpi, heff] using hfloor
  · intro t ht
    have howned : (s.sys.piMutexLock self m).owned t = s.sys.owned t :=
      owned_congr (by rw [hsys]; rfl) hmutex t
    simp only [howned] at ht
    have hne : t ≠ owner := by
      rintro rfl
      have := owned_pos (h.inside m t howner) howner
      omega
    simpa [hpi, (hraised t).others t hne] using h.unheld t ht
  intro i o w ho hw
  simp only [hmutex] at ho
  rw [hpi]
  rcases hwait w i hw with ⟨rfl, rfl⟩ | ⟨hws, hw⟩
  · obtain rfl : owner = o := by simpa [howner] using ho
    simpa using (hraised w).raised
  · simpa [hws] using Nat.le_trans (h.covered i o w ho hw) ((hraised w).grows o)

theorem letGo (howner : (s.sys.mutex m).owner = some self)
    (hright : CountRight s.sys m) : LetGo s (s.sys.releaseOwner m).kernel self := by
  have hheld := h.counted self
  have hone := hright self howner
  by_cases hlast : s.sys.held self ≤ 1
  · have hheld : s.sys.held self = 1 := by omega
    have hdrop := fun w => dropInherited_dropped w s.sys.kernel self
    have hk : (s.sys.releaseOwner m).kernel = dropInherited s.sys.kernel self := by
      simp [releaseOwner, howner, hheld]
    rw [hk]
    exact ⟨.inr ⟨(hdrop self).self, hone hlast⟩, (hdrop self).others,
      (hdrop self).floor h.floor, fun w => (hdrop w).parked,
      fun w hw => (hdrop w).rests (Ne.symm hw)⟩
  have hk : (s.sys.releaseOwner m).kernel = s.sys.kernel := by
    have hmore : 0 < s.sys.held self := by omega
    have hleft : s.sys.held self - 1 ≠ 0 := by omega
    simp [releaseOwner, howner, hmore, hleft]
  rw [hk]
  exact ⟨.inl ⟨rfl, by omega⟩, fun _ _ => rfl, h.floor, fun _ => id, fun _ _ => rfl⟩

/-- The mutex `m` goes from `self` to `heir`, which is a waiter or nobody. -/
theorem passed {sys : PiSys} {k : Kernel} {x : PiMutex} (hrun : s.running self = true)
    (howner : (s.sys.mutex m).owner = some self) (hgo : LetGo s k self) (hqueued : Queued sys)
    (hcounted : Counted sys) (hcount : sys.mutexCount = s.sys.mutexCount)
    (hmutex : sys.mutex = update s.sys.mutex m x) (hheir : x.owner ≠ some self)
    (hwait : ∀ w i, sys.waitingFor w = some i → s.sys.waitingFor w = some i ∧ x.owner ≠ some w)
    (hpi : ∀ t, x.owner ≠ some t → sys.kernel.pi t = k.pi t)
    (hgrows : ∀ t, k.pi t ≤ sys.kernel.pi t) (heff : sys.kernel.eff = k.eff)
    (hparked : ∀ w, x.owner ≠ some w → Parked k w → Parked sys.kernel w)
    (hfloor : ∀ t, sys.kernel.pi t ≤ sys.kernel.eff t)
    (hcover : ∀ o w, x.owner = some o → sys.waitingFor w = some m → k.eff w ≤ sys.kernel.pi o) :
    Floors { s with sys := sys } := by
  have hm := h.inside m self howner
  have howned := fun t => owned_update hm hcount hmutex t
  have hother : ∀ i t, (sys.mutex i).owner = some t →
      i = m ∧ x.owner = some t ∨ i ≠ m ∧ (s.sys.mutex i).owner = some t := by
    intro i t ht
    by_cases hi : i = m
    · subst hi
      simpa [hmutex] using ht
    · simpa [hmutex, hi] using ht
  have hinside : ∀ i t, (sys.mutex i).owner = some t → i < sys.mutexCount := by
    intro i t ht
    rw [hcount]
    rcases hother i t ht with ⟨rfl, -⟩ | ⟨-, ht⟩
    · exact hm
    · exact h.inside i t ht
  have hrests : ∀ w i, sys.waitingFor w = some i → s.blockedAt w ≤ k.eff w := by
    intro w i hw
    have hold := (hwait w i hw).1
    rw [hgo.rests w (h.ne_of_waiting hrun hold)]
    exact h.rests w i hold
  constructor
  · exact hqueued
  · exact hcounted
  · exact hinside
  · intro w i hw
    obtain ⟨hold, hne⟩ := hwait w i hw
    exact hparked w hne (hgo.parked w (h.parked w i hold))
  · simpa [heff] using hrests
  · exact hfloor
  · intro t ht
    have hlost := howned t
    simp only at ht
    have hne : x.owner ≠ some t := by
      intro heq
      have hpos : 0 < sys.owned t := owned_pos (hcount ▸ hm) (by simp [hmutex, heq])
      omega
    simp only [hpi t hne]
    by_cases hself : t = self
    · subst hself
      simp only [howner, hne, if_true, if_false] at hlost
      rcases hgo.owner with ⟨-, htwo⟩ | ⟨hzero, -⟩
      · omega
      · exact hzero
    have hold : (s.sys.mutex m).owner ≠ some t := by
      simp [howner, Ne.symm hself]
    simp only [hold, hne, if_false] at hlost
    rw [hgo.others t hself]
    exact h.unheld t (by omega)
  intro i o w ho hw
  rcases hother i o ho with ⟨rfl, ho⟩ | ⟨-, ho'⟩
  · exact Nat.le_trans (hrests w i hw) (hcover o w ho hw)
  have hle := h.covered i o w ho' (hwait w i hw).1
  refine Nat.le_trans ?_ (hgrows o)
  by_cases hself : o = self
  · -- the owner still has the mutex `i`, so `m` was not its last one
    subst hself
    have hlost := howned o
    have hpos : 0 < sys.owned o := owned_pos (hinside i o ho) ho
    simp only [howner, hheir, if_true, if_false] at hlost
    rcases hgo.owner with ⟨hsame, -⟩ | ⟨-, hone⟩
    · rwa [hsame]
    · omega
  · rwa [hgo.others o hself]

end

end Floors

/-! What a hand-off does to the floor of the new owner. -/

theorem inherit_task (k : Kernel) (l : List Nat)
    (h : t ≠ best) : (inherit best k l).task t = k.task t := by
  induction l generalizing k with
  | nil => rfl
  | cons a l ih =>
    simp only [inherit, List.foldl_cons] at ih ⊢
    rw [ih]
    unfold raiseInheritedPriority
    split <;> simp [Kernel.setTask_of_ne _ _ h]

theorem inherit_rq (best : Nat) (k : Kernel) (l : List Nat) :
    (inherit best k l).rq = k.rq ∧ (inherit best k l).cpuCount = k.cpuCount := by
  induction l generalizing k with
  | nil => simp [inherit]
  | cons a l ih =>
    simp only [inherit, List.foldl_cons] at ih ⊢
    rw [(ih _).1, (ih _).2]
    unfold raiseInheritedPriority
    split <;> simp [Kernel.setTask]

theorem pi_inherit (best : Nat) (k : Kernel) (l : List Nat) :
    k.pi best ≤ (inherit best k l).pi best ∧ (∀ t ∈ l, k.eff t ≤ (inherit best k l).pi best) ∧
      ∀ n, k.pi best ≤ n → (∀ t ∈ l, k.eff t ≤ n) → (inherit best k l).pi best ≤ n := by
  induction l generalizing k with
  | nil => simp [inherit]
  | cons a l ih =>
    have hone : (raiseInheritedPriority k best (k.eff a)).pi best = max (k.pi best) (k.eff a) := by
      unfold raiseInheritedPriority
      split <;> simp [Kernel.pi] <;> omega
    obtain ⟨hself, hmem, hmax⟩ := ih (raiseInheritedPriority k best (k.eff a))
    simp only [eff_raise, hone] at hself hmem hmax
    simp only [inherit, List.foldl_cons] at hself hmem hmax ⊢
    refine ⟨by omega, ?_, ?_⟩
    · intro t ht
      rcases List.mem_cons.mp ht with rfl | ht
      · omega
      · exact hmem t ht
    intro n hn hall
    simp only [List.forall_mem_cons] at hall
    exact hmax n (by omega) hall.2

namespace Floors

theorem unlock (h : Floors s) (hrun : s.running self = true)
    (howner : (s.sys.mutex m).owner = some self) (hright : CountRight s.sys m)
    (hstep : s.sys.piMutexUnlock m = some sys) : Floors { s with sys := sys } := by
  have hm := h.inside m self howner
  have hqueued := h.queued.unlock hstep
  have hcounted := h.counted.unlock h.queued hm hright hstep
  have hgo := h.letGo howner hright
  have hmutex : (s.sys.releaseOwner m).mutex = s.sys.mutex := by
    rw [releaseOwner_eq]
  have hwait : (s.sys.releaseOwner m).waitingFor = s.sys.waitingFor := by
    rw [releaseOwner_eq]
  have hcount : (s.sys.releaseOwner m).mutexCount = s.sys.mutexCount := by
    rw [releaseOwner_eq]
  obtain ⟨l, hqueue, ⟨rfl, heq⟩ | ⟨best, l₁, l₂, rfl, h₁, h₂, heq⟩⟩ := h.queued.unlock_cases m
  · rw [hstep, some.injEq] at heq
    subst heq
    refine h.passed hrun howner hgo hqueued hcounted hcount
      (x := { s.sys.mutex m with owner := none, locked := false })
      (by simp [free, hmutex]) (by simp) ?_ (fun _ _ => rfl)
      (fun _ => Nat.le_refl _) rfl (fun _ _ => id) hgo.floor (by simp)
    simp [free, hwait]
  rw [hstep, some.injEq] at heq
  subst heq
  have hbest : s.sys.waitingFor best = some m := (hqueue.waiters best).mp (by simp)
  have hne := h.ne_of_waiting hrun hbest
  generalize hk : (s.sys.releaseOwner m).kernel = k at hgo h₁ h₂
  have hkernel : ((s.sys.releaseOwner m).handedTo m best l₁ l₂).kernel =
      (inherit best k (l₁ ++ l₂)).setState best .ready := by
    simp [handedTo, handOff, noteMutexAcquired, hk]
  obtain ⟨hgrows, hmem, hmax⟩ := pi_inherit best k (l₁ ++ l₂)
  have hpi : ∀ t, t ≠ best → (inherit best k (l₁ ++ l₂)).pi t = k.pi t := by
    intro t ht
    simp [Kernel.pi, inherit_task k _ ht]
  have heff : ((s.sys.releaseOwner m).handedTo m best l₁ l₂).kernel.eff = k.eff := by
    rw [hkernel, ← eff_inherit best k (l₁ ++ l₂)]
    funext t
    exact setState_effectivePriority _ best t .ready
  have hwaiting : ∀ w i, ((s.sys.releaseOwner m).handedTo m best l₁ l₂).waitingFor w = some i →
        w ≠ best ∧ s.sys.waitingFor w = some i := by
    intro w i hw
    by_cases hwb : w = best
    · simp [handedTo, handOff, noteMutexAcquired, hwb] at hw
    · simpa [handedTo, handOff, noteMutexAcquired, hwb, hwait] using hw
  refine h.passed hrun howner hgo hqueued hcounted hcount (x := { s.sys.mutex m with
      owner := some best
      waitHead := (unlinked (s.sys.releaseOwner m) m best l₁.getLast?).2
      waitTail := (l₁ ++ l₂).getLast? })
    (by simp [handedTo, handOff, noteMutexAcquired,
      hmutex]) (by simpa using hne) ?_ ?_ ?_ heff ?_ ?_ ?_
  · intro w i hw
    simpa [Ne.symm (hwaiting w i hw).1] using (hwaiting w i hw).2
  · intro t ht
    rw [hkernel, pi_setState]
    exact hpi t (by simpa [eq_comm] using ht)
  · intro t
    rw [hkernel, pi_setState]
    by_cases ht : t = best
    · simpa [ht] using hgrows
    · simp [hpi t ht]
  · intro w hw hpark
    have hw : w ≠ best := by simpa [eq_comm] using hw
    rw [hkernel]
    refine ⟨by simpa [hw, inherit_task k _ hw] using hpark.1, ?_⟩
    simpa [Off, Kernel.setState, Kernel.setTask, inherit_rq] using hpark.2
  · intro t
    rw [heff, hkernel, pi_setState]
    by_cases ht : t = best
    · subst ht
      apply hmax _ (hgo.floor t)
      intro u hu
      rcases List.mem_append.mp hu with hu | hu
      · exact Nat.le_of_lt (h₁ u hu)
      · exact h₂ u hu
    · simpa [hpi t ht] using hgo.floor t
  intro o w ho hw
  obtain rfl : best = o := by simpa using ho
  rw [hkernel, pi_setState]
  obtain ⟨hwb, hold⟩ := hwaiting w m hw
  have hmem' := (hqueue.waiters w).mpr hold
  apply hmem w
  simpa [hwb] using hmem'

end Floors

/-! ## Runs -/

theorem FloorSys.spares {s : FloorSys} {a : PrioAction} (h : s.mayPrio a = true) {w m : Nat}
    (hw : s.sys.waitingFor w = some m) : a.Spares w := by
  cases a with
  | refresh t | setState t st =>
    rintro rfl
    simp [FloorSys.mayPrio, hw] at h
  | boost owner caller | dropInherited t => simp [FloorSys.mayPrio] at h
  | _ => trivial

theorem FloorSys.spares_some {s : FloorSys} {a : PrioAction}
    (h : s.mayPrio a = true) : ∃ w, a.Spares w := by
  cases a with
  | refresh t | setState t st => exact ⟨t + 1, by simp [PrioAction.Spares]⟩
  | boost owner caller | dropInherited t => simp [FloorSys.mayPrio] at h
  | _ => exact ⟨0, trivial⟩

theorem Floors.step {s s' : FloorSys} {a : FloorAction} (h : Floors s)
    (hok : FloorSafe s a) (hstep : floorStep s a = some s') : Floors s' := by
  cases a with
  | lock self m =>
    simp only [floorStep, ite_none_right_eq_some, map_eq_some_iff, piStep_lock] at hstep
    obtain ⟨hrun, sys, ⟨⟨hlt, hm, hself⟩, rfl⟩, rfl⟩ := hstep
    cases hlocked : (s.sys.mutex m).locked with
    | false => simpa [PiSys.piMutexLock, hlocked] using h.acquire hm hlocked
    | true => simpa using h.block hrun hself hlt hlocked
  | trylock self m =>
    simp only [floorStep, ite_none_right_eq_some, map_eq_some_iff, piStep_trylock] at hstep
    obtain ⟨hrun, sys, ⟨⟨hlt, hm, hself⟩, rfl⟩, rfl⟩ := hstep
    cases hlocked : (s.sys.mutex m).locked with
    | false =>
      simpa [PiSys.piMutexTrylock, hlocked] using h.acquire hm hlocked
    | true => simpa [PiSys.piMutexTrylock, hlocked] using h
  | unlock self m =>
    simp only [floorStep, ite_none_right_eq_some, map_eq_some_iff, piStep_unlock] at hstep
    obtain ⟨⟨hrun, howner⟩, sys, ⟨-, hunlock⟩, rfl⟩ := hstep
    exact h.unlock hrun howner hok hunlock
  | publish t =>
    simp only [floorStep, map_eq_some_iff] at hstep
    obtain ⟨sys, hpublish, rfl⟩ := hstep
    have hqueued := h.queued.step hpublish
    have hcounted := h.counted.step h.queued (by simp) hpublish
    obtain ⟨-, rfl⟩ := piStep_publish.mp hpublish
    exact h.benign rfl rfl rfl hqueued hcounted ⟨t, Sched.schedulerAddTaskToCpu_benign _ _⟩
      fun w m _ => Sched.schedulerAddTaskToCpu_benign _ _
  | prio a next =>
    simp only [floorStep, ite_none_right_eq_some, bind_eq_some_iff, map_eq_some_iff] at hstep
    obtain ⟨hmay, k, hprio, sys, hsched, rfl⟩ := hstep
    have hqueued := h.queued.step hsched
    have hcounted := h.counted.step h.queued (by simp) hsched
    cases hsched
    obtain ⟨u, hu⟩ := FloorSys.spares_some hmay
    exact h.benign rfl rfl rfl hqueued hcounted ⟨u, Sched.prioStep_benign hu hprio⟩
      fun w m hw => Sched.prioStep_benign (FloorSys.spares hmay hw) hprio

theorem Floors.fresh (hfresh : s.sys.Fresh) (hpi : ∀ t, s.sys.kernel.pi t = 0) : Floors s where
  queued := hfresh.queued
  counted := hfresh.counted
  inside := by simp [hfresh.1, piMutexInit]
  parked := by simp [hfresh.2.2]
  rests := by simp [hfresh.2.2]
  floor := by simp [hpi]
  unheld := by simp [hpi]
  covered := by simp [hfresh.2.2]

end SlmOs.Ipc
