import SlmOs.Ipc.Refinement
import SlmOs.Ipc.Senders

/-!
# How long a message can be passed over

A message at the head of the lowest level that has any is passed over only while
the starvation counter is below its threshold, and every receive that passes it
over counts.  So it waits for at most `MSG_STARVATION_THRESHOLD` receives,
whatever is sent in the meantime.  The argument is about four lists; blocking
tasks take part because their rounds do to the lists what other requests do.
-/

namespace SlmOs.Ipc

open Foundation Traffic Option
open Pmm (BuddyState)

universe u

namespace Levels

variable {α : Type u}

inductive Moves : Levels α → Levels α → Option Nat → Prop
  | idle (f : Levels α) : Moves f f none
  | send {f g : Levels α} {p : Nat} {m : α} (h : f.send p m = some g) : Moves f g none
  | serve {f : Levels α} {p : Nat} (h : Due f.busy f.streak p) : Moves f (f.serve p) (some p)

structure Lowest (f : Levels α) (p : Nat) : Prop where
  occupied : f.level p ≠ []
  below : ∀ r < p, f.level r = []

/--
From one state to another, `k` receives took messages from other levels while `p`
was the lowest that had any.
-/
inductive PassedOver (p : Nat) : Nat → Levels α → Levels α → Prop
  | refl (f : Levels α) : PassedOver p 0 f f
  | other {f g h : Levels α} {k : Nat} (before : PassedOver p k f g)
      (step : Moves g h none) : PassedOver p k f h
  | passed {f g h : Levels α} {k r : Nat} (before : PassedOver p k f g)
      (lowest : g.Lowest p) (step : Moves g h (some r)) (hne : r ≠ p) :
      PassedOver p (k + 1) f h

theorem lowest_le_due {f : Levels α} {p r : Nat} (hlow : f.Lowest p)
    (hdue : Due f.busy f.streak r) : p ≤ r := by
  by_contra hlt
  exact nonempty_of_due hdue (hlow.below r (Nat.lt_of_not_le hlt))

theorem due_eq_lowest {f : Levels α} {p r : Nat} (hlow : f.Lowest p)
    (hdue : Due f.busy f.streak r) (hstreak : msgStarvationThreshold ≤ f.streak) : r = p := by
  refine Nat.le_antisymm ?_ (lowest_le_due hlow hdue)
  by_contra hlt
  exact hlow.occupied (busy_eq_false.mp (hdue.lowest hstreak p (Nat.lt_of_not_le hlt)))

theorem streak_send {f g : Levels α} {p : Nat} {m : α} (h : f.send p m = some g) :
    g.streak = f.streak ∧ ∀ r, ∃ l, g.level r = f.level r ++ l := by
  simp only [send, ite_none_right_eq_some, some.injEq] at h
  obtain ⟨-, rfl⟩ := h
  refine ⟨rfl, fun r => ?_⟩
  by_cases hr : r = p
  · subst hr
    exact ⟨[m], by simp⟩
  · exact ⟨[], by simp [hr]⟩

theorem PassedOver.streak {p k : Nat} {f g : Levels α} (h : PassedOver p k f g) :
    g.streak = f.streak + k := by
  induction h with
  | refl f => rfl
  | other before step ih =>
    cases step with
    | idle => exact ih
    | send hsend => rw [(streak_send hsend).1, ih]
  | @passed f g h k r before lowest step hne ih =>
    cases step with
    | serve hdue =>
      have hlt : p < r := Nat.lt_of_le_of_ne (lowest_le_due lowest hdue) hne.symm
      have hbelow : ¬msgStarvationThreshold ≤ g.streak :=
        fun hge => hne (due_eq_lowest lowest hdue hge)
      simp only [serve, nextStreak]
      rw [if_neg (by omega), ih, Nat.add_assoc]

theorem PassedOver.head {p k : Nat} {f g : Levels α} (h : PassedOver p k f g) {m : α}
    {l : List α} (hhead : f.level p = m :: l) : ∃ l', g.level p = m :: l' := by
  induction h with
  | refl f => exact ⟨l, hhead⟩
  | other before step ih =>
    obtain ⟨l', hl'⟩ := ih hhead
    cases step with
    | idle => exact ⟨l', hl'⟩
    | send hsend =>
      obtain ⟨sent, hsent⟩ := (streak_send hsend).2 p
      exact ⟨l' ++ sent, by rw [hsent, hl', List.cons_append]⟩
  | passed before lowest step hne ih =>
    obtain ⟨l', hl'⟩ := ih hhead
    cases step with
    | serve hdue => exact ⟨l', by simp [serve, Function.update_of_ne hne.symm, hl']⟩

end Levels

/-! ## Tasks -/

def Traffic.idle (q : MsgQueue) : Traffic := ⟨q, fun _ => (0, fun _ => 0), [], []⟩

def Traffic.serves (s : Traffic) : Action → Option Nat
  | .recv _ _ | .resumeRecv _ _ | .tryRecv (some _) =>
    if s.queue.totalCount = 0 then none else (selectRecvPriority s.queue).2
  | .send _ _ _ | .resumeSend _ | .trySend _ _ | .tryRecv none => none

structure MsgQueue.Lowest (q : MsgQueue) (p : Nat) : Prop where
  occupied : 0 < (q.prio p).count
  below : ∀ r < p, (q.prio r).count = 0

inductive PassedOver (p : Nat) : Nat → Traffic → Traffic → Prop
  | refl (s : Traffic) : PassedOver p 0 s s
  | other {s t u : Traffic} {k : Nat} {a : Action} (before : PassedOver p k s t)
      (step : trafficStep t a = some u) (hserves : t.serves a = none) : PassedOver p k s u
  | passed {s t u : Traffic} {k r : Nat} {a : Action} (before : PassedOver p k s t)
      (lowest : t.queue.Lowest p) (step : trafficStep t a = some u)
      (hserves : t.serves a = some r) (hne : r ≠ p) : PassedOver p (k + 1) s u

/-- The queue stands for four lists, and every send is to one of them. -/
structure Traffic.Stands (slots size : Nat) (s : Traffic) (f : Levels (List UInt8)) : Prop where
  refines : Refines slots size s.queue f
  level_lt : ∀ t, s.level t < msgPrioCount

theorem Refines.waiters {slots size : Nat} {q : MsgQueue} {f : Levels (List UInt8)}
    (h : Refines slots size q f) (senders receivers : List Nat) :
    Refines slots size { q with sendWaiters := senders, recvWaiters := receivers } f :=
  ⟨h.fits, h.capacity, h.bounded, h.size, h.ring, h.level, h.total, h.streak, h.bound⟩

section Steps

variable {slots size : Nat} {s s' : Traffic} {f : Levels (List UInt8)}

section

variable (h : s.Stands slots size f)
include h

theorem Traffic.Stands.sendRound (t : Nat) :
    ∃ g, (s.sendRound t).Stands slots size g ∧ f.Moves g none := by
  unfold Traffic.sendRound
  simp only
  split
  · exact ⟨f, ⟨h.refines.waiters _ _, h.level_lt⟩, .idle f⟩
  next hspace =>
  obtain ⟨g, hsend, href⟩ := h.refines.store (s.pending t).2 (h.level_lt t)
    (Nat.lt_of_not_ge hspace)
  exact ⟨g, ⟨href, h.level_lt⟩, .send hsend⟩

theorem Traffic.Stands.sent (msg : Option Memory)
    (priority : Int) : ∃ g, (s.sent msg priority).Stands slots size g ∧ f.Moves g none := by
  cases msg with
  | none => exact ⟨f, ⟨h.refines, h.level_lt⟩, .idle f⟩
  | some msg =>
    unfold Traffic.sent msgSendPriority
    simp only
    split
    · exact ⟨f, ⟨h.refines, h.level_lt⟩, .idle f⟩
    next hspace =>
    obtain ⟨g, hsend, href⟩ := h.refines.store msg (clampPriority_lt priority)
      (Nat.lt_of_not_ge hspace)
    exact ⟨g, ⟨href, h.level_lt⟩, .send hsend⟩

theorem Traffic.Stands.served (hcount : s.queue.totalCount ≠ 0)
    (dest : Memory) : ∃ p m, (selectRecvPriority s.queue).2 = some p ∧
      Due f.busy f.streak p ∧ f.level p = m :: (f.level p).tail ∧
      (msgRecv s.queue (some dest)).status = .ok ∧
      (msgRecv s.queue (some dest)).msg = some (overwrite dest m) ∧
      (s.received (some dest)).Stands slots size (f.serve p) := by
  have hnext : f.next ≠ none := by
    intro hnone
    have hzero : countSum s.queue.prio = 0 := countSum_eq_zero.mpr fun p hp =>
      (h.refines.level_eq_nil hp).mp (Levels.next_eq_none.mp hnone p hp)
    exact hcount (h.refines.total.trans hzero)
  obtain ⟨p, hp⟩ := ne_none_iff_exists'.mp hnext
  have hdue := due_of_dueLevel hp
  obtain ⟨m, l, hm⟩ := List.exists_cons_of_ne_nil (Levels.nonempty_of_due hdue)
  have hserve : f.recv = some (f.serve p, m) := by
    simp [Levels.recv, hp, hm]
  rcases h.refines.recv dest with ⟨hnone, -⟩ | ⟨p', m', hsome, hok, hmsg, href⟩
  · rw [hserve] at hnone
    cases hnone
  rw [hserve, some.injEq, Prod.mk.injEq] at hsome
  obtain ⟨hqueue, rfl⟩ := hsome
  rw [← hqueue] at href
  refine ⟨p, m, ?_, hdue, by rw [hm, List.tail_cons], hok, hmsg, href, h.level_lt⟩
  rw [h.refines.select, hp]

theorem Traffic.Stands.recvRound (t : Nat) (dest : Memory) :
    ∃ g, (s.recvRound t dest).Stands slots size g ∧
      f.Moves g (if s.queue.totalCount = 0 then none else (selectRecvPriority s.queue).2) := by
  unfold Traffic.recvRound
  by_cases hzero : s.queue.totalCount = 0
  · rw [if_pos hzero, if_pos hzero]
    exact ⟨f, ⟨h.refines.waiters _ _, h.level_lt⟩, .idle f⟩
  rw [if_neg hzero, if_neg hzero]
  obtain ⟨p, m, hselect, hdue, -, -, -, hnext⟩ := h.served hzero dest
  rw [hselect]
  exact ⟨_, hnext, .serve hdue⟩

theorem Traffic.Stands.received (dest : Memory) :
    ∃ g, (s.received (some dest)).Stands slots size g ∧
      f.Moves g (if s.queue.totalCount = 0 then none else (selectRecvPriority s.queue).2) := by
  by_cases hzero : s.queue.totalCount = 0
  · rw [if_pos hzero]
    refine ⟨f, ⟨?_, h.level_lt⟩, .idle f⟩
    simpa [Traffic.received, msgRecv, hzero] using h.refines
  rw [if_neg hzero]
  obtain ⟨p, m, hselect, hdue, -, -, -, hnext⟩ := h.served hzero dest
  rw [hselect]
  exact ⟨_, hnext, .serve hdue⟩

theorem Traffic.Stands.begin (t : Nat) (msg : Memory)
    (priority : Int) : (s.begin t (clampPriority priority, msg)).Stands slots size f := by
  refine ⟨h.refines, fun u => ?_⟩
  by_cases hu : u = t
  · simp [Traffic.begin, Traffic.level, hu, clampPriority_lt]
  · simpa [Traffic.begin, Traffic.level, hu] using h.level_lt u

theorem Traffic.Stands.step {a : Action} (hstep : trafficStep s a = some s') :
    ∃ g, s'.Stands slots size g ∧ f.Moves g (s.serves a) := by
  cases trafficStep_acts hstep with
  | send t msg priority => exact (h.begin t msg priority).sendRound t
  | resumeSend t =>
    exact Traffic.Stands.sendRound (s := s.resumeSender t) ⟨h.refines, h.level_lt⟩ t
  | trySend msg priority => exact h.sent msg priority
  | recv t msg => exact h.recvRound t msg
  | resumeRecv t msg =>
    exact Traffic.Stands.recvRound (s := s.resumeReceiver t) ⟨h.refines, h.level_lt⟩ t msg
  | tryRecv msg =>
    cases msg with
    | none => exact ⟨f, ⟨h.refines, h.level_lt⟩, .idle f⟩
    | some dest => exact h.received dest

theorem Traffic.Stands.lowest (hp : p < msgPrioCount) (hlow : s.queue.Lowest p) : f.Lowest p := by
  refine ⟨fun hnil => ?_, fun r hr => ?_⟩
  · have hzero := (h.refines.level_eq_nil hp).mp hnil
    exact absurd hlow.occupied (by omega)
  · exact (h.refines.level_eq_nil (hr.trans hp)).mpr (hlow.below r hr)

end

theorem PassedOver.levels (hp : p < msgPrioCount) (h : PassedOver p k s s')
    (hstands : s.Stands slots size f) :
    ∃ g, s'.Stands slots size g ∧ Levels.PassedOver p k f g := by
  induction h with
  | refl s => exact ⟨f, hstands, .refl f⟩
  | other before step hserves ih =>
    obtain ⟨g, hg, hpassed⟩ := ih hstands
    obtain ⟨g', hg', hmove⟩ := hg.step step
    rw [hserves] at hmove
    exact ⟨g', hg', hpassed.other hmove⟩
  | passed before lowest step hserves hne ih =>
    obtain ⟨g, hg, hpassed⟩ := ih hstands
    obtain ⟨g', hg', hmove⟩ := hg.step step
    rw [hserves] at hmove
    exact ⟨g', hg', hpassed.passed (hg.lowest hp lowest) hmove hne⟩

end Steps

/-! ## Runs -/

theorem stands_idle
    (hcreate : msgQueueCreate heap st capacity msgSize = some (heap', st', some q)) :
    ∃ slots size f, (Traffic.idle q).Stands slots size f := by
  obtain ⟨size, hpos, rfl, hfits, -⟩ := created hcreate
  exact ⟨capacity, size, _, refines_empty st.nextQueueId _ hpos hfits,
    fun _ => (by decide : 0 < msgPrioCount)⟩

theorem stands_of_run (hstart : ∃ slots size f, s₀.Stands slots size f)
    (hrun : Run trafficStep (fun _ _ => True) s₀ s) : ∃ slots size f, s.Stands slots size f := by
  refine Run.invariant (I := fun s => ∃ slots size f, s.Stands slots size f) ?_ hstart hrun
  rintro s a s' ⟨slots, size, f, h⟩ - hstep
  obtain ⟨g, hg, -⟩ := h.step hstep
  exact ⟨slots, size, g, hg⟩

/--
In every run, a message that has reached the head of its level is passed over at
most `MSG_STARVATION_THRESHOLD` times while its level is the lowest that has
messages, and the receive after that delivers it.  The counter stays within its
threshold.
-/
theorem passed_over_at_most {heap heap' : BuddyState} {st st' : IpcState}
    {capacity msgSize : Nat} {q : MsgQueue} {s : Traffic}
    (hcreate : msgQueueCreate heap st capacity msgSize = some (heap', st', some q))
    (hrun : Run trafficStep (fun _ _ => True) (Traffic.idle q) s) :
    s.queue.highPrioRecvCount ≤ msgStarvationThreshold ∧
    ∀ p m l k u, p < msgPrioCount → content s.queue p = m :: l → PassedOver p k s u →
      k ≤ msgStarvationThreshold ∧
      ∀ dest, u.queue.Lowest p → (msgRecv u.queue (some dest)).status = .ok ∧
        ((selectRecvPriority u.queue).2 = some p ∧
            (msgRecv u.queue (some dest)).msg = some (overwrite dest m) ∨
          (selectRecvPriority u.queue).2 ≠ some p ∧ k < msgStarvationThreshold) := by
  obtain ⟨slots, size, f, h⟩ := stands_of_run (stands_idle hcreate) hrun
  refine ⟨h.refines.streak ▸ h.refines.bound, ?_⟩
  intro p m l k u hp hhead hpassed
  obtain ⟨g, hg, hover⟩ := hpassed.levels hp h
  have hstreak := hover.streak
  have hbound := hg.refines.bound
  refine ⟨by omega, fun dest hlow => ?_⟩
  have hcount : u.queue.totalCount ≠ 0 := by
    intro hzero
    have hnone := countSum_eq_zero.mp (hg.refines.total.symm.trans hzero) p hp
    exact absurd hlow.occupied (by omega)
  obtain ⟨r, m', hselect, hdue, hlevel, hok, hmsg, -⟩ := hg.served hcount dest
  refine ⟨hok, ?_⟩
  obtain ⟨l', hl'⟩ := hover.head ((h.refines.level p hp).trans hhead)
  by_cases hr : r = p
  · subst hr
    left
    rw [hl', List.cons.injEq] at hlevel
    exact ⟨hselect, hlevel.1 ▸ hmsg⟩
  right
  refine ⟨fun heq => hr (some.inj (hselect.symm.trans heq)), ?_⟩
  have hbelow : ¬msgStarvationThreshold ≤ g.streak :=
    fun hge => hr (Levels.due_eq_lowest (hg.lowest hp hlow) hdue hge)
  omega

def twoLevels : Traffic :=
  ((Traffic.idle (emptyQueue 0 2 1 8)).sent (some (object [7])) 0).sent (some (object [9])) 3

theorem passed_over_at_most_once : ∃ heap' st' u, msgQueueCreate smallHeap noQueues 2 1 =
        some (heap', st', some (emptyQueue 0 2 1 8)) ∧
      Run trafficStep (fun _ _ => True) (Traffic.idle (emptyQueue 0 2 1 8)) twoLevels ∧
      content twoLevels.queue 0 = [[7]] ∧ PassedOver 0 1 twoLevels u ∧ u.queue.Lowest 0 ∧
      (msgRecv u.queue (some (object []))).status = .ok := by
  have hrun : Run trafficStep (fun _ _ => True) (idle (emptyQueue 0 2 1 8)) twoLevels :=
    run_exec [.trySend (some (object [7])) 0, .trySend (some (object [9])) 3] rfl
  have hcontent : content twoLevels.queue 0 = [[7]] := by decide
  have hpassed : PassedOver 0 1 twoLevels (twoLevels.received (some (object []))) :=
    .passed (.refl _) ⟨by decide, by decide⟩ (a := .tryRecv (some (object []))) rfl
      (r := 3) (by decide) (by decide)
  have hlow : (twoLevels.received (some (object []))).queue.Lowest 0 := ⟨by decide, by decide⟩
  have hcreate : msgQueueCreate smallHeap noQueues 2 1 =
      some (_, _, some (emptyQueue 0 2 1 8)) := rfl
  exact ⟨_, _, _, hcreate, hrun, hcontent, hpassed, hlow,
    (((passed_over_at_most hcreate hrun).2 0 [7] [] 1 _ (by decide) hcontent hpassed).2
      (object []) hlow).1⟩

end SlmOs.Ipc
