import SlmOs.Ipc.Levels

/-!
# Blocking senders

Tasks that send and receive on one queue, where every critical section under the
lock of the queue is one step.  A sender that finds its level full puts itself on
`send_waiters`; a receive unlinks the head of that list, whatever level it waits
for, and the woken task runs its loop again later.

`Tally` forgets who the tasks are and keeps, for each level, how many messages it
has, how many senders wait for it and how many of its senders have been woken and
have not run yet.  The property at stake is that the woken senders of a level
suffice for its free slots as long as somebody waits for it.
-/

namespace SlmOs.Ipc

open Function Foundation

/-! ## Tasks and their steps -/

structure Traffic where
  queue : MsgQueue
  /-- The level and the message of the send that a task is in. -/
  pending : Nat → Nat × Memory
  /-- Tasks that have been taken off a wait list and have not run since. -/
  wokenSenders : List Nat
  wokenReceivers : List Nat

namespace Traffic

def level (s : Traffic) (t : Nat) : Nat := (s.pending t).1

def inCall (s : Traffic) (t : Nat) : Bool :=
  t ∈ s.queue.sendWaiters ∨ t ∈ s.queue.recvWaiters ∨ t ∈ s.wokenSenders ∨ t ∈ s.wokenReceivers

/-- One round of the loop of `msg_send_priority` with no limit on the wait. -/
def sendRound (s : Traffic) (t : Nat) : Traffic :=
  let priority := s.level t
  if (s.queue.prio priority).count ≥ s.queue.capacity then
    { s with
      queue := { s.queue with sendWaiters := t :: s.queue.sendWaiters } }
  else
    let stored := storeMessage s.queue priority (s.pending t).2
    { s with
      queue := stored.1
      wokenReceivers := s.wokenReceivers ++ stored.2.toList }

def received (s : Traffic) (msg : Option Memory) : Traffic :=
  let result := msgRecv s.queue msg
  { s with
    queue := result.queue
    wokenSenders := s.wokenSenders ++ result.woken.toList }

/-- One round of the loop of `msg_recv` with no limit on the wait. -/
def recvRound (s : Traffic) (t : Nat) (msg : Memory) : Traffic :=
  if s.queue.totalCount = 0 then
    { s with
      queue := { s.queue with recvWaiters := t :: s.queue.recvWaiters } }
  else s.received (some msg)

/-- A send that does not wait, or one round of a send with a timeout. -/
def sent (s : Traffic) (msg : Option Memory) (priority : Int) : Traffic :=
  let result := msgSendPriority s.queue msg priority
  { s with
    queue := result.1
    wokenReceivers := s.wokenReceivers ++ result.2.2.toList }

def begin (s : Traffic) (t : Nat) (send : Nat × Memory) : Traffic :=
  { s with pending := update s.pending t send }

def resumeSender (s : Traffic) (t : Nat) : Traffic :=
  { s with wokenSenders := s.wokenSenders.erase t }

def resumeReceiver (s : Traffic) (t : Nat) : Traffic :=
  { s with wokenReceivers := s.wokenReceivers.erase t }

end Traffic

inductive Action where
  | send (t : Nat) (msg : Memory) (priority : Int)
  | resumeSend (t : Nat)
  | trySend (msg : Option Memory) (priority : Int)
  | recv (t : Nat) (msg : Memory)
  | resumeRecv (t : Nat) (msg : Memory)
  | tryRecv (msg : Option Memory)

def trafficStep (s : Traffic) : Action → Option Traffic
  | .send t msg priority =>
    if s.inCall t then none
    else
      some ((s.begin t (clampPriority priority, msg)).sendRound t)
  | .resumeSend t =>
    if t ∈ s.wokenSenders then some ((s.resumeSender t).sendRound t)
    else none
  | .trySend msg priority => some (s.sent msg priority)
  | .recv t msg =>
    if s.inCall t then none else some (s.recvRound t msg)
  | .resumeRecv t msg =>
    if t ∈ s.wokenReceivers then some ((s.resumeReceiver t).recvRound t msg)
    else none
  | .tryRecv msg => some (s.received msg)

inductive Traffic.Acts (s : Traffic) : Action → Traffic → Prop
  | send (t : Nat) (msg : Memory) (priority : Int) (hcall : ¬ s.inCall t) :
      Acts s (.send t msg priority) ((s.begin t (clampPriority priority, msg)).sendRound t)
  | resumeSend (t : Nat) (hwoken : t ∈ s.wokenSenders) :
      Acts s (.resumeSend t) ((s.resumeSender t).sendRound t)
  | trySend (msg : Option Memory) (priority : Int) :
      Acts s (.trySend msg priority) (s.sent msg priority)
  | recv (t : Nat) (msg : Memory) (hcall : ¬ s.inCall t) :
      Acts s (.recv t msg) (s.recvRound t msg)
  | resumeRecv (t : Nat) (msg : Memory) (hwoken : t ∈ s.wokenReceivers) :
      Acts s (.resumeRecv t msg) ((s.resumeReceiver t).recvRound t msg)
  | tryRecv (msg : Option Memory) : Acts s (.tryRecv msg) (s.received msg)

theorem trafficStep_acts (h : trafficStep s a = some s') : s.Acts a s' := by
  cases a with
  | trySend msg priority => cases h; exact .trySend msg priority
  | tryRecv msg => cases h; exact .tryRecv msg
  | _ =>
    simp only [trafficStep] at h
    split_ifs at h with hcall
    cases h
    constructor
    exact hcall

/-! ## Counting by level -/

@[ext]
structure Tally where
  capacity : Nat
  count : Nat → Nat
  waiting : Nat → Nat
  woken : Nat → Nat

def bump (f : Nat → Nat) (r : Nat) : Nat → Nat :=
  update f r (f r + 1)

def drop (f : Nat → Nat) (r : Nat) : Nat → Nat :=
  update f r (f r - 1)

theorem bump_apply (f : Nat → Nat) (r p : Nat) : bump f r p = if p = r then f p + 1 else f p := by
  by_cases h : p = r <;> simp [bump, h]

theorem drop_apply (f : Nat → Nat) (r p : Nat) : drop f r p = if p = r then f p - 1 else f p := by
  by_cases h : p = r <;> simp [drop, h]

theorem drop_bump (f : Nat → Nat) (r : Nat) : drop (bump f r) r = f := by
  funext p
  rw [drop_apply, bump_apply]
  split
  · exact Nat.add_sub_cancel _ _
  · rfl

def perLevel (level : Nat → Nat) (tasks : List Nat) (p : Nat) : Nat :=
  tasks.countP fun t => level t = p

section PerLevel

variable {level : Nat → Nat} {tasks : List Nat}

theorem perLevel_cons (t : Nat) :
    perLevel level (t :: tasks) = bump (perLevel level tasks) (level t) := by
  funext p
  rw [perLevel, List.countP_cons, bump_apply]
  by_cases hp : p = level t
  · simp [perLevel, hp]
  · simp [perLevel, hp, Ne.symm hp]

theorem perLevel_concat (t : Nat) :
    perLevel level (tasks ++ [t]) = bump (perLevel level tasks) (level t) := by
  rw [← perLevel_cons]
  funext p
  exact (List.perm_append_singleton t tasks).countP_eq _

theorem perLevel_erase (h : t ∈ tasks) : perLevel level (tasks.erase t) =
      drop (perLevel level tasks) (level t) := by
  have hperm : perLevel level tasks = perLevel level (t :: tasks.erase t) := by
    funext p
    exact (List.perm_cons_erase h).countP_eq _
  rw [hperm, perLevel_cons, drop_bump]

theorem perLevel_congr {level' : Nat → Nat} (h : ∀ t ∈ tasks, level' t = level t) :
    perLevel level' tasks = perLevel level tasks := by
  funext p
  exact List.countP_congr fun t ht => by simp [h t ht]

theorem perLevel_pos : 0 < perLevel level tasks p ↔ ∃ t ∈ tasks, level t = p := by
  simp [perLevel, List.countP_pos_iff]

end PerLevel

namespace Tally

/--
The steps, seen by their numbers.  A receive that takes a message of level `p`
and wakes a sender of level `r` is allowed only if nobody waits for `p`, if the
right sender is woken, or if enough senders of `p` have been woken before.
-/
inductive Step : Tally → Tally → Prop
  | idle (a : Tally) : Step a a
  | store (a : Tally) (r : Nat) : Step a { a with count := bump a.count r }
  | block (a : Tally) (r : Nat) (hfull : a.capacity ≤ a.count r) :
      Step a { a with waiting := bump a.waiting r }
  | resume (a : Tally) (r : Nat) (hwoken : 0 < a.woken r)
      (hspace : a.count r < a.capacity) :
      Step a { a with woken := drop a.woken r, count := bump a.count r }
  | reblock (a : Tally) (r : Nat) (hwoken : 0 < a.woken r)
      (hfull : a.capacity ≤ a.count r) :
      Step a { a with woken := drop a.woken r, waiting := bump a.waiting r }
  | take (a : Tally) (p : Nat) (hnone : ∀ r, a.waiting r = 0) :
      Step a { a with count := drop a.count p }
  | wake (a : Tally) (p r : Nat) (hwaiting : 0 < a.waiting r)
      (hright : a.waiting p = 0 ∨ r = p ∨ a.capacity < a.count p + a.woken p) :
      Step a
        { a with
          count := drop a.count p
          waiting := drop a.waiting r
          woken := bump a.woken r }

/-- While somebody waits for a level, woken senders suffice for its space. -/
def Served (a : Tally) : Prop :=
  ∀ p, 0 < a.waiting p → a.capacity ≤ a.count p + a.woken p

theorem Served.step {a b : Tally} (h : a.Served) (hstep : Step a b) : b.Served := by
  intro p hp
  have hserved := h p
  cases hstep with
  | idle => exact hserved hp
  | store r =>
    simp only [bump_apply] at hp ⊢
    split <;> omega
  | block r hfull =>
    simp only [bump_apply] at hp ⊢
    by_cases hpr : p = r
    · subst hpr
      omega
    rw [if_neg hpr] at hp
    exact hserved hp
  | resume r hwoken hspace =>
    simp only [bump_apply, drop_apply] at hp ⊢
    split <;> omega
  | reblock r hwoken hfull =>
    simp only [bump_apply, drop_apply] at hp ⊢
    by_cases hpr : p = r
    · subst hpr
      omega
    rw [if_neg hpr] at hp ⊢
    exact hserved hp
  | take q hnone => exact absurd hp (by simp [hnone p])
  | wake q r hwaiting hright =>
    simp only [bump_apply, drop_apply] at hp ⊢
    by_cases hpq : p = q
    · subst hpq
      by_cases hpr : p = r
      · subst hpr
        simp only [if_true] at hp ⊢
        omega
      simp only [if_neg hpr, if_true] at hp ⊢
      omega
    by_cases hpr : p = r
    · subst hpr
      simp only [if_neg hpq, if_true] at hp ⊢
      omega
    simp only [if_neg hpq, if_neg hpr] at hp ⊢
    exact hserved hp

theorem Step.senders_le (hstep : Step a b) (hspace : a.count p < a.capacity) :
    b.waiting p + b.woken p ≤ a.waiting p + a.woken p := by
  cases hstep with
  | resume r _ _ =>
    simp only [drop_apply]
    split <;> omega
  | block r hfull | reblock r _ hfull =>
    have hpr : p ≠ r := by
      rintro rfl
      omega
    simp [bump_apply, drop_apply, hpr]
  | wake q r hwaiting _ =>
    simp only [bump_apply, drop_apply]
    by_cases hpr : p = r
    · subst hpr
      simp only [if_true]
      omega
    · simp [hpr]
  | _ => exact Nat.le_refl _

end Tally

/-! ## From tasks to numbers -/

namespace Traffic

def tally (s : Traffic) : Tally where
  capacity := s.queue.capacity
  count := fun p => (s.queue.prio p).count
  waiting := perLevel s.level s.queue.sendWaiters
  woken := perLevel s.level s.wokenSenders

theorem count_storeMessage (q : MsgQueue) (r : Nat) (msg : Memory) :
    (fun p => ((storeMessage q r msg).1.prio p).count) = bump (fun p => (q.prio p).count) r := by
  funext p
  rw [bump_apply]
  by_cases hp : p = r <;> simp [storeMessage, hp]

theorem count_takeMessage (q : MsgQueue) (r : Nat) (msg : Memory) :
    (fun p => ((takeMessage q r msg).1.prio p).count) = drop (fun p => (q.prio p).count) r := by
  funext p
  rw [drop_apply]
  by_cases hp : p = r <;> simp [takeMessage, hp]

variable {s : Traffic} {t : Nat}

theorem tally_sendRound_full (h : s.queue.capacity ≤ (s.queue.prio (s.level t)).count) :
    (s.sendRound t).tally = { s.tally with waiting := bump s.tally.waiting (s.level t) } := by
  rw [sendRound, if_pos h]
  exact Tally.ext rfl rfl (perLevel_cons t) rfl

theorem tally_sendRound_space (h : ¬ (s.queue.prio (s.level t)).count ≥ s.queue.capacity) :
    (s.sendRound t).tally = { s.tally with count := bump s.tally.count (s.level t) } := by
  rw [sendRound, if_neg h]
  exact Tally.ext rfl (count_storeMessage _ _ _) rfl rfl

theorem tally_sent (s : Traffic) (msg : Option Memory) (priority : Int) :
    s.tally.Step (s.sent msg priority).tally := by
  cases msg with
  | none => exact .idle _
  | some msg =>
    by_cases h : (s.queue.prio (clampPriority priority)).count ≥ s.queue.capacity
    · have hsame : (s.sent (some msg) priority).tally = s.tally := by
        simp only [sent, msgSendPriority, if_pos h]
        rfl
      rw [hsame]
      exact .idle _
    have hstore : (s.sent (some msg) priority).tally =
        { s.tally with
          count := bump s.tally.count (clampPriority priority) } := by
      simp only [sent, msgSendPriority, if_neg h]
      exact Tally.ext rfl (count_storeMessage _ _ _) rfl rfl
    rw [hstore]
    exact .store _ _

theorem tally_begin (h : ¬ s.inCall t = true)
    (send : Nat × Memory) : (s.begin t send).tally = s.tally := by
  simp only [inCall, decide_eq_true_eq, not_or] at h
  have hlevel : ∀ u, u ≠ t → (s.begin t send).level u = s.level u := by
    intro u hu
    simp [begin, level, update_of_ne hu]
  refine Tally.ext rfl rfl (perLevel_congr fun u hu => hlevel u ?_)
    (perLevel_congr fun u hu => hlevel u ?_)
  · rintro rfl
    exact h.1 hu
  rintro rfl
  exact h.2.2.1 hu

theorem tally_resumeSender (h : t ∈ s.wokenSenders) :
    (s.resumeSender t).tally = { s.tally with woken := drop s.tally.woken (s.level t) } :=
  Tally.ext rfl rfl rfl (perLevel_erase h)

theorem tally_resume (h : trafficStep s (.resumeSend t) = some s') : t ∈ s.wokenSenders ∧
    ((s.tally.count (s.level t) < s.tally.capacity ∧ s'.tally =
        { s.tally with
          woken := drop s.tally.woken (s.level t)
          count := bump s.tally.count (s.level t) }) ∨
    (s.tally.capacity ≤ s.tally.count (s.level t) ∧ s'.tally =
        { s.tally with
          woken := drop s.tally.woken (s.level t)
          waiting := bump s.tally.waiting (s.level t) })) := by
  cases trafficStep_acts h with
  | resumeSend t hmem =>
    refine ⟨hmem, ?_⟩
    by_cases hfull : (s.queue.prio (s.level t)).count ≥ s.queue.capacity
    · right
      have hround : ((s.resumeSender t).sendRound t).tally =
          { (s.resumeSender t).tally with
            waiting := bump s.tally.waiting (s.level t) } :=
        tally_sendRound_full hfull
      exact ⟨hfull, by rw [hround, tally_resumeSender hmem]⟩
    left
    have hround : ((s.resumeSender t).sendRound t).tally =
        { (s.resumeSender t).tally with
          count := bump s.tally.count (s.level t) } :=
      tally_sendRound_space hfull
    exact ⟨Nat.lt_of_not_ge hfull, by rw [hround, tally_resumeSender hmem]⟩

theorem msgRecv_cases (q : MsgQueue) (msg : Option Memory) :
    ((msgRecv q msg).woken = none ∧ (msgRecv q msg).queue = q) ∨
    ∃ p streak dest, Due (fun p => (q.prio p).count > 0) q.highPrioRecvCount p ∧
      (msgRecv q msg).woken = (wakeOne q.sendWaiters).1 ∧
      (msgRecv q msg).queue = (takeMessage { q with highPrioRecvCount := streak } p dest).1 := by
  cases msg with
  | none => exact .inl ⟨rfl, rfl⟩
  | some dest =>
    by_cases hempty : q.totalCount = 0
    · simp [msgRecv, hempty]
    cases hdue : dueLevel (fun p => (q.prio p).count > 0) q.highPrioRecvCount with
    | none => simp [msgRecv, hempty, selectRecvPriority_eq, hdue]
    | some p =>
      right
      refine ⟨p, nextStreak q.highPrioRecvCount p % 2 ^ 32, dest, due_of_dueLevel hdue, ?_, ?_⟩
      · simp [msgRecv, hempty, selectRecvPriority_eq, hdue, takeMessage]
      · simp [msgRecv, hempty, selectRecvPriority_eq, hdue]

/--
Before a receive: nobody waits for the level that is due, or the head of
`send_waiters` does, or more senders of that level have been woken than it has
free slots.
-/
def WakesRight (s : Traffic) : Prop :=
  ∀ p t waiters, Due (fun p => (s.queue.prio p).count > 0) s.queue.highPrioRecvCount p →
    s.queue.sendWaiters = t :: waiters →
    (∀ u ∈ s.queue.sendWaiters, s.level u ≠ p) ∨ s.level t = p ∨ s.queue.capacity <
        (s.queue.prio p).count + perLevel s.level s.wokenSenders p

theorem tally_received (h : s.WakesRight)
    (msg : Option Memory) : s.tally.Step (s.received msg).tally := by
  rcases msgRecv_cases s.queue msg with ⟨hwoken, hqueue⟩ | hserved
  · have hsame : (s.received msg).tally = s.tally := by
      simp only [received, hwoken, hqueue, Option.toList_none, List.append_nil]
    rw [hsame]
    exact .idle _
  obtain ⟨p, streak, dest, hdue, hwoken, hqueue⟩ := hserved
  cases hwaiters : s.queue.sendWaiters with
  | nil =>
    have htake : (s.received msg).tally = { s.tally with count := drop s.tally.count p } := by
      simp only [received, hqueue, hwoken, hwaiters, wakeOne, Option.toList_none, List.append_nil]
      refine Tally.ext rfl (count_takeMessage _ p dest) ?_ rfl
      simp only [tally, takeMessage, hwaiters, wakeOne]
      rfl
    rw [htake]
    refine .take _ p fun r => ?_
    simp [tally, hwaiters, perLevel]
  | cons t waiters =>
    have hwake : (s.received msg).tally =
        { s.tally with
          count := drop s.tally.count p
          waiting := drop s.tally.waiting (s.level t)
          woken := bump s.tally.woken (s.level t) } := by
      simp only [received, hqueue, hwoken, hwaiters, wakeOne, Option.toList_some]
      refine Tally.ext rfl (count_takeMessage _ p dest) ?_ (perLevel_concat t)
      simp only [tally, takeMessage, hwaiters, wakeOne]
      rw [perLevel_cons, drop_bump]
      rfl
    rw [hwake]
    refine .wake _ p (s.level t) ?_ ?_
    · exact perLevel_pos.mpr ⟨t, by simp [hwaiters], rfl⟩
    rcases h p t waiters hdue hwaiters with hnone | hright
    · left
      refine Nat.eq_zero_of_not_pos fun hpos => ?_
      obtain ⟨u, hu, heq⟩ := perLevel_pos.mp hpos
      exact hnone u hu heq
    · exact .inr hright

theorem tally_recvRound (h : s.WakesRight) (t : Nat)
    (msg : Memory) : s.tally.Step (s.recvRound t msg).tally := by
  unfold recvRound
  split
  · exact .idle _
  · exact tally_received h _

end Traffic

def RightWake (s : Traffic) : Action → Prop
  | .send _ _ _ => True
  | .resumeSend _ => True
  | .trySend _ _ => True
  | .recv _ _ => s.WakesRight
  | .resumeRecv _ _ => s.WakesRight
  | .tryRecv _ => s.WakesRight

theorem tally_step (hok : RightWake s a)
    (h : trafficStep s a = some s') : s.tally.Step s'.tally := by
  cases trafficStep_acts h with
  | send t msg priority hcall =>
    rw [← Traffic.tally_begin hcall (clampPriority priority, msg)]
    generalize s.begin t (clampPriority priority, msg) = s₁
    by_cases hfull : (s₁.queue.prio (s₁.level t)).count ≥ s₁.queue.capacity
    · rw [Traffic.tally_sendRound_full hfull]
      exact .block _ _ hfull
    rw [Traffic.tally_sendRound_space hfull]
    exact .store _ _
  | resumeSend t =>
    obtain ⟨hmem, ⟨hspace, heq⟩ | ⟨hfull, heq⟩⟩ := Traffic.tally_resume h
    · rw [heq]
      exact .resume _ _ (perLevel_pos.mpr ⟨t, hmem, rfl⟩) hspace
    rw [heq]
    exact .reblock _ _ (perLevel_pos.mpr ⟨t, hmem, rfl⟩) hfull
  | trySend msg priority => exact s.tally_sent msg priority
  | recv t msg => exact Traffic.tally_recvRound hok t msg
  | resumeRecv t msg =>
    have hright : (s.resumeReceiver t).WakesRight := hok
    exact Traffic.tally_recvRound hright t msg
  | tryRecv msg => exact Traffic.tally_received hok msg

end SlmOs.Ipc
