import SlmOs.Ipc.Senders

/-!
# Wake-ups of senders over whole runs

If every receive wakes the right sender, the woken senders of a level suffice for
its free slots in every state of a run, and along a fair run no sender is left
waiting while its level has space.  The code does not ensure this: a wake-up that
goes to a sender of another level is lost, and a run in which that happens again
and again starves a sender whose level is empty.
-/

namespace SlmOs.Ipc

open Foundation Traffic Option

/-! ## Runs -/

theorem Traffic.sendRound_tasks (s : Traffic) (t : Nat) : (s.sendRound t).pending = s.pending ∧
      (s.sendRound t).wokenSenders = s.wokenSenders := by
  unfold sendRound
  simp only
  split <;> exact ⟨rfl, rfl⟩

theorem Traffic.recvRound_tasks (s : Traffic) (t : Nat) (msg : Memory) :
    (s.recvRound t msg).pending = s.pending ∧
      s.wokenSenders ⊆ (s.recvRound t msg).wokenSenders := by
  unfold recvRound
  split
  · exact ⟨rfl, fun _ h => h⟩
  · exact ⟨rfl, List.subset_append_left _ _⟩

theorem call_step (h : trafficStep s a = some s') (hu : s.inCall u = true) :
    s'.level u = s.level u ∧ (u ∈ s.wokenSenders → a ≠ .resumeSend u → u ∈ s'.wokenSenders) := by
  cases trafficStep_acts h with
  | send t msg priority hcall =>
    have hne : u ≠ t := by
      rintro rfl
      exact hcall hu
    obtain ⟨hpending, hwoken⟩ := (s.begin t (clampPriority priority, msg)).sendRound_tasks t
    rw [level, hpending, hwoken]
    refine ⟨?_, fun hmem _ => hmem⟩
    simp [begin, level, Function.update_of_ne hne]
  | resumeSend t =>
    obtain ⟨hpending, hwoken⟩ := (s.resumeSender t).sendRound_tasks t
    rw [level, hpending, hwoken]
    refine ⟨rfl, fun hu hne => ?_⟩
    have hut : u ≠ t := fun heq => hne (by rw [heq])
    exact (List.mem_erase_of_ne hut).mpr hu
  | trySend msg priority => exact ⟨rfl, fun hmem _ => hmem⟩
  | recv t msg hcall =>
    obtain ⟨hpending, hwoken⟩ := s.recvRound_tasks t msg
    rw [level, hpending]
    exact ⟨rfl, fun hmem _ => hwoken hmem⟩
  | resumeRecv t msg =>
    obtain ⟨hpending, hwoken⟩ := (s.resumeReceiver t).recvRound_tasks t msg
    rw [level, hpending]
    exact ⟨rfl, fun hmem _ => hwoken hmem⟩
  | tryRecv msg => exact ⟨rfl, fun hmem _ => List.mem_append_left _ hmem⟩

theorem served_of_run (hstart : s₀.queue.sendWaiters = [])
    (hrun : Run trafficStep RightWake s₀ s) : s.tally.Served := by
  refine Run.invariant (I := fun s => s.tally.Served) ?_ ?_ hrun
  · exact fun s a t hserved hok hstep => hserved.step (tally_step hok hstep)
  intro p hp
  simp [tally, hstart, perLevel] at hp

theorem exists_resume {r : Trace trafficStep RightWake}
    (hfair : ∀ i t, t ∈ (r.state i).wokenSenders → ∃ j, i ≤ j ∧ r.act j = .resumeSend t)
    (hu : u ∈ (r.state i).wokenSenders) :
    ∃ j, i ≤ j ∧ r.act j = .resumeSend u ∧ (r.state j).level u = (r.state i).level u := by
  obtain ⟨j, hij, hact⟩ := hfair i u hu
  -- induction on the distance: either `u` runs now or it is still woken next
  obtain ⟨d, rfl⟩ := Nat.exists_eq_add_of_le hij
  clear hij
  induction d generalizing i with
  | zero => exact ⟨i, Nat.le_refl i, hact, rfl⟩
  | succ d ih =>
    by_cases hnow : r.act i = .resumeSend u
    · exact ⟨i, Nat.le_refl i, hnow, rfl⟩
    have hcall : (r.state i).inCall u = true := by
      simp [inCall, hu]
    obtain ⟨hlevel, hstays⟩ := call_step (r.step_act i) hcall
    obtain ⟨j, hij, hj, heq⟩ := ih (hstays hu hnow) (by rwa [Nat.add_right_comm, Nat.add_assoc])
    exact ⟨j, Nat.le_of_succ_le hij, hj, heq.trans hlevel⟩

theorem senders_lt_of_resume (h : trafficStep s (.resumeSend t) = some s')
    (hspace : s.tally.count (s.level t) < s.tally.capacity) :
    s'.tally.waiting (s.level t) + s'.tally.woken (s.level t) <
      s.tally.waiting (s.level t) + s.tally.woken (s.level t) := by
  obtain ⟨hmem, ⟨-, heq⟩ | ⟨hfull, -⟩⟩ := tally_resume h
  · have hpos : 0 < s.tally.woken (s.level t) := perLevel_pos.mpr ⟨t, hmem, rfl⟩
    rw [heq]
    simp only [drop_apply, if_true]
    omega
  · omega

theorem not_waiting_forever {r : Trace trafficStep RightWake}
    (hstart : (r.state 0).queue.sendWaiters = [])
    (hfair : ∀ i t, t ∈ (r.state i).wokenSenders →
      ∃ j, i ≤ j ∧ r.act j = .resumeSend t) (n t : Nat) :
    ¬ ∀ i, n ≤ i → t ∈ (r.state i).queue.sendWaiters ∧
      ((r.state i).queue.prio ((r.state i).level t)).count < (r.state i).queue.capacity := by
  intro hstuck
  have hlevel : ∀ i, n ≤ i → (r.state i).level t = (r.state n).level t := by
    intro i hi
    induction hi with
    | refl => rfl
    | @step i hi ih =>
      have hcall : (r.state i).inCall t = true := by
        simp [inCall, (hstuck i hi).1]
      exact (call_step (r.step_act _) hcall).1.trans ih
  generalize hp : (r.state n).level t = p at hlevel
  have hspace : ∀ i, n ≤ i → (r.state i).tally.count p < (r.state i).tally.capacity := by
    intro i hi
    have hlt := (hstuck i hi).2
    rwa [hlevel i hi] at hlt
  let senders := fun i =>
    (r.state i).tally.waiting p + (r.state i).tally.woken p
  refine no_endless_descent (m := senders) (n := n) ?_ ?_
  · exact fun i hi =>
      (tally_step (r.ok_act i) (r.step_act i)).senders_le (hspace i hi)
  intro i hi
  have hserved := served_of_run hstart (r.run i) p
    (perLevel_pos.mpr ⟨t, (hstuck i hi).1, hlevel i hi⟩)
  have hlt := hspace i hi
  have hwoken : 0 < (r.state i).tally.woken p := by omega
  obtain ⟨u, hu, hup⟩ := perLevel_pos.mp hwoken
  obtain ⟨j, hij, hact, hj⟩ := exists_resume hfair hu
  have hstep := r.step_act j
  rw [hact] at hstep
  have hjp : (r.state j).level u = p := hj.trans hup
  have hlt := senders_lt_of_resume hstep (by rw [hjp]; exact hspace j (Nat.le_trans hi hij))
  rw [hjp] at hlt
  exact ⟨j, hij, hlt⟩

/--
If every receive finds the right sender at the head of the list, a sender that
waits for a level with space implies a woken sender that takes this space when it
runs, and no sender waits for ever while its level has space.
-/
theorem senders_not_stuck {s₀ : Traffic} (hstart : s₀.queue.sendWaiters = []) :
    (∀ s, Run trafficStep RightWake s₀ s → ∀ t ∈ s.queue.sendWaiters,
      (s.queue.prio (s.level t)).count < s.queue.capacity →
      ∃ u ∈ s.wokenSenders, s.level u = s.level t ∧ ∃ s', trafficStep s (.resumeSend u) = some s' ∧
          (s'.queue.prio (s.level t)).count = (s.queue.prio (s.level t)).count + 1) ∧
    (∀ r : Trace trafficStep RightWake, r.state 0 = s₀ → (∀ i t, t ∈ (r.state i).wokenSenders →
        ∃ j, i ≤ j ∧ r.act j = .resumeSend t) →
      ∀ n t, ¬ ∀ i, n ≤ i → t ∈ (r.state i).queue.sendWaiters ∧
        ((r.state i).queue.prio ((r.state i).level t)).count < (r.state i).queue.capacity) := by
  refine ⟨?_, ?_⟩
  · intro s hrun t ht hspace
    have hserved := served_of_run hstart hrun (s.level t) (perLevel_pos.mpr ⟨t, ht, rfl⟩)
    have hlt : s.tally.count (s.level t) < s.tally.capacity := hspace
    have hwoken : 0 < s.tally.woken (s.level t) := by omega
    obtain ⟨u, hu, hlevel⟩ := perLevel_pos.mp hwoken
    refine ⟨u, hu, hlevel, _, if_pos hu, ?_⟩
    obtain ⟨-, ⟨-, heq⟩ | ⟨hfull, -⟩⟩ := tally_resume (if_pos hu)
    · have hcount := congrArg (fun a => a.count (s.level t)) heq
      simp only [hlevel, bump_apply, if_true] at hcount
      exact hcount
    rw [hlevel] at hfull
    omega
  rintro r rfl hfair n t
  exact not_waiting_forever hstart hfair n t

def oneSlot : Traffic where
  queue := emptyQueue 0 1 1 4
  pending := fun _ => (0, fun _ => 0)
  wokenSenders := []
  wokenReceivers := []

def sameLevelSteps : List Action :=
  [.trySend (some fun _ => 7) 1, .send 1 (fun _ => 8) 1, .send 2 (fun _ => 9) 1,
    .tryRecv (some fun _ => 0)]

theorem sameLevel_along : Along trafficStep RightWake oneSlot sameLevelSteps := by
  refine ⟨trivial, trivial, trivial, ?_, trivial⟩
  intro p t waiters hdue hwaiters
  right
  left
  obtain ⟨rfl, -⟩ := List.cons.inj hwaiters
  have hbusy := hdue.occupied
  rcases level_cases hdue.lt with rfl | rfl | rfl | rfl
  · exact absurd hbusy (by decide)
  · rfl
  · exact absurd hbusy (by decide)
  · exact absurd hbusy (by decide)

theorem senders_not_stuck_pair : ∃ s, exec trafficStep oneSlot sameLevelSteps = some s ∧
      1 ∈ s.queue.sendWaiters ∧
      (s.queue.prio (s.level 1)).count < s.queue.capacity ∧
      ∃ u ∈ s.wokenSenders, s.level u = s.level 1 := by
  refine ⟨_, rfl, by decide, by decide, ?_⟩
  have hrun : Run trafficStep RightWake oneSlot _ :=
    run_of_exec _ _ sameLevelSteps _ _ sameLevel_along rfl
  obtain ⟨u, hu, hlevel, -⟩ := (senders_not_stuck rfl).1 _ hrun 1 (by decide) (by decide)
  exact ⟨u, hu, hlevel⟩

/--
The sender 1 waits for level 1 and then the sender 2 for level 0.  A receive
empties level 1 and wakes the sender 2, which finds level 0 still full and waits
again: level 1 has space, the sender 1 waits for it, and nobody is woken.
-/
def otherLevelSteps : List Action :=
  [.trySend (some fun _ => 7) 0, .trySend (some fun _ => 7) 1,
    .send 1 (fun _ => 8) 1, .send 2 (fun _ => 9) 0, .tryRecv (some fun _ => 0),
    .resumeSend 2]

theorem sender_left_waiting : ∃ s, exec trafficStep oneSlot otherLevelSteps = some s ∧
      1 ∈ s.queue.sendWaiters ∧
      (s.queue.prio (s.level 1)).count < s.queue.capacity ∧
      s.wokenSenders = [] :=
  ⟨_, rfl, by decide, by decide, rfl⟩

/-! ## A fair run that leaves a sender behind -/

/--
Senders 1 and 2 use levels 1 and 0 of a queue with one slot for each level; level
0 has `n` messages and no other level has any.
-/
structure Phase (waiters woken : List Nat) (n : Nat) (s : Traffic) : Prop where
  capacity : s.queue.capacity = 1
  waiters : s.queue.sendWaiters = waiters
  receivers : s.queue.recvWaiters = []
  woken : s.wokenSenders = woken
  idle : s.wokenReceivers = []
  low : (s.queue.prio 0).count = n
  others : ∀ p, p ≠ 0 → (s.queue.prio p).count = 0
  total : s.queue.totalCount = n
  one : s.level 1 = 1
  two : s.level 2 = 0

namespace Phase

theorem recv (h : Phase [2, 1] [] 1 s) (msg : Memory) :
    Phase [1] [2] 0 (s.received (some msg)) := by
  have hdue : dueLevel (fun p => (s.queue.prio p).count > 0)
      s.queue.highPrioRecvCount = some 0 := by
    unfold dueLevel
    split
    · simp [levelsUp, h.low]
    · simp [levelsDown, h.low, h.others]
  have hrecv : msgRecv s.queue (some msg) = ⟨(takeMessage { s.queue with
          highPrioRecvCount :=
            nextStreak s.queue.highPrioRecvCount 0 % 2 ^ 32 } 0 msg).1, .ok,
        some (takeMessage s.queue 0 msg).2.1, some 2⟩ := by
    simp [msgRecv, h.total, selectRecvPriority_eq, hdue, takeMessage, h.waiters, wakeOne, prioSlot]
  unfold received
  rw [hrecv]
  refine ⟨h.capacity, ?_, h.receivers, ?_, h.idle, ?_, fun p hp => ?_, ?_, h.one, h.two⟩
  · simp [takeMessage, h.waiters, wakeOne]
  · simp [h.woken]
  · simp [takeMessage, h.low]
  · simpa [takeMessage, hp] using h.others p hp
  · simp [takeMessage, h.total]

theorem resume (h : Phase [1] [2] 0 s) :
    ∃ s', trafficStep s (.resumeSend 2) = some s' ∧ Phase [1] [] 1 s' := by
  have hmem : 2 ∈ s.wokenSenders := by simp [h.woken]
  have hspace : ¬ ((s.resumeSender 2).queue.prio ((s.resumeSender 2).level 2)).count ≥
        (s.resumeSender 2).queue.capacity := by
    have hlevel : (s.resumeSender 2).level 2 = 0 := h.two
    rw [hlevel]
    change ¬ (s.queue.prio 0).count ≥ s.queue.capacity
    rw [h.low, h.capacity]
    decide
  have hlevel : (s.resumeSender 2).level 2 = 0 := h.two
  refine ⟨_, if_pos hmem, ?_⟩
  unfold sendRound
  simp only
  rw [if_neg hspace, hlevel]
  refine ⟨h.capacity, h.waiters, ?_, ?_, ?_, ?_, fun p hp => ?_, ?_, h.one, h.two⟩
  · simp [storeMessage, resumeSender, h.receivers, wakeOne]
  · simp [resumeSender, h.woken]
  · simp [storeMessage, resumeSender, h.receivers, wakeOne, h.idle]
  · simp [storeMessage, resumeSender, h.low]
  · simpa [storeMessage, resumeSender, hp] using h.others p hp
  · simp [storeMessage, resumeSender, h.total]

theorem send (h : Phase [1] [] 1 s) (msg : Memory) :
    ∃ s', trafficStep s (.send 2 msg 0) = some s' ∧ Phase [2, 1] [] 1 s' := by
  have hcall : ¬ s.inCall 2 = true := by
    simp [inCall, h.waiters, h.receivers, h.woken, h.idle]
  have hlevel : (s.begin 2 (clampPriority 0, msg)).level 2 = 0 := by
    simp [begin, level, clampPriority]
  have hfull : ((s.begin 2 (clampPriority 0, msg)).queue.prio
      ((s.begin 2 (clampPriority 0, msg)).level 2)).count ≥
        (s.begin 2 (clampPriority 0, msg)).queue.capacity := by
    rw [hlevel]
    change (s.queue.prio 0).count ≥ s.queue.capacity
    rw [h.low, h.capacity]
  refine ⟨_, if_neg hcall, ?_⟩
  unfold sendRound
  simp only
  rw [if_pos hfull]
  refine ⟨h.capacity, ?_, h.receivers, h.woken, h.idle, h.low, h.others, h.total, ?_, hlevel⟩
  · simp [begin, h.waiters]
  have hone : s.level 1 = 1 := h.one
  simpa [begin, level] using hone

end Phase

def cycle (i : Nat) : Action :=
  match i % 3 with
  | 0 => .tryRecv (some fun _ => 0)
  | 1 => .resumeSend 2
  | _ => .send 2 (fun _ => 9) 0

def cycleState (s : Traffic) : Nat → Traffic
  | 0 => s
  | i + 1 => (trafficStep (cycleState s i) (cycle i)).getD (cycleState s i)

def PhaseAt (i : Nat) : Traffic → Prop :=
  match i % 3 with
  | 0 => Phase [2, 1] [] 1
  | 1 => Phase [1] [2] 0
  | _ => Phase [1] [] 1

theorem phaseAt_step (h : PhaseAt i s) :
    ∃ s', trafficStep s (cycle i) = some s' ∧ PhaseAt (i + 1) s' := by
  have hcases : i % 3 = 0 ∧ (i + 1) % 3 = 1 ∨ i % 3 = 1 ∧ (i + 1) % 3 = 2 ∨
      i % 3 = 2 ∧ (i + 1) % 3 = 0 := by omega
  rcases hcases with ⟨hi, hnext⟩ | ⟨hi, hnext⟩ | ⟨hi, hnext⟩
  · simp only [PhaseAt, cycle, hi, hnext] at h ⊢
    exact ⟨_, rfl, h.recv _⟩
  · simp only [PhaseAt, cycle, hi, hnext] at h ⊢
    exact h.resume
  simp only [PhaseAt, cycle, hi, hnext] at h ⊢
  exact h.send _

theorem phaseAt_cycleState (h : PhaseAt 0 s) (i : Nat) : PhaseAt i (cycleState s i) := by
  induction i with
  | zero => exact h
  | succ i ih =>
    obtain ⟨s', hstep, hphase⟩ := phaseAt_step ih
    rw [cycleState, hstep]
    exact hphase

theorem PhaseAt.sender (h : PhaseAt i s) : 1 ∈ s.queue.sendWaiters ∧
      (s.queue.prio (s.level 1)).count < s.queue.capacity ∧
      ∀ t ∈ s.wokenSenders, cycle i = .resumeSend t := by
  have hcases : i % 3 = 0 ∨ i % 3 = 1 ∨ i % 3 = 2 := by omega
  rcases hcases with hi | hi | hi
  all_goals
    simp only [PhaseAt, hi] at h
    simp [h.waiters, h.one, h.others, h.capacity, h.woken, cycle, hi]

def leftWaiting : Traffic :=
  (exec trafficStep oneSlot otherLevelSteps).getD oneSlot

theorem leftWaiting_phase : PhaseAt 0 leftWaiting := by
  refine ⟨rfl, rfl, rfl, rfl, rfl, rfl, fun p hp => ?_, rfl, rfl, rfl⟩
  match p, hp with
  | 1, _ => rfl
  | p + 2, _ => rfl

/--
From a new queue, a run in which receives of a message never stop and every woken
sender runs at once, and in which the sender 1 waits for ever although its level
has a free slot all the time.
-/
theorem sender_starves : ∃ r : Trace trafficStep fun _ _ => True,
      Run trafficStep (fun _ _ => True) oneSlot (r.state 0) ∧
      (∀ i, ∃ j msg, i ≤ j ∧ r.act j = .tryRecv (some msg) ∧ 0 < (r.state j).queue.totalCount) ∧
      (∀ i t, t ∈ (r.state i).wokenSenders → r.act i = .resumeSend t) ∧
      ∀ i, 1 ∈ (r.state i).queue.sendWaiters ∧
        ((r.state i).queue.prio ((r.state i).level 1)).count < (r.state i).queue.capacity := by
  have hphase := phaseAt_cycleState leftWaiting_phase
  refine ⟨⟨cycleState leftWaiting, cycle, fun _ => trivial, fun i => ?_⟩,
    ?_, fun i => ?_, fun i => (hphase i).sender.2.2, fun i =>
      ⟨(hphase i).sender.1, (hphase i).sender.2.1⟩⟩
  · obtain ⟨s', hstep, -⟩ := phaseAt_step (hphase i)
    rw [cycleState, hstep]
    rfl
  · exact run_exec otherLevelSteps rfl
  have hmod : 3 * i % 3 = 0 := by omega
  have hfull := hphase (3 * i)
  simp only [PhaseAt, hmod] at hfull
  refine ⟨3 * i, fun _ => 0, by omega, ?_, ?_⟩
  · simp only [cycle, hmod]
  · simp [hfull.total]

end SlmOs.Ipc
