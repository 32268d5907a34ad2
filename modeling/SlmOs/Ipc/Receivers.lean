import SlmOs.Ipc.Starvation

/-!
# Wake-ups of receivers

A receiver blocks only while the queue is empty, and every message that is stored
while somebody waits wakes one receiver.  Another receiver may take the message
before the woken one runs, but then there is one message less.  So as long as
somebody waits, the woken receivers suffice for the messages.
-/

namespace SlmOs.Ipc

open Foundation List Traffic Option
open Pmm (BuddyState)

@[ext]
structure Receivers where
  waiting : List Nat
  messages : Nat
  woken : List Nat

namespace Receivers

inductive Step : Receivers → Receivers → Prop
  | idle (r : Receivers) : Step r r
  | store (r : Receivers) (hnone : r.waiting = []) :
      Step r { r with messages := r.messages + 1 }
  | wake (r : Receivers) (t : Nat) (l : List Nat) (hwaiting : r.waiting = t :: l) :
      Step r ⟨l, r.messages + 1, r.woken ++ [t]⟩
  | take (r : Receivers) : Step r { r with messages := r.messages - 1 }
  | block (r : Receivers) (t : Nat) (hempty : r.messages = 0)
      (hnew : t ∉ r.waiting ++ r.woken) : Step r { r with waiting := t :: r.waiting }
  | resume (r : Receivers) (t : Nat) (hwoken : t ∈ r.woken) :
      Step r { r with messages := r.messages - 1, woken := r.woken.erase t }
  | reblock (r : Receivers) (t : Nat) (hempty : r.messages = 0) (hwoken : t ∈ r.woken) :
      Step r { r with waiting := t :: r.waiting, woken := r.woken.erase t }

/-- While somebody waits, the woken receivers suffice for the messages. -/
structure Served (r : Receivers) : Prop where
  enough : r.waiting ≠ [] → r.messages ≤ r.woken.length
  once : (r.waiting ++ r.woken).Nodup

theorem Served.step {r r' : Receivers} (h : r.Served) (hstep : Step r r') : r'.Served := by
  cases hstep with
  | idle => exact h
  | store hnone => exact ⟨fun hne => absurd hnone hne, h.once⟩
  | wake t l hwaiting =>
    have henough := h.enough (by simp [hwaiting])
    have honce := h.once
    rw [hwaiting] at honce
    refine ⟨fun _ => by simpa using henough, ?_⟩
    refine (List.Perm.nodup_iff ?_).mp honce
    rw [← append_assoc]
    exact (perm_append_singleton t _).symm
  | take => exact ⟨fun hne => (Nat.sub_le _ _).trans (h.enough hne), h.once⟩
  | block t hempty hnew =>
    exact ⟨fun _ => by simp [hempty], nodup_cons.mpr ⟨hnew, h.once⟩⟩
  | resume t hwoken =>
    refine ⟨fun hne => ?_, h.once.sublist (List.Sublist.append_left erase_sublist _)⟩
    have henough := h.enough hne
    have hlen := length_erase_of_mem hwoken
    simp only
    omega
  | reblock t hempty hwoken =>
    refine ⟨fun _ => by simp [hempty], (List.Perm.nodup_iff ?_).mp h.once⟩
    refine ((perm_cons_erase hwoken).append_left _).trans ?_
    exact perm_middle

end Receivers

/-! ## From tasks to receivers -/

def Traffic.receivers (s : Traffic) : Receivers :=
  ⟨s.queue.recvWaiters, s.queue.totalCount, s.wokenReceivers⟩

theorem receivers_stored (q : MsgQueue) (p : Nat) (msg : Memory) (woken : List Nat) :
    (Receivers.mk q.recvWaiters q.totalCount woken).Step
      ⟨(storeMessage q p msg).1.recvWaiters, (storeMessage q p msg).1.totalCount,
        woken ++ (storeMessage q p msg).2.toList⟩ := by
  unfold storeMessage
  cases hwaiting : q.recvWaiters with
  | nil =>
    simp only [wakeOne, toList_none, append_nil]
    exact .store _ rfl
  | cons t l =>
    simp only [wakeOne, toList_some]
    exact .wake _ t l rfl

theorem Traffic.receivers_sendRound (s : Traffic) (t : Nat) :
    s.receivers.Step (s.sendRound t).receivers := by
  unfold sendRound
  simp only
  split
  · exact .idle _
  · exact receivers_stored _ _ _ _

theorem Traffic.receivers_sent (s : Traffic) (msg : Option Memory) (priority : Int) :
    s.receivers.Step (s.sent msg priority).receivers := by
  cases msg with
  | none =>
    simp only [sent, msgSendPriority, toList_none, append_nil]
    exact .idle _
  | some msg =>
    simp only [sent, msgSendPriority]
    split
    · simp only [toList_none, append_nil]
      exact .idle _
    · exact receivers_stored _ _ _ _

theorem msgRecv_receivers (q : MsgQueue) (msg : Option Memory) :
    (msgRecv q msg).queue.recvWaiters = q.recvWaiters ∧ (msgRecv q msg).queue.totalCount =
        if (msgRecv q msg).status = .ok then q.totalCount - 1 else q.totalCount := by
  cases msg with
  | none => simp [msgRecv]
  | some dest =>
    by_cases hempty : q.totalCount = 0
    · simp [msgRecv, hempty]
    cases hdue : dueLevel (fun p => (q.prio p).count > 0) q.highPrioRecvCount with
    | none => simp [msgRecv, hempty, selectRecvPriority_eq, hdue]
    | some p => simp [msgRecv, hempty, selectRecvPriority_eq, hdue, takeMessage]

theorem Traffic.receivers_received (s : Traffic) (msg : Option Memory) :
    s.receivers.Step (s.received msg).receivers := by
  obtain ⟨hwaiting, hcount⟩ := msgRecv_receivers s.queue msg
  unfold received receivers
  simp only [hwaiting, hcount]
  split
  · exact .take _
  · exact .idle _

theorem Traffic.Stands.receivers_step (h : s.Stands slots size f)
    (hstep : trafficStep s a = some s') : s.receivers.Step s'.receivers := by
  cases trafficStep_acts hstep with
  | send t msg priority => exact (s.begin t (clampPriority priority, msg)).receivers_sendRound t
  | resumeSend t => exact (s.resumeSender t).receivers_sendRound t
  | trySend msg priority => exact s.receivers_sent msg priority
  | recv t msg hcall =>
    by_cases hempty : s.queue.totalCount = 0
    · rw [Traffic.recvRound, if_pos hempty]
      refine .block s.receivers t hempty ?_
      simp only [Traffic.inCall, decide_eq_true_eq, not_or] at hcall
      simp [Traffic.receivers, hcall.2.1, hcall.2.2.2]
    rw [Traffic.recvRound, if_neg hempty]
    exact s.receivers_received _
  | resumeRecv t msg hwoken =>
    by_cases hempty : s.queue.totalCount = 0
    · rw [Traffic.recvRound, if_pos (show (s.resumeReceiver t).queue.totalCount = 0 from hempty)]
      exact .reblock s.receivers t hempty hwoken
    -- the counter is right, so that a woken receiver does find a message
    obtain ⟨-, -, -, -, -, hok, -⟩ := h.served hempty msg
    obtain ⟨hwaiting, hcount⟩ := msgRecv_receivers s.queue (some msg)
    rw [if_pos hok] at hcount
    rw [Traffic.recvRound, if_neg (show ¬(s.resumeReceiver t).queue.totalCount = 0 from hempty)]
    have hresume := Receivers.Step.resume s.receivers t hwoken
    simp only [Traffic.receivers, Traffic.received, Traffic.resumeReceiver, hwaiting,
      hcount] at hresume ⊢
    exact hresume
  | tryRecv msg => exact s.receivers_received msg

/--
In every run, as long as a receiver waits, as many receivers have been woken and
have not run yet as there are messages.  So none waits while there is a message
and every woken receiver has run.
-/
theorem woken_receivers_suffice {heap heap' : BuddyState} {st st' : IpcState}
    {capacity msgSize : Nat} {q : MsgQueue} {s : Traffic}
    (hcreate : msgQueueCreate heap st capacity msgSize = some (heap', st', some q))
    (hrun : Run trafficStep (fun _ _ => True) (Traffic.idle q) s) :
    (s.queue.recvWaiters ++ s.wokenReceivers).Nodup ∧
    (s.queue.recvWaiters ≠ [] → s.queue.totalCount ≤ s.wokenReceivers.length) ∧
    (s.wokenReceivers = [] → 0 < s.queue.totalCount → s.queue.recvWaiters = []) := by
  have hinv : (∃ slots size f, s.Stands slots size f) ∧ s.receivers.Served := by
    refine Run.invariant
      (I := fun s => (∃ slots size f, s.Stands slots size f) ∧ s.receivers.Served) ?_
      ⟨stands_idle hcreate, ?_⟩ hrun
    · rintro s a s' ⟨⟨slots, size, f, h⟩, hserved⟩ - hstep
      obtain ⟨g, hg, -⟩ := h.step hstep
      exact ⟨⟨slots, size, g, hg⟩, hserved.step (h.receivers_step hstep)⟩
    obtain ⟨size, -, rfl, -⟩ := created hcreate
    exact ⟨fun hne => absurd rfl hne, nodup_nil⟩
  have hserved := hinv.2
  refine ⟨hserved.once, hserved.enough, fun hnone hpos => ?_⟩
  by_contra hne
  have henough := hserved.enough hne
  simp only [receivers, hnone, length_nil] at henough
  omega

/-- Two receivers that have blocked, and a message that has woken one of them. -/
theorem woken_receivers_suffice_pair : ∃ heap' st' s, msgQueueCreate smallHeap noQueues 2 1 =
        some (heap', st', some (emptyQueue 0 2 1 8)) ∧
      Run trafficStep (fun _ _ => True) (Traffic.idle (emptyQueue 0 2 1 8)) s ∧
      s.queue.recvWaiters = [1] ∧ s.wokenReceivers = [2] ∧
      s.queue.totalCount ≤ s.wokenReceivers.length := by
  have hcreate : msgQueueCreate smallHeap noQueues 2 1 =
      some (_, _, some (emptyQueue 0 2 1 8)) := rfl
  have hrun : Run trafficStep (fun _ _ => True) (idle (emptyQueue 0 2 1 8)) _ :=
    run_exec [.recv 1 (object []), .recv 2 (object []), .trySend (some (object [7])) 0] rfl
  exact ⟨_, _, _, hcreate, hrun, rfl, rfl,
    (woken_receivers_suffice hcreate hrun).2.1 (cons_ne_nil 1 [])⟩

end SlmOs.Ipc
