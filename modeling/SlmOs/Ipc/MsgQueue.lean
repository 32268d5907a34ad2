import SlmOs.Pmm.Allocator

/-!
# Message queues

A model of the message queues in `kernel/ipc/ipc.c`.  A queue has one buffer of
bytes that is cut into four sections, one for each priority, and each section is
a ring of slots of `msg_size` bytes.  Sizes and offsets are 64-bit words.  Memory
is a function from offsets to bytes; a pointer argument is the memory it points
to, and `none` if it is null.

Every function here is one critical section under the lock of the queue.  The
tasks on the two wait lists are known by their number, and the task that a call
wakes is part of its result.
-/

namespace SlmOs.Ipc

open Function

open Pmm (BuddyState pmmAllocPages pmmFreePages pageSize wordModulus)

def msgQueueMaxCapacity : Nat := 65536

def msgSizeDefault : Nat := 64

def msgQueueMax : Nat := 32

def msgPrioCount : Nat := 4

def msgStarvationThreshold : Nat := 8

abbrev Memory := Nat → UInt8

inductive IpcStatus where
  | ok
  | full
  | empty
  | invalid
  deriving DecidableEq, Repr

/-- `struct prio_buffer`: messages enter at `head` and leave at `tail`. -/
structure PrioBuffer where
  head : Nat
  tail : Nat
  count : Nat
  deriving DecidableEq, Repr

structure MsgQueue where
  id : Nat
  msgSize : Nat
  capacity : Nat
  totalCapacity : Nat
  totalCount : Nat
  buffer : Memory
  prio : Nat → PrioBuffer
  highPrioRecvCount : Nat
  sendWaiters : List Nat
  recvWaiters : List Nat
  msgsSent : Nat
  msgsRecv : Nat
  highWater : Nat
  prioMsgsSent : Nat → Nat

structure IpcState where
  taken : Nat → Bool
  nextQueueId : Nat

/-! ## Copying -/

def ipcMemcpy (dest : Memory) (d : Nat) (src : Memory) (s : Nat) : Nat → Memory
  | 0 => dest
  | n + 1 => ipcMemcpy (update dest d (src s)) (d + 1) src (s + 1) n

theorem ipcMemcpy_apply (src : Memory) : ∀ (n : Nat) (dest : Memory)
    (d s i : Nat), ipcMemcpy dest d src s n i =
      if d ≤ i ∧ i < d + n then src (s + (i - d)) else dest i := by
  intro n
  induction n with
  | zero =>
    intro dest d s i
    rw [ipcMemcpy, if_neg (by omega)]
  | succ n ih =>
    intro dest d s i
    rw [ipcMemcpy, ih]
    by_cases hi : i = d
    · subst hi
      rw [if_neg (by omega), if_pos (by omega), update_self, Nat.sub_self, Nat.add_zero]
    rw [update_of_ne hi]
    by_cases hin : d ≤ i ∧ i < d + (n + 1)
    · rw [if_pos (by omega), if_pos hin]
      congr 1
      omega
    · rw [if_neg (by omega), if_neg hin]

def readBytes (mem : Memory) (off n : Nat) : List UInt8 :=
  (List.range n).map fun i => mem (off + i)

theorem readBytes_congr (h : ∀ i < n, mem' (off' + i) = mem (off + i)) :
    readBytes mem' off' n = readBytes mem off n := by
  exact List.map_congr_left fun i hi => h i (List.mem_range.mp hi)

theorem readBytes_memcpy_self (dest src : Memory) (d s n : Nat) :
    readBytes (ipcMemcpy dest d src s n) d n = readBytes src s n := by
  refine readBytes_congr fun i hi => ?_
  rw [ipcMemcpy_apply, if_pos (by omega), Nat.add_sub_cancel_left]

theorem readBytes_memcpy_disjoint (dest src : Memory) (h : off + m ≤ d ∨ d + n ≤ off) :
    readBytes (ipcMemcpy dest d src s n) off m = readBytes dest off m := by
  refine readBytes_congr fun i hi => ?_
  rw [ipcMemcpy_apply, if_neg (by omega)]

/-! ## Creating a queue -/

def IpcState.freeSlot (st : IpcState) : Option Nat :=
  (List.range msgQueueMax).find? fun i => !st.taken i

def emptyQueue (id capacity msgSize totalCapacity : Nat) : MsgQueue where
  id := id
  msgSize := msgSize
  capacity := capacity
  totalCapacity := totalCapacity
  totalCount := 0
  buffer := fun _ => 0
  prio := fun _ => ⟨0, 0, 0⟩
  highPrioRecvCount := 0
  sendWaiters := []
  recvWaiters := []
  msgsSent := 0
  msgsRecv := 0
  highWater := 0
  prioMsgsSent := fun _ => 0

/-- The result is `none` only if the page allocator does not return. -/
def msgQueueCreate (heap : BuddyState) (st : IpcState) (capacity msgSize : Nat) :
    Option (BuddyState × IpcState × Option MsgQueue) :=
  if capacity = 0 ∨ capacity > msgQueueMaxCapacity then some (heap, st, none)
  else
    let msgSize := if msgSize = 0 then msgSizeDefault else msgSize
    let totalCapacity := capacity * msgPrioCount
    if msgSize > (wordModulus - 1) / totalCapacity then some (heap, st, none)
    else
      let bufferSize := totalCapacity * msgSize
      -- the rounding may wrap around; no pages are then asked for
      let pagesNeeded := (bufferSize + pageSize - 1) % wordModulus / pageSize
      do
        let (heap, queue) ← pmmAllocPages heap 1
        if queue = 0 then some (heap, st, none)
        else do
          let (heap, buffer) ← pmmAllocPages heap pagesNeeded
          if buffer = 0 then do
            let heap ← pmmFreePages heap queue 1
            some (heap, st, none)
          else
            match st.freeSlot with
            | some i =>
              some (heap,
                { taken := update st.taken i true
                  nextQueueId := (st.nextQueueId + 1) % 2 ^ 32 },
                some (emptyQueue st.nextQueueId capacity msgSize totalCapacity))
            | none => do
                let heap ← pmmFreePages heap buffer pagesNeeded
                let heap ← pmmFreePages heap queue 1
                some (heap, st, none)

/-! ## Sending -/

def prioSlot (q : MsgQueue) (prio idx : Nat) : Nat :=
  let baseOffset := prio * q.capacity % wordModulus * q.msgSize % wordModulus
  let slotOffset := idx * q.msgSize % wordModulus
  (baseOffset + slotOffset) % wordModulus

def wakeOne : List Nat → Option Nat × List Nat
  | [] => (none, [])
  | t :: waiters => (some t, waiters)

def clampPriority (priority : Int) : Nat :=
  if priority < 0 then 0 else if priority > 3 then 3 else priority.toNat

theorem clampPriority_lt (priority : Int) : clampPriority priority < msgPrioCount := by
  unfold clampPriority msgPrioCount
  split
  · omega
  split
  · omega
  · omega

/-- The rest of `msg_send_priority` once the level has space. -/
def storeMessage (q : MsgQueue) (priority : Nat) (msg : Memory) : MsgQueue × Option Nat :=
  let pb := q.prio priority
  let slot := prioSlot q priority pb.head
  let totalCount := q.totalCount + 1
  let woken := wakeOne q.recvWaiters
  ({ q with
      buffer := ipcMemcpy q.buffer slot msg 0 q.msgSize
      prio := update q.prio priority
        { pb with head := (pb.head + 1) % q.capacity, count := pb.count + 1 }
      totalCount := totalCount
      msgsSent := (q.msgsSent + 1) % wordModulus
      prioMsgsSent := update q.prioMsgsSent priority ((q.prioMsgsSent priority + 1) % wordModulus)
      highWater := if totalCount > q.highWater then totalCount else q.highWater
      recvWaiters := woken.2 }, woken.1)

/-- `msg_send_priority` with `MSG_NO_WAIT`. -/
def msgSendPriority (q : MsgQueue) (msg : Option Memory) (priority : Int) :
    MsgQueue × IpcStatus × Option Nat :=
  match msg with
  | none => (q, .invalid, none)
  | some msg =>
    let priority := clampPriority priority
    if (q.prio priority).count ≥ q.capacity then (q, .full, none)
    else
      let stored := storeMessage q priority msg
      (stored.1, .ok, stored.2)

/-! ## Receiving -/

def levelsUp : List Nat := [0, 1, 2, 3]

def levelsDown : List Nat := [3, 2, 1, 0]

def selectHighest (q : MsgQueue) : MsgQueue × Option Nat :=
  match levelsDown.find? fun p => (q.prio p).count > 0 with
  | some p =>
    ({ q with
        highPrioRecvCount :=
          if p > 0 then (q.highPrioRecvCount + 1) % 2 ^ 32 else 0 }, some p)
  | none => (q, none)

def selectRecvPriority (q : MsgQueue) : MsgQueue × Option Nat :=
  if q.highPrioRecvCount ≥ msgStarvationThreshold then
    match levelsUp.find? fun p => (q.prio p).count > 0 with
    | some p => ({ q with highPrioRecvCount := 0 }, some p)
    | none => selectHighest q
  else selectHighest q

def takeMessage (q : MsgQueue) (prio : Nat) (msg : Memory) : MsgQueue × Memory × Option Nat :=
  let pb := q.prio prio
  let slot := prioSlot q prio pb.tail
  let woken := wakeOne q.sendWaiters
  ({ q with
      prio := update q.prio prio
        { pb with tail := (pb.tail + 1) % q.capacity, count := pb.count - 1 }
      totalCount := q.totalCount - 1
      msgsRecv := (q.msgsRecv + 1) % wordModulus
      sendWaiters := woken.2 },
    ipcMemcpy msg 0 q.buffer slot q.msgSize, woken.1)

structure RecvResult where
  queue : MsgQueue
  status : IpcStatus
  msg : Option Memory
  woken : Option Nat

/-- `msg_recv` with `MSG_NO_WAIT`. -/
def msgRecv (q : MsgQueue) (msg : Option Memory) : RecvResult :=
  match msg with
  | none => ⟨q, .invalid, none, none⟩
  | some msg =>
    if q.totalCount = 0 then ⟨q, .empty, some msg, none⟩
    else
      match selectRecvPriority q with
      | (q, none) => ⟨q, .empty, some msg, none⟩
      | (q, some prio) =>
        let taken := takeMessage q prio msg
        ⟨taken.1, .ok, some taken.2.1, taken.2.2⟩

end SlmOs.Ipc
