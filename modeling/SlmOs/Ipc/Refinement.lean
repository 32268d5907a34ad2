import SlmOs.Ipc.Levels

/-!
# Message queues refine their levels

`Refines` says that the rings of a queue hold the four lists of `Levels`.  The
slots of a queue are disjoint pieces of its buffer, so that a write to one slot
leaves every other slot alone.  Both operations keep the relation and give the
answer of the lists, hence so does every sequence of them on every queue that
`msg_queue_create` returns.
-/

namespace SlmOs.Ipc

open Function Foundation Levels Option
open Pmm (BuddyState pmmAllocPages pageSize wordModulus)

/-! ## Slots -/

def Fits (q : MsgQueue) : Prop :=
  q.capacity * msgPrioCount * q.msgSize < wordModulus

def slotBytes (q : MsgQueue) (p i : Nat) : List UInt8 :=
  readBytes q.buffer (prioSlot q p i) q.msgSize

variable {c i p : Nat}

theorem slot_index_lt (hp : p < msgPrioCount) (hi : i < c) : p * c + i + 1 ≤ c * msgPrioCount := by
  calc p * c + i + 1 ≤ (p + 1) * c := by
        rw [Nat.succ_mul]
        omega
    _ ≤ msgPrioCount * c := Nat.mul_le_mul_right _ hp
    _ = c * msgPrioCount := Nat.mul_comm _ _

theorem slot_index_inj (hi : i < c) (hj : j < c) (h : p * c + i = r * c + j) : p = r ∧ i = j := by
  have hc : 0 < c := by omega
  have hdiv : (p * c + i) / c = (r * c + j) / c := congrArg (· / c) h
  rw [Nat.mul_comm p, Nat.mul_comm r, Nat.mul_add_div hc, Nat.mul_add_div hc,
    Nat.div_eq_of_lt hi, Nat.div_eq_of_lt hj] at hdiv
  have hpr : p = r := by omega
  subst hpr
  exact ⟨rfl, Nat.add_left_cancel h⟩

theorem slot_end_le (hp : p < msgPrioCount) (hi : i < c)
    (n : Nat) : (p * c + i) * n + n ≤ c * msgPrioCount * n := by
  rw [← Nat.succ_mul]
  exact Nat.mul_le_mul_right _ (slot_index_lt hp hi)

theorem prioSlot_eq (hfits : Fits q) (hp : p < msgPrioCount) (hi : i < q.capacity) :
    prioSlot q p i = (p * q.capacity + i) * q.msgSize := by
  have hend := slot_end_le hp hi q.msgSize
  unfold Fits at hfits
  rcases Nat.eq_zero_or_pos q.msgSize with hzero | hpos
  · simp [prioSlot, hzero]
  have hle : (p * q.capacity) * 1 ≤ p * q.capacity * q.msgSize := Nat.mul_le_mul_left _ hpos
  have hsplit : (p * q.capacity + i) * q.msgSize =
      p * q.capacity * q.msgSize + i * q.msgSize := Nat.add_mul _ _ _
  have hbase : p * q.capacity % wordModulus = p * q.capacity := Nat.mod_eq_of_lt (by omega)
  simp only [prioSlot, hbase]
  rw [Nat.mod_eq_of_lt (a := p * q.capacity * q.msgSize) (by omega),
    Nat.mod_eq_of_lt (a := i * q.msgSize) (by omega),
    Nat.mod_eq_of_lt (by omega), hsplit]

theorem slots_disjoint (hfits : Fits q) (hp : p < msgPrioCount) (hi : i < q.capacity)
    (hr : r < msgPrioCount) (hj : j < q.capacity) (hne : (p, i) ≠ (r, j)) :
    prioSlot q p i + q.msgSize ≤ prioSlot q r j ∨ prioSlot q r j + q.msgSize ≤ prioSlot q p i := by
  rw [prioSlot_eq hfits hp hi, prioSlot_eq hfits hr hj, ← Nat.succ_mul, ← Nat.succ_mul]
  have hindex : p * q.capacity + i ≠ r * q.capacity + j := by
    intro h
    obtain ⟨hpr, hij⟩ := slot_index_inj hi hj h
    exact hne (Prod.ext hpr hij)
  rcases Nat.lt_or_gt_of_ne hindex with hlt | hgt
  · exact .inl (Nat.mul_le_mul_right _ hlt)
  · exact .inr (Nat.mul_le_mul_right _ hgt)

def overwrite (dest : Memory) (msg : List UInt8) : Memory :=
  fun i => msg.getD i (dest i)

theorem memcpy_eq_overwrite (dest src : Memory) (s n : Nat) :
    ipcMemcpy dest 0 src s n = overwrite dest (readBytes src s n) := by
  funext i
  rw [ipcMemcpy_apply]
  by_cases hi : i < n <;> simp [overwrite, readBytes, hi]

/-! ## The relation -/

structure RingOk (capacity : Nat) (pb : PrioBuffer) : Prop where
  tail : pb.tail < capacity
  count : pb.count ≤ capacity
  head : pb.head = (pb.tail + pb.count) % capacity

theorem RingOk.push (h : RingOk c pb) (hspace : pb.count < c) :
    RingOk c { pb with head := (pb.head + 1) % c, count := pb.count + 1 } where
  tail := h.tail
  count := hspace
  head := by
    rw [h.head, Nat.mod_add_mod, Nat.add_assoc]

theorem RingOk.pop (h : RingOk c pb) (hcount : 0 < pb.count) :
    RingOk c { pb with tail := (pb.tail + 1) % c, count := pb.count - 1 } where
  tail := Nat.mod_lt _ (by have := h.tail; omega)
  count := by
    have := h.count
    simp only
    omega
  head := by
    have hsum : pb.tail + 1 + (pb.count - 1) = pb.tail + pb.count := by omega
    rw [h.head, Nat.mod_add_mod, hsum]

def content (q : MsgQueue) (p : Nat) : List (List UInt8) :=
  ringList (slotBytes q p) q.capacity (q.prio p).tail (q.prio p).count

def countSum (prio : Nat → PrioBuffer) : Nat :=
  (levelsUp.map fun p => (prio p).count).sum

theorem countSum_update (prio : Nat → PrioBuffer) (hp : p < msgPrioCount) (pb : PrioBuffer) :
    countSum (update prio p pb) + (prio p).count = countSum prio + pb.count := by
  rcases level_cases hp with rfl | rfl | rfl | rfl <;>
    simp [countSum, levelsUp, update] <;> omega

theorem countSum_eq_zero {prio : Nat → PrioBuffer} :
    countSum prio = 0 ↔ ∀ p < msgPrioCount, (prio p).count = 0 := by
  constructor
  · intro h p hp
    simp only [countSum, levelsUp, List.map_cons, List.map_nil, List.sum_cons, List.sum_nil] at h
    rcases level_cases hp with rfl | rfl | rfl | rfl <;> omega
  intro h
  simp [countSum, levelsUp, h 0 (by decide), h 1 (by decide), h 2 (by decide), h 3 (by decide)]

/-- The queue holds messages of `size` bytes, those of the four lists. -/
structure Refines (slots size : Nat) (q : MsgQueue)
    (f : Levels (List UInt8)) : Prop where
  fits : Fits q
  capacity : q.capacity = slots
  bounded : f.capacity = slots
  size : q.msgSize = size
  ring : ∀ p < msgPrioCount, RingOk q.capacity (q.prio p)
  level : ∀ p < msgPrioCount, f.level p = content q p
  total : q.totalCount = countSum q.prio
  streak : q.highPrioRecvCount = f.streak
  bound : f.streak ≤ msgStarvationThreshold

namespace Refines

variable {slots size : Nat} {q : MsgQueue} {f : Levels (List UInt8)}

theorem capacity_eq (h : Refines slots size q f) : f.capacity = q.capacity :=
  h.bounded.trans h.capacity.symm

variable {p : Nat}

theorem length_level (h : Refines slots size q f) (hp : p < msgPrioCount) :
    (f.level p).length = (q.prio p).count := by
  rw [h.level p hp]
  exact length_ringList _ _ _ _

theorem level_eq_nil (h : Refines slots size q f) (hp : p < msgPrioCount) :
    f.level p = [] ↔ (q.prio p).count = 0 := by
  rw [← h.length_level hp, List.length_eq_zero_iff]

/-! ## Sending -/

theorem slotBytes_store_self (q : MsgQueue) (p : Nat) (msg : Memory) :
    slotBytes (storeMessage q p msg).1 p (q.prio p).head = readBytes msg 0 q.msgSize :=
  readBytes_memcpy_self _ _ _ _ _

section

variable (h : Refines slots size q f)
include h

theorem slotBytes_store_of_ne (msg : Memory) (hp : p < msgPrioCount) (hr : r < msgPrioCount)
    (hj : j < q.capacity) (hne : (r, j) ≠ (p, (q.prio p).head)) :
    slotBytes (storeMessage q p msg).1 r j = slotBytes q r j := by
  have hring := h.ring p hp
  have hhead : (q.prio p).head < q.capacity := by
    rw [hring.head]
    exact Nat.mod_lt _ (by omega)
  exact readBytes_memcpy_disjoint _ _ (slots_disjoint h.fits hr hj hp hhead hne)

theorem content_store_self (msg : Memory)
    (hp : p < msgPrioCount) (hspace : (q.prio p).count < q.capacity) :
    content (storeMessage q p msg).1 p = content q p ++ [readBytes msg 0 size] := by
  have hring := h.ring p hp
  have hothers : ∀ j < q.capacity, j ≠ ((q.prio p).tail + (q.prio p).count) % q.capacity →
      slotBytes (storeMessage q p msg).1 p j = slotBytes q p j := by
    intro j hj hne
    refine h.slotBytes_store_of_ne msg hp hp hj fun heq => hne ?_
    rw [← hring.head]
    exact (Prod.ext_iff.mp heq).2
  have hpush := ringList_push _ _ hspace hothers
  rw [← hring.head, slotBytes_store_self, h.size] at hpush
  simpa [content, storeMessage] using hpush

theorem content_store_of_ne (msg : Memory) (hp : p < msgPrioCount) (hr : r < msgPrioCount)
    (hne : r ≠ p) : content (storeMessage q p msg).1 r = content q r := by
  have hcap : 0 < q.capacity := by
    have := (h.ring p hp).tail
    omega
  have hothers : ∀ j < q.capacity,
      slotBytes (storeMessage q p msg).1 r j = slotBytes q r j := fun j hj =>
    h.slotBytes_store_of_ne msg hp hr hj fun heq => hne (Prod.ext_iff.mp heq).1
  have hsame := ringList_congr _ _ hcap hothers (q.prio r).tail (q.prio r).count
  simpa [content, storeMessage, update_of_ne hne] using hsame

theorem store (msg : Memory) (hp : p < msgPrioCount) (hspace : (q.prio p).count < q.capacity) :
    ∃ g, f.send p (readBytes msg 0 size) = some g ∧
      Refines slots size (storeMessage q p msg).1 g := by
  have hlt : (f.level p).length < f.capacity := by
    rw [h.length_level hp, h.capacity_eq]
    exact hspace
  refine ⟨_, if_pos hlt, h.fits, h.capacity, h.bounded, h.size, ?_, ?_, ?_, h.streak, h.bound⟩
  · intro r hr
    by_cases hrp : r = p
    · subst hrp
      simpa [storeMessage] using (h.ring r hr).push hspace
    · simpa [storeMessage, update_of_ne hrp] using h.ring r hr
  · intro r hr
    by_cases hrp : r = p
    · subst hrp
      rw [h.content_store_self msg hr hspace, ← h.level r hr]
      simp
    rw [h.content_store_of_ne msg hp hr hrp, ← h.level r hr]
    simp [update_of_ne hrp]
  have hsum := countSum_update q.prio hp
    { q.prio p with
      head := ((q.prio p).head + 1) % q.capacity
      count := (q.prio p).count + 1 }
  have htotal := h.total
  simp only [storeMessage]
  simp only at hsum
  omega

/-! ## Receiving -/

theorem busy (hp : p < msgPrioCount) : decide ((q.prio p).count > 0) = f.busy p := by
  rw [Bool.eq_iff_iff]
  simp [Levels.busy, h.level_eq_nil hp, Nat.pos_iff_ne_zero]

theorem select : selectRecvPriority q =
      match f.next with
      | some p => ({ q with highPrioRecvCount := nextStreak f.streak p }, some p)
      | none => (q, none) := by
  have hsmall : ∀ p, nextStreak f.streak p % 2 ^ 32 = nextStreak f.streak p := by
    intro p
    have hle := nextStreak_le f.streak p
    unfold msgStarvationThreshold at hle
    exact Nat.mod_eq_of_lt (by omega)
  rw [selectRecvPriority_eq, h.streak, dueLevel_congr f.streak fun p hp => h.busy hp]
  simp only [hsmall]
  rfl

theorem content_pop (hp : p < msgPrioCount) (hcount : 0 < (q.prio p).count) :
    content q p = slotBytes q p (q.prio p).tail :: ringList (slotBytes q p) q.capacity
        (((q.prio p).tail + 1) % q.capacity) ((q.prio p).count - 1) := by
  have hpop := ringList_pop (slotBytes q p) q.capacity (q.prio p).tail ((q.prio p).count - 1)
  rw [Nat.sub_add_cancel hcount, Nat.mod_eq_of_lt (h.ring p hp).tail] at hpop
  exact hpop

theorem take (hdue : Due f.busy f.streak p) (dest : Memory) :
    let taken := takeMessage { q with highPrioRecvCount := nextStreak f.streak p } p dest
    Refines slots size taken.1 (f.serve p) ∧
      (f.level p).head?.map (overwrite dest) = some taken.2.1 := by
  have hp := hdue.lt
  have hcount : 0 < (q.prio p).count := Nat.pos_of_ne_zero fun hzero =>
      nonempty_of_due hdue ((h.level_eq_nil hp).mpr hzero)
  have hpop := h.content_pop hp hcount
  refine ⟨⟨h.fits, h.capacity, h.bounded, h.size, ?_, ?_, ?_, rfl, nextStreak_le f.streak p⟩, ?_⟩
  · intro r hr
    by_cases hrp : r = p
    · subst hrp
      simpa [takeMessage] using (h.ring r hr).pop hcount
    · simpa [takeMessage, update_of_ne hrp] using h.ring r hr
  · intro r hr
    by_cases hrp : r = p
    · subst hrp
      simp only [serve, update_self]
      rw [h.level r hr, hpop, List.tail_cons]
      simp only [content, takeMessage, update_self]
      rfl
    simp only [serve, update_of_ne hrp]
    rw [h.level r hr]
    simp only [content, takeMessage, update_of_ne hrp]
    rfl
  · have hsum := countSum_update q.prio hp
      { q.prio p with
        tail := ((q.prio p).tail + 1) % q.capacity
        count := (q.prio p).count - 1 }
    have htotal := h.total
    simp only [takeMessage]
    simp only at hsum
    omega
  rw [h.level p hp, hpop]
  simp only [List.head?_cons, map_some, takeMessage, memcpy_eq_overwrite]
  rfl

/-! ## Requests -/

theorem send_status (msg : Memory) (priority : Int) : (msgSendPriority q (some msg) priority).2.1 =
      if (f.level (clampPriority priority)).length = f.capacity then .full
      else .ok := by
  have hp := clampPriority_lt priority
  have hcount := (h.ring _ hp).count
  rw [h.length_level hp, h.capacity_eq]
  by_cases hfull : (q.prio (clampPriority priority)).count = q.capacity
  · simp [msgSendPriority, hfull]
  have hspace : ¬ (q.prio (clampPriority priority)).count ≥ q.capacity := by
    omega
  simp [msgSendPriority, hfull, hspace]

theorem recv (dest : Memory) : (f.recv = none ∧
      msgRecv q (some dest) = ⟨q, .empty, some dest, none⟩) ∨
    ∃ p m, f.recv = some (f.serve p, m) ∧ (msgRecv q (some dest)).status = .ok ∧
      (msgRecv q (some dest)).msg = some (overwrite dest m) ∧
      Refines slots size (msgRecv q (some dest)).queue (f.serve p) := by
  by_cases hempty : q.totalCount = 0
  · left
    refine ⟨Levels.recv_eq_none.mpr fun p hp => ?_, ?_⟩
    · rw [h.level_eq_nil hp]
      exact countSum_eq_zero.mp (h.total.symm.trans hempty) p hp
    · simp [msgRecv, hempty]
  right
  cases hnext : f.next with
  | none =>
    have hzero : countSum q.prio = 0 := countSum_eq_zero.mpr fun p hp =>
      (h.level_eq_nil hp).mp (Levels.next_eq_none.mp hnext p hp)
    exact absurd (h.total.trans hzero) hempty
  | some p =>
    obtain ⟨href, hmsg⟩ := h.take (due_of_dueLevel hnext) dest
    obtain ⟨m, hm, hover⟩ := map_eq_some_iff.mp hmsg
    have hselect := h.select
    rw [hnext] at hselect
    have hrecv : f.recv = some (f.serve p, m) := by
      simp [Levels.recv, hnext, hm]
    refine ⟨p, m, hrecv, ?_, ?_, ?_⟩
    · simp [msgRecv, hempty, hselect]
    · simpa [msgRecv, hempty, hselect] using hover.symm
    · simpa [msgRecv, hempty, hselect] using href

end

end Refines

inductive Request where
  | send (msg : Option Memory) (priority : Int)
  | recv (msg : Option Memory)

def MsgQueue.answer (q : MsgQueue) : Request → MsgQueue × IpcStatus × Option Memory
  | .send msg priority =>
    let sent := msgSendPriority q msg priority
    (sent.1, sent.2.1, none)
  | .recv msg =>
    let received := msgRecv q msg
    (received.queue, received.status, received.msg)

def Levels.answer (size : Nat) (f : Levels (List UInt8)) :
    Request → Levels (List UInt8) × IpcStatus × Option Memory
  | .send none _ => (f, .invalid, none)
  | .send (some msg) priority =>
    match f.send (clampPriority priority) (readBytes msg 0 size) with
    | some g => (g, .ok, none)
    | none => (f, .full, none)
  | .recv none => (f, .invalid, none)
  | .recv (some dest) =>
    match f.recv with
    | some (g, m) => (g, .ok, some (overwrite dest m))
    | none => (f, .empty, some dest)

theorem Refines.answer {slots size : Nat} {q : MsgQueue} {f : Levels (List UInt8)}
    (h : Refines slots size q f) (a : Request) :
    (q.answer a).2 = (f.answer size a).2 ∧
      Refines slots size (q.answer a).1 (f.answer size a).1 := by
  match a with
  | .send none priority => exact ⟨rfl, h⟩
  | .recv none => exact ⟨rfl, h⟩
  | .send (some msg) priority =>
    have hp := clampPriority_lt priority
    by_cases hfull : (q.prio (clampPriority priority)).count ≥ q.capacity
    · have hnone : f.send (clampPriority priority) (readBytes msg 0 size) = none := by
        refine if_neg ?_
        rw [h.length_level hp, h.capacity_eq]
        omega
      simpa [MsgQueue.answer, Levels.answer, msgSendPriority, hfull, hnone] using h
    obtain ⟨g, hsend, href⟩ := h.store msg hp (by omega)
    simpa [MsgQueue.answer, Levels.answer, msgSendPriority, hfull, hsend] using href
  | .recv (some dest) =>
    rcases h.recv dest with ⟨hnone, hres⟩ | ⟨p, m, hsome, hok, hmsg, href⟩
    · simpa [MsgQueue.answer, Levels.answer, hnone, hres] using h
    · simpa [MsgQueue.answer, Levels.answer, hsome, hok, hmsg] using href

/-! ## Queues that have been created -/

theorem pmmAllocPages_ne_zero
    (h : pmmAllocPages heap count = some (heap', page)) (hpage : page ≠ 0) :
    count ≠ 0 := by
  rintro rfl
  unfold pmmAllocPages at h
  split at h <;> simp_all

theorem le_pages (hn : n < wordModulus) (hpages : (n + pageSize - 1) % wordModulus / pageSize ≠ 0) :
    n ≤ (n + pageSize - 1) % wordModulus / pageSize * pageSize := by
  unfold pageSize wordModulus at *
  omega

theorem created {heap heap' : BuddyState} {st st' : IpcState} {capacity msgSize : Nat}
    {q : MsgQueue} (h : msgQueueCreate heap st capacity msgSize = some (heap', st', some q)) :
    ∃ size, 0 < capacity ∧ q = emptyQueue st.nextQueueId capacity size (capacity * msgPrioCount) ∧
      capacity * msgPrioCount * size < wordModulus ∧
      capacity * msgPrioCount * size ≤
        (capacity * msgPrioCount * size + pageSize - 1) % wordModulus / pageSize * pageSize := by
  unfold msgQueueCreate at h
  by_cases hcap : capacity = 0 ∨ capacity > msgQueueMaxCapacity
  · simp [hcap] at h
  rw [if_neg hcap] at h
  simp only at h
  generalize (if msgSize = 0 then msgSizeDefault else msgSize) = size at h
  by_cases hsize : size > (wordModulus - 1) / (capacity * msgPrioCount)
  · simp [hsize] at h
  rw [if_neg hsize] at h
  have hpos : 0 < capacity * msgPrioCount := by
    unfold msgPrioCount
    omega
  have hfits : capacity * msgPrioCount * size < wordModulus := by
    have hle := (Nat.le_div_iff_mul_le hpos).mp (Nat.le_of_not_lt hsize)
    rw [Nat.mul_comm] at hle
    unfold wordModulus at *
    omega
  obtain ⟨⟨heap₁, queue⟩, -, h⟩ := bind_eq_some_iff.mp h
  by_cases hqueue : queue = 0
  · simp [hqueue] at h
  rw [if_neg hqueue] at h
  obtain ⟨⟨heap₂, buffer⟩, hbuffer, h⟩ := bind_eq_some_iff.mp h
  by_cases hzero : buffer = 0
  · simp [hzero, bind_eq_some_iff] at h
  rw [if_neg hzero] at h
  have hpages := le_pages hfits (pmmAllocPages_ne_zero hbuffer hzero)
  cases hslot : st.freeSlot with
  | none => simp [hslot, bind_eq_some_iff] at h
  | some i =>
    simp only [hslot, Option.some.injEq, Prod.mk.injEq] at h
    exact ⟨size, by omega, h.2.2.symm, hfits, hpages⟩

theorem refines_empty (id total : Nat) {capacity size : Nat} (hcap : 0 < capacity)
    (hfits : capacity * msgPrioCount * size < wordModulus) :
    Refines capacity size (emptyQueue id capacity size total) (Levels.empty capacity) where
  fits := hfits
  size := rfl
  capacity := rfl
  bounded := rfl
  ring := fun _ _ => ⟨hcap, Nat.zero_le _, (Nat.zero_mod _).symm⟩
  level := fun _ _ => rfl
  total := rfl
  streak := rfl
  bound := Nat.zero_le _

theorem countSum_levels (h : Refines slots size q f) :
    countSum q.prio = (levelsUp.map fun p => (f.level p).length).sum := by
  unfold countSum
  congr 1
  exact List.map_congr_left fun p hp =>
    (h.length_level (mem_levelsUp.mp hp)).symm

/--
Every created queue answers every sequence of requests as its four lists do, and
holds them in slots that do not overlap.
-/
theorem queue_answers_as_levels {heap heap' : BuddyState} {st st' : IpcState}
    {capacity msgSize : Nat} {q : MsgQueue}
    (hcreate : msgQueueCreate heap st capacity msgSize = some (heap', st', some q))
    (requests : List Request) :
    let finish := respond MsgQueue.answer q requests
    let lists := respond (Levels.answer q.msgSize) (Levels.empty capacity) requests
    finish.2 = lists.2 ∧
    (∀ p < msgPrioCount, content finish.1 p = lists.1.level p) ∧
    finish.1.totalCount = (levelsUp.map fun p => (lists.1.level p).length).sum ∧
    (∀ msg priority, (msgSendPriority finish.1 (some msg) priority).2.1 =
        if (lists.1.level (clampPriority priority)).length = capacity then
          .full
        else .ok) ∧
    (∀ dest, ((msgRecv finish.1 (some dest)).status = .empty ∧
        ∀ p < msgPrioCount, lists.1.level p = []) ∨
      ((msgRecv finish.1 (some dest)).status = .ok ∧ ∃ p m l, Due lists.1.busy lists.1.streak p ∧
          lists.1.level p = m :: l ∧
          (msgRecv finish.1 (some dest)).msg = some (overwrite dest m))) ∧
    (∀ p i r j, p < msgPrioCount → i < capacity → r < msgPrioCount →
      j < capacity → (p, i) ≠ (r, j) →
      prioSlot finish.1 p i + q.msgSize ≤ prioSlot finish.1 r j ∨
        prioSlot finish.1 r j + q.msgSize ≤ prioSlot finish.1 p i) ∧
    (∀ p i, p < msgPrioCount → i < capacity → prioSlot finish.1 p i + q.msgSize ≤
        (q.totalCapacity * q.msgSize + pageSize - 1) % wordModulus / pageSize * pageSize) := by
  obtain ⟨size, hpos, rfl, hfits, hpages⟩ := created hcreate
  intro finish lists
  have hstart := refines_empty st.nextQueueId (capacity * msgPrioCount) hpos hfits
  obtain ⟨houts, href⟩ := respond_refines (fun q f a h => h.answer a) requests _ _ hstart
  have hcap : finish.1.capacity = capacity := href.capacity
  have hsize : finish.1.msgSize = size := href.size
  refine ⟨houts, fun p hp => (href.level p hp).symm,
    href.total.trans (countSum_levels href), ?_, ?_, ?_, ?_⟩
  · intro msg priority
    have hstatus := href.send_status msg priority
    rw [href.bounded] at hstatus
    exact hstatus
  · intro dest
    rcases href.recv dest with ⟨hnone, hres⟩ | ⟨p, m, hsome, hok, hmsg, -⟩
    · left
      exact ⟨by rw [hres], Levels.recv_eq_none.mp hnone⟩
    right
    obtain ⟨r, hdue, hlevel, -⟩ := Levels.recv_eq_some hsome
    exact ⟨hok, r, m, _, hdue, hlevel, hmsg⟩
  · intro p i r j hp hi hr hj hne
    have hdisj := slots_disjoint href.fits hp (hcap.symm ▸ hi) hr (hcap.symm ▸ hj) hne
    rw [hsize] at hdisj
    exact hdisj
  intro p i hp hi
  rw [prioSlot_eq href.fits hp (hcap.symm ▸ hi), hcap, hsize]
  exact (slot_end_le hp hi size).trans hpages

def smallHeap : BuddyState where
  mem := fun _ => ⟨0, 0⟩
  freeLists := fun o => if o = 1 then 8192 else 0
  freeCounts := fun o => if o = 1 then 1 else 0
  heapStart := 8192
  heapEnd := 16384
  freePages := 2
  allocCount := 0
  freeCount := 0
  splitCount := 0
  mergeCount := 0
  initialized := true
  blockState := fun _ => .free

def noQueues : IpcState := ⟨fun _ => false, 0⟩

def object (bytes : List UInt8) : Memory := fun i => bytes.getD i 0

theorem queue_answers_as_levels_pair : ∃ heap' st' q, msgQueueCreate smallHeap noQueues 2 1 =
        some (heap', st', some q) ∧
      (respond MsgQueue.answer q [.send (some (object [1])) 0, .send (some (object [2])) 3,
            .recv (some (object []))]).2 =
        (respond (Levels.answer q.msgSize) (Levels.empty 2)
          [.send (some (object [1])) 0, .send (some (object [2])) 3,
            .recv (some (object []))]).2 := by
  have hcreate : msgQueueCreate smallHeap noQueues 2 1 = some (_, _, some _) := rfl
  exact ⟨_, _, _, hcreate, (queue_answers_as_levels hcreate _).1⟩

/--
A queue for messages of one byte accepts an object of two bytes, and delivers
only the first of them.
-/
theorem oversize_message_accepted : ∃ heap' st' q, msgQueueCreate smallHeap noQueues 2 1 =
        some (heap', st', some q) ∧
      q.msgSize < [1, 2].length ∧
      (msgSendPriority q (some (object [1, 2])) 1).2.1 = .ok ∧
      (msgRecv (msgSendPriority q (some (object [1, 2])) 1).1
        (some (object []))).msg.map (readBytes · 0 2) = some [1, 0] :=
  ⟨_, _, _, rfl, by decide, rfl, by decide⟩

end SlmOs.Ipc
