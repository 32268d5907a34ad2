import SlmOs.Foundation.Ring
import SlmOs.Foundation.Transition
import SlmOs.Sched.Kernel

/-!
# Steal deques

`kernel/sched/steal_deque.c`: two parallel arrays addressed by the free-running
32-bit counters `top` and `bottom`.  The array size divides `2 ^ 32`, so that the
slots stay consecutive when a counter wraps.  `steal_deque_remove` clears a slot
in place.  The gap counts towards the capacity until `pop` or `steal` passes it.

The slots from `top` to `bottom` are the list that the scheduler model works on.
-/

namespace SlmOs.Sched

open Function Foundation Kernel List Option Nat

structure StealDeque where
  buf : Nat → Option Nat
  genBuf : Nat → Nat
  bottom : Nat
  top : Nat

namespace StealDeque

def increment (i : Nat) : Nat := (i + 1) % 2 ^ 32

def decrement (i : Nat) : Nat := (i + (2 ^ 32 - 1)) % 2 ^ 32

def mask (i : Nat) : Nat := i &&& (stealDequeCapacity - 1)

def init : StealDeque := ⟨fun _ => none, fun _ => 0, 0, 0⟩

def size (d : StealDeque) : Nat := (d.bottom + 2 ^ 32 - d.top) % 2 ^ 32

def clear (d : StealDeque) (idx : Nat) : StealDeque :=
  { d with
    buf := update d.buf idx none
    genBuf := update d.genBuf idx 0 }

/-- `true` is the result 0, `false` is -1. -/
def push (d : StealDeque) (t generation : Nat) : StealDeque × Bool :=
  if d.size ≥ stealDequeCapacity then (d, false)
  else
    let idx := mask d.bottom
    ({ d with
        buf := update d.buf idx (some t)
        genBuf := update d.genBuf idx generation
        bottom := increment d.bottom }, true)

def dropBottom (d : StealDeque) : StealDeque :=
  { d.clear (mask (decrement d.bottom)) with bottom := decrement d.bottom }

def dropTop (d : StealDeque) : StealDeque :=
  { d.clear (mask d.top) with top := increment d.top }

/-- Slots cleared by `remove` are skipped. -/
def popLoop : Nat → StealDeque → Option (StealDeque × Option (Nat × Nat))
  | 0, _ => none
  | fuel + 1, d =>
    if d.bottom ≠ d.top then
      let idx := mask d.dropBottom.bottom
      match d.buf idx with
      | some t => some (d.dropBottom, some (t, d.genBuf idx))
      | none => popLoop fuel d.dropBottom
    else some (d, none)

/-- The task with its generation; the outer `none` stands for not returning. -/
def pop (d : StealDeque) : Option (StealDeque × Option (Nat × Nat)) :=
  popLoop (d.size + 1) d

def stealLoop : Nat → StealDeque → Option (StealDeque × Option (Nat × Nat))
  | 0, _ => none
  | fuel + 1, d =>
    if d.top ≠ d.bottom then
      let idx := mask d.top
      match d.buf idx with
      | some t => some (d.dropTop, some (t, d.genBuf idx))
      | none => stealLoop fuel d.dropTop
    else some (d, none)

def steal (d : StealDeque) : Option (StealDeque × Option (Nat × Nat)) :=
  stealLoop (d.size + 1) d

def removeLoop (d : StealDeque) (t : Nat) : Nat → Nat → Option (StealDeque × Nat)
  | 0, _ => none
  | fuel + 1, i =>
    if i ≠ d.bottom then
      if d.buf (mask i) = some t then some (d.clear (mask i), 1)
      else removeLoop d t fuel (increment i)
    else some (d, 0)

def remove (d : StealDeque) (t : Option Nat) : Option (StealDeque × Nat) :=
  match t with
  | none => some (d, 0)
  | some t => removeLoop d t (d.size + 1) d.top

/-! ## The slots -/

theorem mask_eq (i : Nat) : mask i = i % stealDequeCapacity := and_two_pow_sub_one_eq_mod i 5

theorem mask_mod (i : Nat) : mask (i % 2 ^ 32) = i % stealDequeCapacity := by
  rw [mask_eq, mod_mod_of_dvd _ (by decide)]

theorem increment_lt (i : Nat) : increment i < 2 ^ 32 := mod_lt _ (by decide)

theorem decrement_lt (i : Nat) : decrement i < 2 ^ 32 := mod_lt _ (by decide)

theorem increment_mod (i : Nat) : increment (i % 2 ^ 32) = (i + 1) % 2 ^ 32 := mod_add_mod i _ 1

-- otherwise the unifier evaluates them at `2 ^ 32`
attribute [irreducible] increment decrement mask

def slot (d : StealDeque) (i : Nat) : Option (Nat × Nat) :=
  (d.buf i).map fun t => (t, d.genBuf i)

def slots (d : StealDeque) : List (Option (Nat × Nat)) :=
  ringList d.slot stealDequeCapacity d.top d.size

@[simp] theorem length_slots (d : StealDeque) : d.slots.length = d.size := by
  simp [slots]

structure Valid (d : StealDeque) : Prop where
  bottom_lt : d.bottom < 2 ^ 32
  top_lt : d.top < 2 ^ 32
  size_le : d.size ≤ stealDequeCapacity

theorem valid_init : init.Valid := ⟨by decide, by decide, by decide⟩

theorem slots_init : init.slots = [] := by decide

variable {d : StealDeque}

theorem Valid.bottom_eq (h : d.Valid) : d.bottom = (d.top + d.size) % 2 ^ 32 := by
  have hb := h.bottom_lt
  have ht := h.top_lt
  unfold size
  omega

theorem Valid.mask_bottom (h : d.Valid) :
    mask d.bottom = (d.top + d.size) % stealDequeCapacity := by
  rw [h.bottom_eq, mask_mod]

theorem Valid.bottom_eq_top (h : d.Valid) : d.bottom = d.top ↔ d.size = 0 := by
  have hb := h.bottom_lt
  have ht := h.top_lt
  unfold size
  omega

@[simp] theorem clear_bottom (d : StealDeque) (idx : Nat) : (d.clear idx).bottom = d.bottom := by
  simp only [clear]

@[simp] theorem clear_top (d : StealDeque) (idx : Nat) : (d.clear idx).top = d.top := by
  simp only [clear]

@[simp] theorem clear_size (d : StealDeque) (idx : Nat) : (d.clear idx).size = d.size := by
  simp only [size, clear_bottom, clear_top]

theorem Valid.clear (h : d.Valid) (idx : Nat) : (d.clear idx).Valid := by
  refine ⟨?_, ?_, ?_⟩
  · rw [clear_bottom]
    exact h.bottom_lt
  · rw [clear_top]
    exact h.top_lt
  rw [clear_size]
  exact h.size_le

section

variable (d : StealDeque)

theorem slot_clear (idx : Nat) : (d.clear idx).slot = update d.slot idx none := by
  funext i
  by_cases hi : i = idx <;> simp [slot, clear, hi]

theorem slot_dropTop : d.dropTop.slot = update d.slot (mask d.top) none := by
  funext i
  by_cases hi : i = mask d.top <;> simp [slot, dropTop, clear, hi]

theorem slot_dropBottom : d.dropBottom.slot = update d.slot (mask (decrement d.bottom)) none := by
  funext i
  by_cases hi : i = mask (decrement d.bottom) <;> simp [slot, dropBottom, clear, hi]

@[simp] theorem dropBottom_top : d.dropBottom.top = d.top := by
  simp only [dropBottom, clear]

@[simp] theorem dropBottom_bottom : d.dropBottom.bottom = decrement d.bottom := by
  simp only [dropBottom]

@[simp] theorem dropTop_bottom : d.dropTop.bottom = d.bottom := by
  simp only [dropTop, clear]

@[simp] theorem dropTop_top : d.dropTop.top = increment d.top := by
  simp only [dropTop]

end

theorem push_eq (h : d.Valid) (t generation : Nat) : (d.push t generation).1.Valid ∧
    (d.push t generation).1.slots = (if d.size = stealDequeCapacity then d.slots
        else d.slots ++ [some (t, generation)]) ∧
    (d.push t generation).2 = decide (d.size ≠ stealDequeCapacity) := by
  have hle := h.size_le
  have ht := h.top_lt
  by_cases hfull : d.size = stealDequeCapacity
  · simp [push, hfull, h]
  have hlt : d.size < stealDequeCapacity := by omega
  have hsize : (d.push t generation).1.size = d.size + 1 := by
    rw [push, if_neg (by omega)]
    unfold size increment stealDequeCapacity at *
    simp only
    omega
  have hslot : (d.push t generation).1.slot =
      update d.slot (mask d.bottom) (some (t, generation)) := by
    rw [push, if_neg (by omega)]
    funext i
    by_cases hi : i = mask d.bottom <;> simp [slot, hi]
  have htop : (d.push t generation).1.top = d.top := by rw [push, if_neg (by omega)]
  refine ⟨⟨?_, ?_, ?_⟩, ?_, ?_⟩
  · rw [push, if_neg (by omega)]
    exact increment_lt _
  · rw [htop]
    exact ht
  · omega
  · rw [if_neg hfull, slots, slots, hsize, hslot, htop, h.mask_bottom, ringList_push d.slot _ hlt]
    · rw [update_self]
    · intro j _ hne
      rw [update_of_ne hne]
  · rw [push, if_neg (by omega), decide_eq_true hfull]

theorem dropTop_eq (h : d.Valid) (hpos : d.size ≠ 0) :
    d.dropTop.Valid ∧ d.dropTop.size + 1 = d.size ∧
      d.slots = d.slot (mask d.top) :: d.dropTop.slots := by
  have hle := h.size_le
  have hb := h.bottom_lt
  have hsize : d.dropTop.size + 1 = d.size := by
    unfold size at *
    simp only [dropTop_bottom, dropTop_top, increment]
    omega
  refine ⟨⟨by rwa [dropTop_bottom], ?_, by omega⟩, hsize, ?_⟩
  · rw [dropTop_top]
    exact increment_lt _
  have htop : increment d.top % stealDequeCapacity = (d.top + 1) % stealDequeCapacity := by
    rw [increment, mod_mod_of_dvd _ (by decide)]
  rw [slots, ← hsize, ringList_pop, mask_eq, slots, ← ringList_mod _ _ d.dropTop.top,
    dropTop_top, htop, slot_dropTop, mask_eq, ringList_update_of_ne]
  intro i hi
  rw [mod_add_mod, add_assoc]
  exact (ring_index_ne (by omega : 0 < 1 + i) (by omega)).symm

theorem dropBottom_eq (h : d.Valid) (hpos : d.size ≠ 0) :
    d.dropBottom.Valid ∧ d.dropBottom.size + 1 = d.size ∧
      d.slots = d.dropBottom.slots ++ [d.slot (mask d.dropBottom.bottom)] := by
  have hle := h.size_le
  have ht := h.top_lt
  have hsize : d.dropBottom.size + 1 = d.size := by
    unfold size at *
    simp only [dropBottom_bottom, dropBottom_top, decrement]
    omega
  have hvalid : d.dropBottom.Valid := by
    refine ⟨?_, by rwa [dropBottom_top], by omega⟩
    rw [dropBottom_bottom]
    exact decrement_lt _
  refine ⟨hvalid, hsize, ?_⟩
  have hmask := hvalid.mask_bottom
  rw [dropBottom_top, dropBottom_bottom] at hmask
  rw [slots, ← hsize, ringList_push d.slot d.slot (by omega) (fun _ _ _ => rfl), slots,
    slot_dropBottom, dropBottom_top, dropBottom_bottom, hmask, ringList_update_of_ne]
  intro i hi
  exact ring_index_ne hi (by omega)

def popSlots (l : List (Option (Nat × Nat))) : Option (Nat × Nat) × List (Option (Nat × Nat)) :=
  let r := stealSlots l.reverse
  (r.1, r.2.reverse)

theorem popSlots_concat_some (l : List (Option (Nat × Nat))) (e : Nat × Nat) :
    popSlots (l ++ [some e]) = (some e, l) := by
  simp [popSlots, stealSlots]

theorem popSlots_concat_none (l : List (Option (Nat × Nat))) :
    popSlots (l ++ [none]) = popSlots l := by
  simp [popSlots, stealSlots]

theorem stealLoop_eq (fuel : Nat) (h : d.Valid) (hfuel : d.size < fuel) :
    ∃ d', stealLoop fuel d = some (d', (stealSlots d.slots).1) ∧ d'.Valid ∧
      d'.slots = (stealSlots d.slots).2 := by
  induction fuel generalizing d with
  | zero => exact absurd hfuel (not_lt_zero _)
  | succ fuel ih =>
    rw [stealLoop]
    by_cases hzero : d.size = 0
    · have heq : d.top = d.bottom := (h.bottom_eq_top.mpr hzero).symm
      have hnil : d.slots = [] := List.length_eq_zero_iff.mp (by rw [length_slots, hzero])
      rw [if_neg (not_not_intro heq), hnil, stealSlots]
      exact ⟨d, rfl, h, hnil⟩
    obtain ⟨hvalid, hsize, hslots⟩ := dropTop_eq h hzero
    have hne : d.top ≠ d.bottom := fun heq => hzero (h.bottom_eq_top.mp heq.symm)
    rw [if_pos hne, hslots]
    cases hbuf : d.buf (mask d.top) with
    | some t =>
      simp only [slot, hbuf, map_some, stealSlots]
      exact ⟨d.dropTop, rfl, hvalid, rfl⟩
    | none =>
      simp only [slot, hbuf, map_none, stealSlots]
      exact ih hvalid (by omega)

theorem popLoop_eq (fuel : Nat) (h : d.Valid) (hfuel : d.size < fuel) :
    ∃ d', popLoop fuel d = some (d', (popSlots d.slots).1) ∧ d'.Valid ∧
      d'.slots = (popSlots d.slots).2 := by
  induction fuel generalizing d with
  | zero => exact absurd hfuel (not_lt_zero _)
  | succ fuel ih =>
    rw [popLoop]
    by_cases hzero : d.size = 0
    · have heq : d.bottom = d.top := h.bottom_eq_top.mpr hzero
      have hnil : d.slots = [] := List.length_eq_zero_iff.mp (by rw [length_slots, hzero])
      rw [if_neg (not_not_intro heq), hnil]
      exact ⟨d, rfl, h, hnil⟩
    obtain ⟨hvalid, hsize, hslots⟩ := dropBottom_eq h hzero
    have hne : d.bottom ≠ d.top := fun heq => hzero (h.bottom_eq_top.mp heq)
    rw [if_pos hne, hslots]
    cases hbuf : d.buf (mask d.dropBottom.bottom) with
    | some t =>
      simp only [slot, hbuf, map_some, popSlots_concat_some]
      exact ⟨d.dropBottom, rfl, hvalid, rfl⟩
    | none =>
      simp only [slot, hbuf, map_none, popSlots_concat_none]
      exact ih hvalid (by omega)

def holdsTask (t : Nat) (l : List (Option (Nat × Nat))) : Bool :=
  l.any fun s => s.any fun e => e.1 == t

theorem slots_eq_split (hk : k < d.size) : d.slots.drop k =
        d.slot ((d.top + k) % stealDequeCapacity) :: d.slots.drop (k + 1) ∧
      d.slots.take (k + 1) = d.slots.take k ++ [d.slot ((d.top + k) % stealDequeCapacity)] := by
  have hlen : k < d.slots.length := by rwa [length_slots]
  have hget : d.slots[k] = d.slot ((d.top + k) % stealDequeCapacity) := by
    simp [slots, ringList]
  rw [List.drop_eq_getElem_cons hlen, List.take_succ_eq_append_getElem hlen, hget]
  exact ⟨rfl, rfl⟩

theorem slots_clear (h : d.Valid) (hk : k < d.size) :
    (d.clear ((d.top + k) % stealDequeCapacity)).slots =
      d.slots.take k ++ none :: d.slots.drop (k + 1) := by
  rw [slots, slot_clear, clear_top, clear_size, ringList_update d.slot none h.size_le hk,
    set_eq_take_append_cons_drop, if_pos (by rwa [length_ringList]), slots]

theorem holdsTask_cons_self (t gen : Nat) (l : List (Option (Nat × Nat))) :
    holdsTask t (some (t, gen) :: l) = true := by
  simp [holdsTask]

theorem skip_slot (t gen : Nat) (hne : held ≠ some t) (l : List (Option (Nat × Nat))) :
    holdsTask t ((held.map fun u => (u, gen)) :: l) = holdsTask t l ∧
    clearSlot t ((held.map fun u => (u, gen)) :: l) =
      (held.map fun u => (u, gen)) :: clearSlot t l := by
  cases held with
  | none => exact ⟨rfl, rfl⟩
  | some u =>
    have hu : u ≠ t := fun h => hne (congrArg some h)
    simp [holdsTask, clearSlot, hu]

theorem removeLoop_eq (t fuel : Nat) (h : d.Valid) (hk : k ≤ d.size) (hfuel : d.size - k < fuel) :
    ∃ d', removeLoop d t fuel ((d.top + k) % 2 ^ 32) =
        some (d', if holdsTask t (d.slots.drop k) then 1 else 0) ∧
      d'.Valid ∧ d'.slots = d.slots.take k ++ clearSlot t (d.slots.drop k) := by
  have hle := h.size_le
  have hb := h.bottom_eq
  unfold stealDequeCapacity at hle
  induction fuel generalizing k with
  | zero => exact absurd hfuel (not_lt_zero _)
  | succ fuel ih =>
    rw [removeLoop]
    by_cases hend : k = d.size
    · have hnil : d.slots.drop k = [] := List.drop_eq_nil_of_le (by rw [length_slots, hend])
      rw [if_neg (by rw [hb, hend]; exact not_not_intro rfl), hnil]
      refine ⟨d, rfl, h, ?_⟩
      rw [clearSlot, List.append_nil, List.take_of_length_le (by rw [length_slots, hend])]
    have hlt : k < d.size := by omega
    have hne : (d.top + k) % 2 ^ 32 ≠ d.bottom := by
      omega
    obtain ⟨hdrop, htake⟩ := slots_eq_split hlt
    rw [if_pos hne, mask_mod, hdrop]
    by_cases hhit : d.buf ((d.top + k) % stealDequeCapacity) = some t
    · rw [if_pos hhit, slot, hhit, map_some, clearSlot, if_pos rfl, holdsTask_cons_self, if_pos rfl]
      exact ⟨_, rfl, h.clear _, slots_clear h hlt⟩
    obtain ⟨hholds, hclear⟩ := skip_slot t (d.genBuf ((d.top + k) % stealDequeCapacity))
      hhit (d.slots.drop (k + 1))
    obtain ⟨d', hrun, hvalid, hslots⟩ := ih (k := k + 1) hlt (by omega)
    rw [if_neg hhit, increment_mod, add_assoc, hrun, slot, hholds, hclear, List.append_cons]
    rw [htake, slot] at hslots
    exact ⟨d', rfl, hvalid, hslots⟩

attribute [irreducible] size

/-! ## The entries -/

def entries (d : StealDeque) : List (Nat × Nat) := d.slots.reduceOption

/-- The cleared slots that `pop` and `steal` have not passed yet. -/
def gaps (d : StealDeque) : Nat := d.slots.count none

theorem length_entries_add_gaps (d : StealDeque) : d.entries.length + d.gaps = d.size := by
  rw [entries, gaps, ← length_slots]
  induction d.slots with
  | nil => rfl
  | cons s l ih =>
    cases s with
    | none =>
      rw [List.reduceOption_cons_of_none, List.count_cons_self, List.length_cons]
      omega
    | some e =>
      rw [List.reduceOption_cons_of_some, List.count_cons_of_ne (by simp), length_cons, length_cons]
      omega

theorem stealSlots_reduce (l : List (Option (Nat × Nat))) :
    (stealSlots l).1 = l.reduceOption.head? ∧
      (stealSlots l).2.reduceOption = l.reduceOption.tail := by
  induction l with
  | nil => exact ⟨rfl, rfl⟩
  | cons s l ih =>
    cases s with
    | none => exact ih
    | some e => exact ⟨rfl, rfl⟩

theorem popSlots_reduce (l : List (Option (Nat × Nat))) : (popSlots l).1 = l.reduceOption.getLast? ∧
      (popSlots l).2.reduceOption = l.reduceOption.dropLast := by
  have hrev : ∀ l : List (Option (Nat × Nat)), l.reverse.reduceOption =
      l.reduceOption.reverse := fun l => List.filterMap_reverse
  obtain ⟨hhead, htail⟩ := stealSlots_reduce l.reverse
  rw [hrev] at hhead htail
  constructor
  · rw [popSlots, hhead, List.head?_reverse]
  · rw [popSlots, hrev, htail, List.tail_reverse, List.reverse_reverse]

theorem clearSlot_reduce (t : Nat) (l : List (Option (Nat × Nat))) :
    (clearSlot t l).reduceOption = l.reduceOption.eraseP fun e => e.1 == t := by
  induction l with
  | nil => rfl
  | cons s l ih =>
    cases s with
    | none => exact ih
    | some e =>
      rw [clearSlot, List.reduceOption_cons_of_some, List.eraseP_cons]
      by_cases he : e.1 = t
      · rw [if_pos he, reduceOption_cons_of_none, beq_iff_eq.mpr he]
        rfl
      rw [if_neg he, reduceOption_cons_of_some, ih, beq_eq_false_iff_ne.mpr he]
      rfl

theorem holdsTask_iff (t : Nat) (l : List (Option (Nat × Nat))) :
    holdsTask t l = true ↔ t ∈ l.reduceOption.map Prod.fst := by
  simp only [holdsTask, List.any_eq_true, Option.any_eq_true, beq_iff_eq, List.mem_map,
    List.reduceOption_mem_iff]
  constructor
  · rintro ⟨s, hs, e, rfl, he⟩
    exact ⟨e, hs, he⟩
  rintro ⟨e, hs, he⟩
  exact ⟨some e, hs, e, rfl, he⟩

/-! ## Runs -/

inductive Call where
  | push (t generation : Nat)
  | pop
  | steal
  | remove (t : Option Nat)
  deriving DecidableEq, Repr

inductive Answer where
  | pushed (ok : Bool)
  | taken (entry : Option (Nat × Nat))
  | removed (cleared : Nat)
  | hangs
  deriving DecidableEq, Repr

def answer (d : StealDeque) : Call → StealDeque × Answer
  | .push t generation => (d.push t generation).map id .pushed
  | .pop => d.pop.elim (d, .hangs) (Prod.map id .taken)
  | .steal => d.steal.elim (d, .hangs) (Prod.map id .taken)
  | .remove t => (d.remove t).elim (d, .hangs) (Prod.map id .removed)

def slotsAnswer (l : List (Option (Nat × Nat))) : Call → List (Option (Nat × Nat)) × Answer
  | .push t generation =>
    if l.length = stealDequeCapacity then (l, .pushed false)
    else (l ++ [some (t, generation)], .pushed true)
  | .pop => ((popSlots l).2, .taken (popSlots l).1)
  | .steal => ((stealSlots l).2, .taken (stealSlots l).1)
  | .remove none => (l, .removed 0)
  | .remove (some t) => (clearSlot t l, .removed (if holdsTask t l then 1 else 0))

theorem pop_eq (h : d.Valid) :
    ∃ d', d.pop = some (d', (popSlots d.slots).1) ∧ d'.Valid ∧ d'.slots = (popSlots d.slots).2 := by
  rw [pop]
  exact popLoop_eq (d.size + 1) h (by omega)

theorem steal_eq (h : d.Valid) : ∃ d', d.steal = some (d', (stealSlots d.slots).1) ∧ d'.Valid ∧
      d'.slots = (stealSlots d.slots).2 := by
  rw [steal]
  exact stealLoop_eq (d.size + 1) h (by omega)

theorem remove_eq (h : d.Valid) (t : Nat) :
    ∃ d', d.remove (some t) = some (d', if holdsTask t d.slots then 1 else 0) ∧
      d'.Valid ∧ d'.slots = clearSlot t d.slots := by
  have hloop := removeLoop_eq t (d.size + 1) h (zero_le _) (by omega)
  have htop : (d.top + 0) % 2 ^ 32 = d.top := mod_eq_of_lt h.top_lt
  rw [htop, drop_zero, take_zero, nil_append] at hloop
  rw [remove]
  exact hloop

theorem Valid.answer (h : d.Valid) (c : Call) :
    (d.answer c).2 = (slotsAnswer d.slots c).2 ∧ (d.answer c).1.Valid ∧
      (d.answer c).1.slots = (slotsAnswer d.slots c).1 := by
  cases c with
  | push t generation =>
    obtain ⟨hvalid, hslots, hok⟩ := push_eq h t generation
    rw [StealDeque.answer, slotsAnswer, length_slots, Prod.map_fst, Prod.map_snd, hok, id]
    by_cases hfull : d.size = stealDequeCapacity
    · rw [if_pos hfull] at hslots ⊢
      rw [decide_eq_false (not_not_intro hfull)]
      exact ⟨rfl, hvalid, hslots⟩
    rw [if_neg hfull] at hslots ⊢
    rw [decide_eq_true hfull]
    exact ⟨rfl, hvalid, hslots⟩
  | pop =>
    obtain ⟨d', hrun, hvalid, hslots⟩ := pop_eq h
    rw [StealDeque.answer, slotsAnswer, hrun, elim_some]
    exact ⟨rfl, hvalid, hslots⟩
  | steal =>
    obtain ⟨d', hrun, hvalid, hslots⟩ := steal_eq h
    rw [StealDeque.answer, slotsAnswer, hrun, elim_some]
    refine ⟨rfl, hvalid, ?_⟩
    rw [← hslots]
    rfl
  | remove t =>
    cases t with
    | none =>
      rw [StealDeque.answer, slotsAnswer, remove, elim_some]
      exact ⟨rfl, h, rfl⟩
    | some t =>
      obtain ⟨d', hrun, hvalid, hslots⟩ := remove_eq h t
      rw [StealDeque.answer, slotsAnswer, hrun, elim_some]
      exact ⟨rfl, hvalid, hslots⟩

theorem respond_init (calls : List Call) :
    (respond answer init calls).2 = (respond slotsAnswer [] calls).2 ∧
      (respond answer init calls).1.Valid ∧
      (respond answer init calls).1.slots = (respond slotsAnswer [] calls).1 := by
  refine respond_refines (R := fun d l => d.Valid ∧ d.slots = l) ?_ calls init []
    ⟨valid_init, slots_init⟩
  rintro d l c ⟨hvalid, rfl⟩
  exact hvalid.answer c

/--
After any number of calls, a deque answers as a bounded list of entries and gaps:
`push` appends unless entries and gaps together use up the capacity, `pop` and
`steal` take the newest and the oldest entry with the generation it was pushed
with, and `remove` takes out the first entry of the task.
-/
theorem stealDeque_answers_as_list (calls : List Call) :
    let d := (respond answer init calls).1
    (respond answer init calls).2 = (respond slotsAnswer [] calls).2 ∧
    d.slots = (respond slotsAnswer [] calls).1 ∧
    d.entries.length + d.gaps ≤ stealDequeCapacity ∧
    (∀ t generation, (d.push t generation).2 = false ↔
      d.entries.length + d.gaps = stealDequeCapacity) ∧
    (∀ t generation, (d.push t generation).1.entries =
      if (d.push t generation).2 then d.entries ++ [(t, generation)] else d.entries) ∧
    (∃ d', d.pop = some (d', d.entries.getLast?) ∧ d'.entries = d.entries.dropLast) ∧
    (∃ d', d.steal = some (d', d.entries.head?) ∧ d'.entries = d.entries.tail) ∧
    ∀ t, ∃ d', d.remove (some t) = some (d', if t ∈ d.entries.map Prod.fst then 1 else 0) ∧
      d'.entries = d.entries.eraseP fun e => e.1 == t := by
  intro d
  obtain ⟨hanswers, hvalid, hslots⟩ := respond_init calls
  change d.Valid at hvalid
  refine ⟨hanswers, hslots, ?_, ?_, ?_, ?_, ?_, ?_⟩
  · rw [length_entries_add_gaps]
    exact hvalid.size_le
  · intro t generation
    rw [(push_eq hvalid t generation).2.2, length_entries_add_gaps]
    simp
  · intro t generation
    obtain ⟨-, hpush, hok⟩ := push_eq hvalid t generation
    rw [hok, entries, hpush]
    by_cases hfull : d.size = stealDequeCapacity
    · rw [if_pos hfull, decide_eq_false (not_not_intro hfull), if_neg Bool.false_ne_true, entries]
    rw [if_neg hfull, decide_eq_true hfull, if_pos rfl, reduceOption_append, entries]
    rfl
  · obtain ⟨d', hrun, -, hpop⟩ := pop_eq hvalid
    refine ⟨d', ?_, ?_⟩
    · rw [hrun, (popSlots_reduce d.slots).1, entries]
    · rw [entries, hpop, (popSlots_reduce d.slots).2, entries]
  · obtain ⟨d', hrun, -, hsteal⟩ := steal_eq hvalid
    refine ⟨d', ?_, ?_⟩
    · rw [hrun, (stealSlots_reduce d.slots).1, entries]
    · rw [entries, hsteal, (stealSlots_reduce d.slots).2, entries]
  intro t
  obtain ⟨d', hrun, -, hremove⟩ := remove_eq hvalid t
  refine ⟨d', ?_, ?_⟩
  · rw [hrun, entries]
    simp only [holdsTask_iff]
  · rw [entries, hremove, clearSlot_reduce, entries]

def oneGap : List Call :=
  (List.range stealDequeCapacity).map (fun t => .push t 0) ++ [.remove (some 5)]

theorem push_fails_at_gap : (respond answer init oneGap).1.entries.length = stealDequeCapacity - 1 ∧
      ((respond answer init oneGap).1.push 40 0).2 = false := by
  decide +kernel

/-! ## The deques of the scheduler -/

/-- The rings stand for the slot lists of `k`. -/
def Tracks (ds : Nat → StealDeque) (k : Kernel) : Prop :=
  ∀ c, (ds c).Valid ∧ (ds c).slots = (k.rq c).deque

abbrev Rings (k : Kernel) := { ds : Nat → StealDeque // Tracks ds k }

inductive DequeCall where
  | push (c t : Nat)
  | steal (c : Nat)
  | remove (c t : Nat)

def kernelAnswer (k : Kernel) : DequeCall → Kernel × Option (Option (Nat × Nat))
  | .push c t => (stealDequePush k c t, some none)
  | .steal c => (stealDequeSteal k c).map id some
  | .remove c t => (stealDequeRemove k c t, some none)

/-- An answer of `none` stands for not returning. -/
def ringsAnswer (generation : Nat → Nat) (ds : Nat → StealDeque) :
    DequeCall → (Nat → StealDeque) × Option (Option (Nat × Nat))
  | .push c t => (update ds c ((ds c).push t (generation t)).1, some none)
  | .steal c => ((ds c).steal.elim ds fun r => update ds c r.1, (ds c).steal.map (·.2))
  | .remove c t =>
    (((ds c).remove (some t)).elim ds fun r => update ds c r.1,
      ((ds c).remove (some t)).map fun _ => none)

theorem Tracks.update {k k' : Kernel} (h : Tracks ds k) (hd : Valid d)
    (hrq : k'.rq = update k.rq c { k.rq c with deque := d.slots }) :
    Tracks (update ds c d) k' := by
  intro c'
  rw [hrq]
  by_cases hc : c' = c
  · subst hc
    simpa using hd
  · simpa [hc] using h c'

theorem Tracks.answer {k : Kernel} (h : Tracks ds k) (call : DequeCall) :
    let rings := ringsAnswer (fun t => (k.task t).generation) ds call
    rings.2 = (kernelAnswer k call).2 ∧ Tracks rings.1 (kernelAnswer k call).1 := by
  cases call with
  | push c t =>
    obtain ⟨hvalid, hslots, -⟩ := push_eq (h c).1 t (k.task t).generation
    have hle := (h c).1.size_le
    rw [← length_slots, (h c).2] at hslots hle
    refine ⟨rfl, h.update hvalid ?_⟩
    simp only [kernelAnswer, stealDequePush]
    rw [hslots]
    split
    · rw [if_pos (by omega), update_eq_self]
    · rw [if_neg (by omega)]
      rfl
  | steal c =>
    obtain ⟨d, hrun, hvalid, hslots⟩ := steal_eq (h c).1
    rw [(h c).2] at hrun hslots
    simp only [ringsAnswer, hrun, elim_some, map_some]
    exact ⟨rfl, h.update hvalid (by rw [hslots]; rfl)⟩
  | remove c t =>
    obtain ⟨d, hrun, hvalid, hslots⟩ := remove_eq (h c).1 t
    rw [(h c).2] at hslots
    simp only [ringsAnswer, hrun, elim_some, map_some]
    exact ⟨rfl, h.update hvalid (by rw [hslots]; rfl)⟩

theorem kernelAnswer_task (k : Kernel) (call : DequeCall) :
    (kernelAnswer k call).1.task = k.task := by
  cases call with
  | push c t =>
    simp only [kernelAnswer, stealDequePush]
    split <;> rfl
  | _ => rfl

/-- Whatever the scheduler asks of the deques of its CPUs, the rings return, answer as the slot
lists that the scheduler is modelled with, and go on standing for them. -/
theorem rings_answer_as_kernel (k : Kernel) (r : Rings k) (calls : List DequeCall) :
    let rings := respond (ringsAnswer fun t => (k.task t).generation) r calls
    let kernel := respond kernelAnswer k calls
    rings.2 = kernel.2 ∧ Tracks rings.1 kernel.1 := by
  intro rings kernel
  -- no call changes the generation of a task
  obtain ⟨hanswers, -, hrings⟩ := respond_refines
    (R := fun ds k' => k'.task = k.task ∧ Tracks ds k') (fun ds k' call h => by
      have hcall := h.2.answer call
      rw [h.1] at hcall
      exact ⟨hcall.1, (kernelAnswer_task k' call).trans h.1, hcall.2⟩) calls r.1 k ⟨rfl, r.2⟩
  exact ⟨hanswers, hrings⟩

end StealDeque

end SlmOs.Sched
