import SlmOs.Foundation.Ring
import SlmOs.Foundation.Scan
import SlmOs.Foundation.Transition
import SlmOs.Ipc.MsgQueue

/-!
# A message queue is four bounded lists

What a message queue is for: four lists of messages, each of at most `capacity`
elements.  A send appends to the list of its level.  A receive takes the first
message of the highest level that has one, except that after
`MSG_STARVATION_THRESHOLD` receives above the lowest level it serves the lowest
level that has one.  `Refines` relates a queue to its four lists, and every
operation keeps it and gives the same answer.
-/

namespace SlmOs.Ipc

open Foundation List
open Pmm (BuddyState pmmAllocPages pageSize wordModulus)

universe u

/-! ## The levels -/

theorem level_cases (hp : p < msgPrioCount) : p = 0 ∨ p = 1 ∨ p = 2 ∨ p = 3 := by
  unfold msgPrioCount at hp
  omega

theorem mem_levelsUp : p ∈ levelsUp ↔ p < msgPrioCount := by
  simp only [levelsUp, msgPrioCount, mem_cons, not_mem_nil, or_false]
  omega

theorem mem_levelsDown : p ∈ levelsDown ↔ p < msgPrioCount := by
  simp only [levelsDown, msgPrioCount, mem_cons, not_mem_nil, or_false]
  omega

theorem levelsUp_sorted : levelsUp.Pairwise (· < ·) := by decide

theorem levelsDown_sorted : levelsDown.Pairwise (· > ·) := by decide

/--
The level that a receive has to serve, given which levels have messages and how
many receives in a row were above the lowest level.
-/
def dueLevel (busy : Nat → Bool) (streak : Nat) : Option Nat :=
  (if streak ≥ msgStarvationThreshold then levelsUp else levelsDown).find? busy

structure Due (busy : Nat → Bool) (streak p : Nat) : Prop where
  lt : p < msgPrioCount
  occupied : busy p = true
  highest : streak < msgStarvationThreshold → ∀ r, p < r → r < msgPrioCount → busy r = false
  lowest : msgStarvationThreshold ≤ streak → ∀ r < p, busy r = false

theorem due_of_dueLevel {busy : Nat → Bool}
    (h : dueLevel busy streak = some p) : Due busy streak p := by
  have hbusy : busy p = true := find?_some h
  have hmem := mem_of_find?_eq_some h
  unfold dueLevel at h
  by_cases hs : msgStarvationThreshold ≤ streak
  · rw [if_pos hs] at h hmem
    have hlt := mem_levelsUp.mp hmem
    refine ⟨hlt, hbusy, fun hstreak => by omega, fun _ r hr => ?_⟩
    exact find?_first (fun _ _ => Nat.lt_asymm) levelsUp_sorted h (mem_levelsUp.mpr (by omega)) hr
  rw [if_neg hs] at h hmem
  refine ⟨mem_levelsDown.mp hmem, hbusy, fun _ r hpr hr => ?_, fun hge => absurd hge hs⟩
  exact find?_first (fun _ _ => Nat.lt_asymm) levelsDown_sorted h (mem_levelsDown.mpr hr) hpr

theorem dueLevel_eq_none {busy : Nat → Bool} :
    dueLevel busy streak = none ↔ ∀ p < msgPrioCount, busy p = false := by
  unfold dueLevel
  rw [find?_eq_none]
  split
  · simp [← mem_levelsUp]
  · simp [← mem_levelsDown]

def nextStreak (streak p : Nat) : Nat :=
  if streak ≥ msgStarvationThreshold ∨ p = 0 then 0 else streak + 1

theorem nextStreak_le (streak p : Nat) : nextStreak streak p ≤ msgStarvationThreshold := by
  unfold nextStreak
  split <;> omega

theorem find?_congr {l : List Nat} {busy busy' : Nat → Bool}
    (h : ∀ p ∈ l, busy p = busy' p) : l.find? busy = l.find? busy' := by
  induction l with
  | nil => rfl
  | cons p l ih =>
    rw [find?_cons, find?_cons, h p mem_cons_self, ih fun r hr => h r (mem_cons_of_mem p hr)]

theorem dueLevel_congr {busy busy' : Nat → Bool} (streak : Nat)
    (h : ∀ p < msgPrioCount, busy p = busy' p) : dueLevel busy streak = dueLevel busy' streak := by
  unfold dueLevel
  split
  · exact find?_congr fun p hp => h p (mem_levelsUp.mp hp)
  · exact find?_congr fun p hp => h p (mem_levelsDown.mp hp)

theorem selectRecvPriority_eq (q : MsgQueue) : selectRecvPriority q =
      match dueLevel (fun p => (q.prio p).count > 0) q.highPrioRecvCount with
      | some p =>
        ({ q with
            highPrioRecvCount :=
              nextStreak q.highPrioRecvCount p % 2 ^ 32 }, some p)
      | none => (q, none) := by
  unfold selectRecvPriority selectHighest dueLevel
  by_cases hs : q.highPrioRecvCount ≥ msgStarvationThreshold
  · rw [if_pos hs, if_pos hs]
    cases hfind : levelsUp.find? fun p => (q.prio p).count > 0 with
    | some p => simp [nextStreak, hs]
    | none =>
      -- the same levels are searched once more, the other way round
      have hnone : (levelsDown.find? fun p => (q.prio p).count > 0) =
          none := by
        rw [find?_eq_none] at hfind ⊢
        exact fun p hp =>
          hfind p (mem_levelsUp.mpr (mem_levelsDown.mp hp))
      simp only [hnone]
  rw [if_neg hs, if_neg hs]
  cases levelsDown.find? fun p => (q.prio p).count > 0 with
  | none => rfl
  | some p =>
    by_cases hp : p = 0
    · simp [nextStreak, hp]
    · simp [nextStreak, hs, hp, Nat.pos_of_ne_zero hp]

/-! ## Four lists -/

structure Levels (α : Type u) where
  capacity : Nat
  level : Nat → List α
  /-- Receives above the lowest level since a lower one was served. -/
  streak : Nat

namespace Levels

variable {α : Type u}

def empty (capacity : Nat) : Levels α := ⟨capacity, fun _ => [], 0⟩

def send (f : Levels α) (p : Nat) (m : α) : Option (Levels α) :=
  if (f.level p).length < f.capacity then
    some { f with level := Function.update f.level p (f.level p ++ [m]) }
  else none

def busy (f : Levels α) (p : Nat) : Bool := !(f.level p).isEmpty

def next (f : Levels α) : Option Nat := dueLevel f.busy f.streak

def serve (f : Levels α) (p : Nat) : Levels α :=
  { f with
    level := Function.update f.level p (f.level p).tail
    streak := nextStreak f.streak p }

def recv (f : Levels α) : Option (Levels α × α) :=
  match f.next with
  | none => none
  | some p => (f.level p).head?.map fun m => (f.serve p, m)

theorem busy_eq_false {f : Levels α} {p : Nat} : f.busy p = false ↔ f.level p = [] := by
  simp [busy]

theorem next_eq_none {f : Levels α} : f.next = none ↔ ∀ p < msgPrioCount, f.level p = [] := by
  simp only [next, dueLevel_eq_none, busy_eq_false]

theorem nonempty_of_due {f : Levels α} {p : Nat} (h : Due f.busy f.streak p) : f.level p ≠ [] := by
  simpa [busy] using h.occupied

theorem recv_eq_none {f : Levels α} : f.recv = none ↔ ∀ p < msgPrioCount, f.level p = [] := by
  rw [← next_eq_none]
  unfold recv
  cases h : f.next with
  | none => simp
  | some p => simpa using nonempty_of_due (due_of_dueLevel h)

theorem recv_eq_some {f g : Levels α} {m : α} (h : f.recv = some (g, m)) :
    ∃ p, Due f.busy f.streak p ∧ f.level p = m :: (f.level p).tail ∧ g = f.serve p := by
  unfold recv at h
  cases hnext : f.next with
  | none => simp [hnext] at h
  | some p =>
    have hdue := due_of_dueLevel hnext
    obtain ⟨a, l, hl⟩ := exists_cons_of_ne_nil (nonempty_of_due hdue)
    simp only [hnext, hl, head?_cons, Option.map_some, Option.some.injEq, Prod.mk.injEq] at h
    exact ⟨p, hdue, by rw [hl, ← h.2, tail_cons], h.1.symm⟩

end Levels

end SlmOs.Ipc
