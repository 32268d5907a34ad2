import Mathlib

/-!
# Ledgers of things taken and given back

A ledger is the history of a resource seen by one of its users, with the newest
entry first.  It is in balance if nothing was taken twice without being given
back in between, and nothing was given back that was not held.  In such a ledger
every thing has been given back as often as it was taken, up to the one time that
it is held at the end.
-/

namespace SlmOs.Foundation

inductive Entry (α : Type) where
  | take (a : α)
  | give (a : α)
  deriving DecidableEq, Repr

variable {α : Type} [DecidableEq α]

def isHeld : List (Entry α) → α → Bool
  | [], _ => false
  | .take b :: log, a => a = b || isHeld log a
  | .give b :: log, a => a ≠ b && isHeld log a

def InBalance : List (Entry α) → Prop
  | [] => True
  | .take a :: log => isHeld log a = false ∧ InBalance log
  | .give a :: log => isHeld log a = true ∧ InBalance log

variable {log : List (Entry α)}

@[simp] theorem isHeld_nil (a : α) : isHeld [] a = false := rfl

@[simp] theorem isHeld_take (log : List (Entry α)) (a b : α) :
    isHeld (.take b :: log) a = true ↔ a = b ∨ isHeld log a = true := by
  simp [isHeld]

@[simp] theorem isHeld_give (log : List (Entry α)) (a b : α) :
    isHeld (.give b :: log) a = true ↔ a ≠ b ∧ isHeld log a = true := by
  simp [isHeld]

@[simp] theorem inBalance_nil : InBalance ([] : List (Entry α)) := trivial

@[simp] theorem inBalance_take :
    InBalance (.take a :: log) ↔ isHeld log a = false ∧ InBalance log := Iff.rfl

@[simp] theorem inBalance_give :
    InBalance (.give a :: log) ↔ isHeld log a = true ∧ InBalance log := Iff.rfl

theorem InBalance.count (h : InBalance log) (a : α) : log.count (.take a) =
      log.count (.give a) + if isHeld log a = true then 1 else 0 := by
  induction log with
  | nil => simp
  | cons e log ih =>
    cases e with
    | take b | give b =>
      have hlog := ih h.2
      by_cases hab : a = b
      · subst hab
        simp [h.1] at hlog ⊢
        omega
      simp [hab, Ne.symm hab] at hlog ⊢
      omega

end SlmOs.Foundation
