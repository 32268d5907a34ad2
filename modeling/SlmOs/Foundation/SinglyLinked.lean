import Mathlib.Data.List.Nodup
import Mathlib.Logic.Function.Basic

/-!
# Singly linked lists

A link is `none` at the end of a list.  `Chain next p l` says that the links of
`next` lead from `p` through exactly the nodes `l`; since the way ends, no node
comes twice.  A write goes to the slot behind a node or to the head of the list,
and `Chain.splice` says what it leads to.  Loops along a list are folds that are
given a bound on their length.
-/

namespace SlmOs.Foundation

open Function List

universe u v

variable {α : Type u} {β : Type v}

def Chain (next : α → Option α) : Option α → List α → Prop
  | p, [] => p = none
  | p, a :: l => p = some a ∧ Chain next (next a) l

namespace Chain

variable {next next' : α → Option α} {p : Option α} {l l₁ l₂ : List α}

theorem unique : ∀ {p : Option α} {l l' : List α}, Chain next p l → Chain next p l' → l = l'
  | _, [], [], _, _ => rfl
  | _, [], a :: l', h, h' => by
      have hp : none = some a := h.symm.trans h'.1
      cases hp
  | _, a :: l, [], h, h' => by
      have hp : none = some a := h'.symm.trans h.1
      cases hp
  | _, a :: l, b :: l', h, h' => by
      have hab : a = b := Option.some.inj (h.1.symm.trans h'.1)
      subst hab
      rw [unique h.2 h'.2]

theorem of_append (h : Chain next p (l₁ ++ l₂)) : ∃ q, Chain next q l₂ := by
  induction l₁ generalizing p with
  | nil => exact ⟨p, h⟩
  | cons a l₁ ih => exact ih h.2

theorem behind (h : Chain next p (l₁ ++ a :: l₂)) : Chain next (next a) l₂ := by
  obtain ⟨q, hq⟩ := of_append h
  exact hq.2

theorem nodup (h : Chain next p l) : l.Nodup := by
  induction l generalizing p with
  | nil => exact nodup_nil
  | cons a l ih =>
    refine nodup_cons.mpr ⟨fun hmem => ?_, ih h.2⟩
    -- a second visit would lead on to a shorter rest of the list
    obtain ⟨l₁, l₂, rfl⟩ := append_of_mem hmem
    have hsame := congrArg List.length (unique (behind h.2) h.2)
    simp only [length_append, length_cons] at hsame
    omega

theorem congr (h : Chain next p l) (heq : ∀ a ∈ l, next' a = next a) : Chain next' p l := by
  induction l generalizing p with
  | nil => exact h
  | cons a l ih =>
    refine ⟨h.1, ?_⟩
    rw [heq a mem_cons_self]
    exact ih h.2 fun b hb => heq b (mem_cons_of_mem a hb)

end Chain

/-! ## Writing a link -/

section Write

variable [DecidableEq α]

def setLink (next : α → Option α) (head slot v : Option α) : (α → Option α) × Option α :=
  match slot with
  | none => (next, v)
  | some a => (update next a v, head)

variable {head : Option α} {v : Option α}

theorem setLink_of_ne {next : α → Option α}
    (h : slot ≠ some b) : (setLink next head slot v).1 b = next b := by
  cases slot with
  | none => rfl
  | some a =>
    refine update_of_ne ?_ _ _
    rintro rfl
    exact h rfl

variable {a : α}

theorem Chain.redirect {next : α → Option α} (hv : Chain next v l₂) (ha : a ∉ l₂) :
    ∀ {p : Option α} {l₁ : List α}, Chain next p (l₁ ++ a :: l) →
      Chain (update next a v) p (l₁ ++ a :: l₂) := by
  intro p l₁
  induction l₁ generalizing p with
  | nil =>
    intro h
    refine ⟨h.1, ?_⟩
    rw [update_self]
    refine hv.congr fun b hb => update_of_ne ?_ _ _
    rintro rfl
    exact ha hb
  | cons b l₁ ih =>
    intro h
    have hne : b ≠ a := by
      rintro rfl
      exact (nodup_cons.mp h.nodup).1 (by simp)
    refine ⟨h.1, ?_⟩
    rw [update_of_ne hne]
    exact ih h.2

theorem Chain.splice {next : α → Option α} (h : Chain next head (l₁ ++ l)) (hv : Chain next v l₂)
    (hdisj : ∀ a ∈ l₁, a ∉ l₂) :
    Chain (setLink next head l₁.getLast? v).1 (setLink next head l₁.getLast? v).2 (l₁ ++ l₂) := by
  rcases eq_nil_or_concat' l₁ with rfl | ⟨l₀, a, rfl⟩
  · exact hv
  rw [getLast?_concat, append_assoc, singleton_append]
  rw [append_assoc, singleton_append] at h
  exact Chain.redirect hv (hdisj a (by simp)) h

theorem Chain.append {next : α → Option α} (h : Chain next head l) (ha : a ∉ l) :
    Chain (setLink (update next a none) head l.getLast? (some a)).1
      (setLink (update next a none) head l.getLast? (some a)).2
      (l ++ [a]) := by
  have hcut : Chain (update next a none) head (l ++ []) := by
    rw [append_nil]
    refine h.congr fun b hb => update_of_ne ?_ _ _
    rintro rfl
    exact ha hb
  refine hcut.splice ⟨rfl, update_self _ _ _⟩ fun b hb hmem => ?_
  obtain rfl := mem_singleton.mp hmem
  exact ha hb

theorem Chain.unlink {next : α → Option α} (h : Chain next head (l₁ ++ a :: l₂)) :
    Chain (update (setLink next head l₁.getLast? (next a)).1 a none)
      (setLink next head l₁.getLast? (next a)).2 (l₁ ++ l₂) := by
  have hnodup := h.nodup
  have hdisj : ∀ b ∈ l₁, b ∉ l₂ := fun b hb hb₂ =>
    (nodup_append.mp hnodup).2.2 b hb b (mem_cons_of_mem a hb₂) rfl
  have hnot : a ∉ l₁ ++ l₂ := (nodup_cons.mp ((nodup_middle).mp hnodup)).1
  refine (h.splice h.behind hdisj).congr fun b hb =>
    update_of_ne ?_ _ _
  rintro rfl
  exact hnot hb

end Write

/-! ## Loops along a list -/

/-- `while (p) { b = f(b, p); p = p->next; }`, in less than `n` rounds. -/
def foldChain (next : α → Option α) (f : β → α → β) : Nat → β → Option α → Option β
  | 0, _, _ => none
  | _ + 1, b, none => some b
  | n + 1, b, some a => foldChain next f n (f b a) (next a)

theorem Chain.foldChain_eq {next : α → Option α} (f : β → α → β) :
    ∀ {n : Nat} {l : List α} {p : Option α} (b : β), Chain next p l →
      l.length < n → foldChain next f n b p = some (l.foldl f b) := by
  intro n
  induction n with
  | zero => exact fun b _ hn => absurd hn (Nat.not_lt_zero _)
  | succ n ih =>
    intro l p b h hn
    cases l with
    | nil =>
      rw [show p = none from h]
      rfl
    | cons a l =>
      rw [h.1, foldChain]
      exact ih (f b a) h.2 (Nat.lt_of_succ_lt_succ hn)

end SlmOs.Foundation
