import Mathlib.Logic.Basic

/-!
# Labelled runs and exclusive places

A system is a step function on states and actions, where `none` means that the
action is not possible.  `Run` collects the states that a system can reach by
steps that meet a side condition, so that a conditional safety property is one
step lemma and one application of `Run.invariant`.  A `Trace` is a run that
never ends.

A system that always answers is a step function with an output; two of them
give the same answers if a relation between their states is kept.

The last part is the bookkeeping of things that may be in at most one place
at a time: a relation `At` between places and things, and the two ways a step
may change it.
-/

namespace SlmOs.Foundation

universe u v

section Runs

variable {σ : Type u} {α : Type v}

/-- The states reached from a state by steps that satisfy `ok`. -/
inductive Run (step : σ → α → Option σ) (ok : σ → α → Prop) : σ → σ → Prop
  | refl (s : σ) : Run step ok s s
  | tail {s t u : σ} {a : α} (h : Run step ok s t) (hok : ok t a)
      (hstep : step t a = some u) : Run step ok s u

variable {step : σ → α → Option σ} {ok : σ → α → Prop} {s t : σ}

theorem Run.invariant {I : σ → Prop} (hstep : ∀ s a t, I s → ok s a → step s a = some t → I t)
    (hs : I s) (hrun : Run step ok s t) : I t := by
  induction hrun with
  | refl => exact hs
  | tail _ hok hstep' ih => exact hstep _ _ _ ih hok hstep'

def exec (step : σ → α → Option σ) : σ → List α → Option σ
  | s, [] => some s
  | s, a :: as =>
    match step s a with
    | none => none
    | some t => exec step t as

theorem Run.trans (h₁ : Run step ok s t) (h₂ : Run step ok t u) : Run step ok s u := by
  induction h₂ with
  | refl => exact h₁
  | tail _ hok hstep ih => exact .tail ih hok hstep

theorem Run.mono {ok' : σ → α → Prop}
    (himp : ∀ s a, ok s a → ok' s a) (h : Run step ok s t) : Run step ok' s t := by
  induction h with
  | refl => exact .refl _
  | tail _ hok hstep ih => exact .tail ih (himp _ _ hok) hstep

def Along (step : σ → α → Option σ) (ok : σ → α → Prop) : σ → List α → Prop
  | _, [] => True
  | s, a :: as =>
    ok s a ∧
      match step s a with
      | none => True
      | some t => Along step ok t as

instance Along.decidable (step : σ → α → Option σ) (ok : σ → α → Prop)
    [∀ s a, Decidable (ok s a)] : ∀ (s : σ) (as : List α), Decidable (Along step ok s as)
  | _, [] => .isTrue trivial
  | s, a :: as =>
    have : Decidable (match step s a with
        | none => True
        | some t => Along step ok t as) :=
      match step s a with
      | none => .isTrue trivial
      | some t => Along.decidable step ok t as
    inferInstanceAs (Decidable (_ ∧ _))

theorem run_of_exec (step : σ → α → Option σ) (ok : σ → α → Prop) :
    ∀ (as : List α) (s t : σ), Along step ok s as → exec step s as = some t → Run step ok s t := by
  intro as
  induction as with
  | nil =>
    intro s t _ h
    cases h
    exact .refl s
  | cons a as ih =>
    intro s t hok h
    rw [exec] at h
    rw [Along] at hok
    cases hstep : step s a with
    | none =>
      rw [hstep] at h
      cases h
    | some r =>
      rw [hstep] at h hok
      have hhead : Run step ok s r := .tail (.refl s) hok.1 hstep
      exact hhead.trans (ih r t hok.2 h)

theorem Along.of_mem (h : ∀ a ∈ as, ∀ s, ok s a) (s : σ) : Along step ok s as := by
  induction as generalizing s with
  | nil => trivial
  | cons a as ih =>
    refine ⟨h a List.mem_cons_self s, ?_⟩
    split
    · trivial
    · exact ih (fun b hb => h b (List.mem_cons_of_mem a hb)) _

theorem run_exec (as : List α) (h : exec step s as = some t) : Run step (fun _ _ => True) s t :=
  run_of_exec step _ as s t (.of_mem (fun _ _ _ => trivial) s) h

theorem run_get (step : σ → α → Option σ) (ok : σ → α → Prop) (as : List α) (s : σ)
    (hok : Along step ok s as) (h : (exec step s as).isSome) :
    Run step ok s ((exec step s as).get h) :=
  run_of_exec step ok as s _ hok (Option.some_get h).symm

structure Trace (step : σ → α → Option σ) (ok : σ → α → Prop) where
  state : Nat → σ
  act : Nat → α
  ok_act : ∀ i, ok (state i) (act i)
  step_act : ∀ i, step (state i) (act i) = some (state (i + 1))

theorem Trace.run (r : Trace step ok) (i : Nat) : Run step ok (r.state 0) (r.state i) := by
  induction i with
  | zero => exact .refl _
  | succ i ih => exact .tail ih (r.ok_act i) (r.step_act i)

theorem no_endless_descent {m : Nat → Nat} (hle : ∀ i, n ≤ i → m (i + 1) ≤ m i)
    (hdrop : ∀ i, n ≤ i → ∃ j, i ≤ j ∧ m (j + 1) < m j) : False := by
  have hmono : ∀ i j, n ≤ i → i ≤ j → m j ≤ m i := by
    intro i j hi hij
    induction hij with
    | refl => exact Nat.le_refl _
    | step hij ih => exact Nat.le_trans (hle _ (Nat.le_trans hi hij)) ih
  have hall : ∀ k i, n ≤ i → m i < k → False := by
    intro k
    induction k with
    | zero => exact fun i _ hlt => Nat.not_lt_zero _ hlt
    | succ k ih =>
      intro i hi hlt
      obtain ⟨j, hij, hj⟩ := hdrop i hi
      have hj' := hmono i j hi hij
      exact ih (j + 1) (Nat.le_trans hi (Nat.le_succ_of_le hij)) (by omega)
  exact hall (m n + 1) n (Nat.le_refl n) (Nat.lt_succ_self _)

end Runs

section Answers

variable {σ : Type u} {τ : Type u} {α : Type v} {β : Type v}

def respond (step : σ → α → σ × β) : σ → List α → σ × List β
  | s, [] => (s, [])
  | s, a :: as =>
    let rest := respond step (step s a).1 as
    (rest.1, (step s a).2 :: rest.2)

theorem respond_refines {step : σ → α → σ × β} {spec : τ → α → τ × β} {R : σ → τ → Prop}
    (hstep : ∀ s t a, R s t → (step s a).2 = (spec t a).2 ∧ R (step s a).1 (spec t a).1) :
    ∀ (as : List α) (s : σ) (t : τ), R s t → (respond step s as).2 = (respond spec t as).2 ∧
        R (respond step s as).1 (respond spec t as).1 := by
  intro as
  induction as with
  | nil => exact fun s t h => ⟨rfl, h⟩
  | cons a as ih =>
    intro s t h
    obtain ⟨hout, hnext⟩ := hstep s t a h
    obtain ⟨houts, hrest⟩ := ih _ _ hnext
    exact ⟨congrArg₂ List.cons hout houts, hrest⟩

end Answers

section Places

variable {P : Type u} {T : Type v}

def Exclusive (At : P → T → Prop) : Prop :=
  ∀ p q x, At p x → At q x → p = q

theorem Exclusive.mono {At At' : P → T → Prop} (h : Exclusive At)
    (hsub : ∀ p x, At' p x → At p x) : Exclusive At' :=
  fun p q x hp hq => h p q x (hsub p x hp) (hsub q x hq)

theorem Exclusive.move {At At' : P → T → Prop} (h : Exclusive At) (x : T) (r : P)
    (hmove : ∀ p y, At' p y → (y = x ∧ p = r) ∨ (y ≠ x ∧ At p y)) : Exclusive At' := by
  intro p q y hp hq
  rcases hmove p y hp with ⟨rfl, rfl⟩ | ⟨hne, hp⟩
  · rcases hmove q y hq with ⟨-, rfl⟩ | ⟨hne, -⟩
    · rfl
    · exact absurd rfl hne
  rcases hmove q y hq with ⟨rfl, -⟩ | ⟨-, hq⟩
  · exact absurd rfl hne
  · exact h p q y hp hq

end Places

end SlmOs.Foundation
