import Mathlib

/-!
# Scanning for the smallest score

The loop that walks over candidates, skips those that are not admissible and
keeps the smallest score seen so far together with the candidate that has it.  A
candidate replaces the best one only if it is strictly smaller, so the result is
the first among equals.  A scan for the largest score is a scan in the dual
order.  A search that stops at the first hit finds the first one in the order in
which the candidates are listed.  A loop that works on the entries of an array one
by one works on each of them alone.
-/

namespace SlmOs.Foundation

open List

universe u v

variable {α : Type u} {β : Type v} [LinearOrder β]

def consider (ok : α → Bool) (score : α → β) (best : α × β) (a : α) : α × β :=
  if ok a ∧ score a < best.2 then (a, score a) else best

def scanMin (ok : α → Bool) (score : α → β) (best : α × β) (l : List α) : α × β :=
  l.foldl (consider ok score) best

variable {ok : α → Bool} {score : α → β}

/-- `a` is the first admissible element of `l` with the smallest score. -/
def FirstMin (ok : α → Bool) (score : α → β) (l : List α) (a : α) : Prop :=
  ∃ l₁ l₂, l = l₁ ++ a :: l₂ ∧ ok a = true ∧ (∀ b ∈ l₁, ok b = true → score a < score b) ∧
    ∀ b ∈ l₂, ok b = true → score a ≤ score b

theorem FirstMin.mem (h : FirstMin ok score l a) : a ∈ l := by
  obtain ⟨l₁, l₂, rfl, -⟩ := h
  exact mem_append_right l₁ mem_cons_self

theorem FirstMin.admissible (h : FirstMin ok score l a) : ok a = true := by
  obtain ⟨l₁, l₂, -, hok, -⟩ := h
  exact hok

theorem FirstMin.cons (h : FirstMin ok score l a) (hb : ok b = true → score a < score b) :
    FirstMin ok score (b :: l) a := by
  obtain ⟨l₁, l₂, rfl, hok, h₁, h₂⟩ := h
  refine ⟨b :: l₁, l₂, rfl, hok, fun x hx hokx => ?_, h₂⟩
  rcases mem_cons.mp hx with rfl | hx
  · exact hb hokx
  · exact h₁ x hx hokx

/--
The scan returns its start value if no admissible element is smaller, and
otherwise the first of the smallest.
-/
theorem scanMin_spec (ok : α → Bool) (score : α → β) (l : List α) : ∀ best : α × β,
    (scanMin ok score best l = best ∧ ∀ a ∈ l, ok a = true → best.2 ≤ score a) ∨
    ∃ a, scanMin ok score best l = (a, score a) ∧ score a < best.2 ∧ FirstMin ok score l a := by
  induction l with
  | nil => exact fun best => .inl ⟨rfl, fun a ha => absurd ha not_mem_nil⟩
  | cons a l ih =>
    intro best
    have hround : scanMin ok score best (a :: l) =
        scanMin ok score (consider ok score best a) l := rfl
    rw [hround]
    by_cases hc : ok a = true ∧ score a < best.2
    · have hbest : consider ok score best a = (a, score a) := if_pos hc
      rw [hbest]
      right
      rcases ih (a, score a) with ⟨heq, hle⟩ | ⟨b, heq, hlt, hfirst⟩
      · refine ⟨a, heq, hc.2, [], l, rfl, hc.1, fun b hb => ?_, hle⟩
        exact absurd hb not_mem_nil
      · exact ⟨b, heq, lt_trans hlt hc.2, hfirst.cons fun _ => hlt⟩
    have hbest : consider ok score best a = best := if_neg hc
    have hle : ok a = true → best.2 ≤ score a := fun hok =>
      not_lt.mp fun hlt => hc ⟨hok, hlt⟩
    rw [hbest]
    rcases ih best with ⟨heq, hrest⟩ | ⟨b, heq, hlt, hfirst⟩
    · refine .inl ⟨heq, fun b hb hok => ?_⟩
      rcases mem_cons.mp hb with rfl | hb
      · exact hle hok
      · exact hrest b hb hok
    · exact .inr ⟨b, heq, hlt, hfirst.cons fun hok => lt_of_lt_of_le hlt (hle hok)⟩

theorem scanMin_cases (ok : α → Bool) (score : α → β) (best : α × β)
    (l : List α) : (scanMin ok score best l).1 = best.1 ∨ ((scanMin ok score best l).1 ∈ l ∧
        ok (scanMin ok score best l).1 = true) := by
  rcases scanMin_spec ok score l best with ⟨heq, -⟩ | ⟨a, heq, -, hfirst⟩
  · exact .inl (congrArg Prod.fst heq)
  rw [heq]
  exact .inr ⟨hfirst.mem, hfirst.admissible⟩

theorem scanMin_found (ha : a ∈ l) (hok : ok a = true) (hlt : score a < best.2) :
    FirstMin ok score l (scanMin ok score best l).1 := by
  rcases scanMin_spec ok score l best with ⟨-, hle⟩ | ⟨b, heq, -, hfirst⟩
  · exact absurd hlt (not_lt.mpr (hle a ha hok))
  rw [heq]
  exact hfirst

theorem FirstMin.range {score : Nat → β} (h : FirstMin (fun _ => true) score (List.range n) i) :
    i < n ∧ ∀ j < n, score i ≤ score j ∧ (j < i → score i < score j) := by
  have hi := mem_range.mp h.mem
  obtain ⟨l₁, l₂, heq, -, h₁, h₂⟩ := h
  have hsorted : (l₁ ++ i :: l₂).Pairwise (· < ·) := heq ▸ pairwise_lt_range
  obtain ⟨-, hright, -⟩ := pairwise_append.mp hsorted
  refine ⟨hi, fun j hj => ?_⟩
  have hmem : j ∈ l₁ ++ i :: l₂ := heq ▸ mem_range.mpr hj
  rcases mem_append.mp hmem with hj₁ | hj₂
  · exact ⟨le_of_lt (h₁ j hj₁ rfl), fun _ => h₁ j hj₁ rfl⟩
  rcases mem_cons.mp hj₂ with rfl | hj₂
  · exact ⟨le_refl _, fun hlt => absurd hlt (Nat.lt_irrefl j)⟩
  have hlt := (pairwise_cons.mp hright).1 j hj₂
  exact ⟨h₂ j hj₂ rfl, fun hlt' => absurd hlt' (Nat.lt_asymm hlt)⟩

theorem scanMin_range_succ (score : Nat → β) (best : Nat × β) (n : Nat) :
    scanMin (fun _ => true) score best (List.range (n + 1)) = consider (fun _ => true) score
        (scanMin (fun _ => true) score best (List.range n)) n := by
  unfold scanMin
  rw [range_succ, foldl_append]
  rfl

theorem find?_first {l : List α} {a : α}
    {R : α → α → Prop} (hasymm : ∀ a b, R a b → ¬ R b a) (hl : l.Pairwise R)
    {f : α → Bool} (h : l.find? f = some a) (hb : b ∈ l) (hba : R b a) : f b = false := by
  obtain ⟨-, l₁, l₂, rfl, hbefore⟩ := find?_eq_some_iff_append.mp h
  rcases mem_append.mp hb with hb | hb
  · simpa using hbefore b hb
  obtain ⟨-, hright, -⟩ := pairwise_append.mp hl
  rcases mem_cons.mp hb with rfl | hb
  · exact absurd hba (hasymm b b hba)
  · exact absurd hba (hasymm a b ((pairwise_cons.mp hright).1 b hb))

theorem find?_range_some {f : Nat → Bool}
    (h : (List.range n).find? f = some i) : i < n ∧ f i = true :=
  ⟨mem_range.mp (mem_of_find?_eq_some h), find?_some h⟩

theorem find?_range_none {f : Nat → Bool}
    (h : (List.range n).find? f = none) (hi : i < n) : f i = false :=
  Bool.eq_false_iff.mpr (find?_eq_none.mp h i (mem_range.mpr hi))

section Pointwise

universe w

variable {σ : Type u} {τ : Type v} {ι : Type w}

theorem foldl_range_pointwise {F : σ → Nat → σ} {view : σ → Nat → τ} {g : τ → τ}
    (hstep : ∀ s i, view (F s i) = Function.update (view s) i (g (view s i))) (n : Nat) (s : σ) :
    view ((List.range n).foldl F s) = fun i => if i < n then g (view s i) else view s i := by
  induction n with
  | zero => simp
  | succ n ih =>
    funext i
    rw [range_succ, foldl_append, foldl_cons, foldl_nil, hstep, ih]
    by_cases hi : i = n
    · subst hi
      simp
    have hlt : i < n + 1 ↔ i < n := by omega
    simp [hi, hlt]

theorem foldl_frame {F : σ → ι → σ} {view : σ → τ} (hstep : ∀ s b, view (F s b) = view s)
    (l : List ι) (s : σ) : view (l.foldl F s) = view s := by
  induction l generalizing s with
  | nil => rfl
  | cons b l ih => rw [foldl_cons, ih, hstep]

theorem countP_change {p q : ι → Bool} {b : ι} (hother : ∀ b', b' ≠ b → q b' = p b')
    {l : List ι} (hl : l.Nodup) (hb : b ∈ l) :
    l.countP q + (p b).toNat = l.countP p + (q b).toNat := by
  induction l with
  | nil => cases hb
  | cons c l ih =>
    obtain ⟨hc, hl⟩ := nodup_cons.mp hl
    rw [countP_cons, countP_cons]
    by_cases hcb : c = b
    · subst hcb
      have hrest : l.countP q = l.countP p := countP_congr fun b' hb' => by
          rw [hother b' (fun h => hc (h ▸ hb'))]
      rw [hrest]
      cases p c <;> cases q c <;> simp
    have hrest := ih hl ((mem_cons.mp hb).resolve_left (Ne.symm hcb))
    rw [hother c hcb]
    omega

theorem countP_succ {p q : ι → Bool} {b : ι} (hp : p b = false) (hq : q b = true)
    (hother : ∀ b', b' ≠ b → q b' = p b') {l : List ι} (hl : l.Nodup) (hb : b ∈ l) :
    l.countP q = l.countP p + 1 := by
  simpa [hp, hq] using countP_change hother hl hb

theorem countP_split {p q r : ι → Bool} {l : List ι} (h : ∀ b, p b = (q b || r b))
    (hdisj : ∀ b, q b = true → r b = false) : l.countP p = l.countP q + l.countP r := by
  induction l with
  | nil => rfl
  | cons b l ih =>
    simp only [countP_cons, h b, ih]
    cases hq : q b with
    | false =>
      simp
      omega
    | true =>
      simp [hdisj b hq]
      omega

end Pointwise

end SlmOs.Foundation
