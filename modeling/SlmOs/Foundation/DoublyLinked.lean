import Mathlib.Data.List.Nodup
import Mathlib.Logic.Function.Basic

/-!
# Doubly linked lists in a memory

Nodes live at addresses of an arbitrary type, with one address reserved as the
null pointer.  `Seg m p h l q t` says that the links of `m` lead from the head
pointer `h` through exactly the nodes `l` to the pointer `t`, that the first
node points back to `p`, and that `q` is the node before `t`.  Segments compose
by `seg_append`; every pointer operation is verified by cutting the list where
it writes and moving the untouched segments with `Seg.congr`.
-/

namespace SlmOs.Foundation

open Function List

structure Link (α : Type*) where
  next : α
  prev : α
  deriving DecidableEq, Repr

namespace Link

variable {α : Type*}

/-! ## Segments -/

variable (null : α)

def Seg (m : α → Link α) : α → α → List α → α → α → Prop
  | p, h, [], q, t => p = q ∧ h = t
  | p, h, a :: l, q, t =>
    h = a ∧ a ≠ null ∧ (m a).prev = p ∧ Seg m a (m a).next l q t

/-- A whole list: from `head` to null, with nothing before the first node. -/
def IsList (m : α → Link α) (head : α) (l : List α) : Prop :=
  ∃ last, Seg null m null head l last null

variable {null} {m : α → Link α}

theorem seg_append : Seg null m p h (l₁ ++ l₂) q t ↔
      ∃ q' t', Seg null m p h l₁ q' t' ∧ Seg null m q' t' l₂ q t := by
  induction l₁ generalizing p h with
  | nil =>
    constructor
    · intro hseg
      exact ⟨p, h, ⟨rfl, rfl⟩, hseg⟩
    rintro ⟨q', t', ⟨rfl, rfl⟩, hseg⟩
    exact hseg
  | cons a l₁ ih =>
    simp only [cons_append, Seg, ih]
    constructor
    · rintro ⟨hh, hne, hprev, q', t', hfirst, hsecond⟩
      exact ⟨q', t', ⟨hh, hne, hprev, hfirst⟩, hsecond⟩
    rintro ⟨q', t', ⟨hh, hne, hprev, hfirst⟩, hsecond⟩
    exact ⟨hh, hne, hprev, q', t', hfirst, hsecond⟩

variable {l : List α}

theorem Seg.congr {m' : α → Link α} (hseg : Seg null m p h l q t) (heq : ∀ a ∈ l, m' a = m a) :
    Seg null m' p h l q t := by
  induction l generalizing p h with
  | nil => exact hseg
  | cons a l ih =>
    obtain ⟨hh, hne, hprev, hrest⟩ := hseg
    have ha : m' a = m a := heq a mem_cons_self
    refine ⟨hh, hne, by rw [ha]; exact hprev, ?_⟩
    rw [ha]
    exact ih hrest fun b hb => heq b (mem_cons_of_mem _ hb)

variable {head : α}

theorem IsList.congr {m' : α → Link α} (hlist : IsList null m head l) (heq : ∀ a ∈ l, m' a = m a) :
    IsList null m' head l := by
  obtain ⟨last, hseg⟩ := hlist
  exact ⟨last, hseg.congr heq⟩

theorem Seg.eq_last_of_concat (hseg : Seg null m p h (l ++ [b]) q t) : q = b := by
  obtain ⟨_, _, -, rfl, -, -, rfl, -⟩ := seg_append.mp hseg
  rfl

theorem Seg.ne_null (hseg : Seg null m p h l q t) : ∀ a ∈ l, a ≠ null := by
  induction l generalizing p h with
  | nil => simp
  | cons b l ih =>
    obtain ⟨-, hne, -, hrest⟩ := hseg
    intro a ha
    rcases mem_cons.mp ha with rfl | ha
    · exact hne
    · exact ih hrest a ha

section

variable (hlist : IsList null m head l)
include hlist

theorem IsList.ne_null : ∀ a ∈ l, a ≠ null := by
  obtain ⟨last, hseg⟩ := hlist
  exact hseg.ne_null

theorem IsList.head_eq_null_iff : head = null ↔ l = [] := by
  obtain ⟨last, hseg⟩ := hlist
  cases l with
  | nil => simp [hseg.2]
  | cons a l =>
    obtain ⟨rfl, hne, -⟩ := hseg
    simp [hne]

theorem IsList.neighbours (hnodup : l.Nodup) (ha : a ∈ l) : ((m a).prev = null ∨ (m a).prev ∈ l) ∧
      ((m a).next = null ∨ (m a).next ∈ l) ∧ (m a).prev ≠ a := by
  obtain ⟨l₁, l₂, rfl⟩ := append_of_mem ha
  obtain ⟨last, hseg⟩ := hlist
  obtain ⟨q, t, hfirst, rfl, hne, hprev, hrest⟩ := seg_append.mp hseg
  have hnext : (m t).next = null ∨ (m t).next ∈ l₁ ++ t :: l₂ := by
    cases l₂ with
    | nil => exact .inl hrest.2
    | cons b l₂ => exact .inr (by simp [hrest.1])
  rcases eq_nil_or_concat' l₁ with rfl | ⟨l₁, q', rfl⟩
  · obtain ⟨rfl, -⟩ := hfirst
    exact ⟨.inl hprev, hnext, by rw [hprev]; exact hne.symm⟩
  obtain rfl := hfirst.eq_last_of_concat
  refine ⟨.inr (by simp [hprev]), hnext, ?_⟩
  rw [hprev]
  exact (nodup_append.mp hnodup).2.2 q (by simp) t (by simp)

end

/-! ## Pointer writes -/

variable [DecidableEq α]

def setNext (m : α → Link α) (a v : α) : α → Link α :=
  update m a { m a with next := v }

def setPrev (m : α → Link α) (a v : α) : α → Link α :=
  update m a { m a with prev := v }

variable {m : α → Link α}

theorem setNext_of_ne (h : b ≠ a) : setNext m a v b = m b := update_of_ne h _ _

theorem setPrev_of_ne (h : b ≠ a) : setPrev m a v b = m b := update_of_ne h _ _

@[simp] theorem setNext_self (m : α → Link α) (a v : α) :
    setNext m a v a = { m a with next := v } := update_self _ _ _

@[simp] theorem setPrev_self (m : α → Link α) (a v : α) :
    setPrev m a v a = { m a with prev := v } := update_self _ _ _

/-! ## Redirecting the two ends of a segment -/

theorem Seg.setNext_last (hseg : Seg null m p h (l ++ [q]) q t) (hq : q ∉ l) :
    Seg null (setNext m q v) p h (l ++ [q]) q v := by
  obtain ⟨q', t', hl, rfl, hne, hprev, -, -⟩ := seg_append.mp hseg
  refine seg_append.mpr ⟨q', t', hl.congr ?_, rfl, hne, ?_, rfl, ?_⟩
  · intro a ha
    exact setNext_of_ne fun h => hq (h ▸ ha)
  · simpa using hprev
  · simp

theorem Seg.setPrev_head (hseg : Seg null m p h (h :: l) q t) (hh : h ∉ l) :
    Seg null (setPrev m h v) v h (h :: l) q t := by
  obtain ⟨-, hne, -, hrest⟩ := hseg
  refine ⟨rfl, hne, by simp, ?_⟩
  rw [setPrev_self]
  exact hrest.congr fun a ha => setPrev_of_ne fun hah => hh (hah ▸ ha)

/-! ## Insertion at the head -/

def pushFront (null : α) (m : α → Link α) (head a : α) : α → Link α :=
  let m₁ := update m a ⟨head, null⟩
  if head ≠ null then setPrev m₁ head a else m₁

theorem pushFront_of_not_mem (ha : b ≠ a) (hhead : b ≠ head) : pushFront null m head a b = m b := by
  unfold pushFront
  by_cases h : head = null
  · simp [h, update_of_ne ha]
  · simp [h, setPrev_of_ne hhead, update_of_ne ha]

theorem IsList.pushFront (hlist : IsList null m head l) (hnodup : l.Nodup) (ha : a ∉ l)
    (hne : a ≠ null) : IsList null (pushFront null m head a) a (a :: l) := by
  obtain ⟨last, hseg⟩ := hlist
  cases l with
  | nil =>
    obtain ⟨-, rfl⟩ := hseg
    refine ⟨a, rfl, hne, ?_, rfl, ?_⟩ <;> simp [Link.pushFront]
  | cons b l =>
    obtain ⟨rfl, hb, hprev, hrest⟩ := hseg
    have hba : head ≠ a := fun h => ha (h ▸ mem_cons_self)
    refine ⟨last, rfl, hne, ?_, ?_⟩
    · simp [Link.pushFront, hb, setPrev_of_ne hba.symm]
    have hnext : (Link.pushFront null m head a a).next = head := by
      simp [Link.pushFront, hb, setPrev_of_ne hba.symm]
    rw [hnext]
    refine ⟨rfl, hb, ?_, ?_⟩
    · simp [Link.pushFront, hb]
    have hkeep : (Link.pushFront null m head a head).next = (m head).next := by
      simp [Link.pushFront, hb, update_of_ne hba]
    rw [hkeep]
    refine hrest.congr fun c hc => pushFront_of_not_mem ?_ ?_
    · exact fun h => ha (h ▸ mem_cons_of_mem _ hc)
    · exact fun h => (nodup_cons.mp hnodup).1 (h ▸ hc)

/-! ## Removal of a node -/

def unlink (null : α) (m : α → Link α) (a : α) : α → Link α :=
  let m₁ := if (m a).prev ≠ null then setNext m (m a).prev (m a).next else m
  if (m₁ a).next ≠ null then setPrev m₁ (m₁ a).next (m₁ a).prev else m₁

def unlinkHead (null : α) (m : α → Link α) (head a : α) : α :=
  if (m a).prev ≠ null then head else (m a).next

/-- What unlinking writes: the forward link of the node before, the back link
of the node after, and nothing else. -/
theorem unlink_of_not_mem (hprev : b ≠ (m a).prev) (hnext : b ≠ (m a).next)
    (hself : (m a).prev ≠ a) : unlink null m a b = m b := by
  unfold unlink
  by_cases hp : (m a).prev = null
  · by_cases hn : (m a).next = null
    · simp [hp, hn]
    · simp [hp, hn, setPrev_of_ne hnext]
  have hm₁ : setNext m (m a).prev (m a).next a = m a := setNext_of_ne hself.symm
  have hb : setNext m (m a).prev (m a).next b = m b := setNext_of_ne hprev
  simp only [ne_eq, hp, not_false_eq_true, if_true, hm₁]
  by_cases hn : (m a).next = null
  · rw [if_neg (by simp [hn]), hb]
  · rw [if_pos hn, setPrev_of_ne hnext, hb]

private theorem IsList.unlink_head (hlist : IsList null m head (a :: l)) (hnodup : (a :: l).Nodup) :
    (m a).prev = null ∧ IsList null (unlink null m a) (m a).next l := by
  obtain ⟨last, rfl, hne, hprev, hrest⟩ := hlist
  refine ⟨hprev, ?_⟩
  cases l with
  | nil =>
    obtain ⟨-, hnull⟩ := hrest
    exact ⟨null, rfl, hnull⟩
  | cons b l =>
    have hbn : (m head).next = b := hrest.1
    have hb : b ≠ null := hrest.2.1
    have hmem : Link.unlink null m head = setPrev m b null := by
      simp [Link.unlink, hprev, hbn, hb]
    rw [hmem, hbn]
    rw [hbn] at hrest
    exact ⟨last, hrest.setPrev_head (nodup_cons.mp (nodup_cons.mp hnodup).2).1⟩

private theorem IsList.unlink_inner (hlist : IsList null m head (l₁ ++ [q] ++ a :: l₂))
    (hnodup : (l₁ ++ [q] ++ a :: l₂).Nodup) :
    (m a).prev = q ∧ q ≠ null ∧ IsList null (unlink null m a) head (l₁ ++ [q] ++ l₂) := by
  obtain ⟨last, hseg⟩ := hlist
  obtain ⟨q', t', hfirst, rfl, hne, hprev, hrest⟩ := seg_append.mp hseg
  obtain rfl := hfirst.eq_last_of_concat
  have hqne : q' ≠ null := by
    obtain ⟨_, _, -, -, hqne, -⟩ := seg_append.mp hfirst
    exact hqne
  have hnodup' := nodup_append.mp hnodup
  have hqa : q' ≠ t' := hnodup'.2.2 q' (by simp) t' (by simp)
  have hql₁ : q' ∉ l₁ := by
    have := nodup_append.mp hnodup'.1
    exact fun h => this.2.2 q' h q' (by simp) rfl
  have hql₂ : q' ∉ l₂ := fun h =>
    hnodup'.2.2 q' (by simp) q' (mem_cons_of_mem _ h) rfl
  have hm₁ : setNext m q' (m t').next t' = m t' := setNext_of_ne hqa.symm
  refine ⟨hprev, hqne, ?_⟩
  have hfirst₁ := hfirst.setNext_last (v := (m t').next) hql₁
  have hrest₁ : Seg null (setNext m q' (m t').next) t' (m t').next l₂ last
      null := hrest.congr fun b hb => setNext_of_ne fun h => hql₂ (h ▸ hb)
  cases l₂ with
  | nil =>
    have hnull : (m t').next = null := hrest.2
    have hmem : unlink null m t' = setNext m q' (m t').next := by
      simp only [unlink, hprev, ne_eq, hqne, not_false_eq_true, if_true, hm₁]
      rw [if_neg (by simp [hnull])]
    rw [hmem, append_nil]
    rw [hnull] at hfirst₁ ⊢
    exact ⟨q', hfirst₁⟩
  | cons b l₂ =>
    have hbn : (m t').next = b := hrest.1
    have hb : b ≠ null := hrest.2.1
    have hmem : unlink null m t' = setPrev (setNext m q' b) b q' := by
      simp [unlink, hprev, hqne, hbn] at hm₁ ⊢
      simp [hm₁, hbn, hb, hprev]
    rw [hmem]
    rw [hbn] at hfirst₁ hrest₁
    refine ⟨last, seg_append.mpr ⟨q', b, hfirst₁.congr ?_, ?_⟩⟩
    · intro c hc
      refine setPrev_of_ne fun h => ?_
      exact hnodup'.2.2 c hc b (by simp) h
    · exact hrest₁.setPrev_head (nodup_cons.mp (nodup_cons.mp hnodup'.2.1).2).1

theorem IsList.unlink (hlist : IsList null m head (l₁ ++ a :: l₂))
    (hnodup : (l₁ ++ a :: l₂).Nodup) :
    IsList null (unlink null m a) (unlinkHead null m head a) (l₁ ++ l₂) := by
  rcases eq_nil_or_concat' l₁ with rfl | ⟨l₁, q, rfl⟩
  · obtain ⟨hprev, hres⟩ := IsList.unlink_head hlist hnodup
    simpa [unlinkHead, hprev] using hres
  obtain ⟨hprev, hqne, hres⟩ := IsList.unlink_inner hlist hnodup
  simpa [unlinkHead, hprev, hqne] using hres

end Link

end SlmOs.Foundation
