import SlmOs.Pmm.Allocator
import Mathlib.Algebra.BigOperators.Group.Finset.Basic
import Mathlib.Tactic.Ring

/-!
# The free lists as lists

`ListsOk s fl` says that the pointers of `s` represent the lists `fl`, one per
order.  Each pointer operation of the allocator is then one operation on `fl`,
and the rest of the development never looks at a pointer again.
-/

namespace SlmOs.Pmm

open Function Foundation Link List Finset

structure ListsOk (s : BuddyState) (fl : Nat → List Nat) : Prop where
  lists : ∀ o ≤ maxOrder, Link.IsList 0 s.mem (s.freeLists o) (fl o)
  nodup : ∀ o, (fl o).Nodup
  counts : ∀ o ≤ maxOrder, s.freeCounts o = (fl o).length
  above : ∀ o, maxOrder < o → fl o = []
  apart : ∀ o o' a, a ∈ fl o → a ∈ fl o' → o = o'

def addTo (fl : Nat → List Nat) (a o : Nat) : Nat → List Nat :=
  update fl o (a :: fl o)

def removeFrom (fl : Nat → List Nat) (a o : Nat) : Nat → List Nat :=
  update fl o ((fl o).erase a)

variable {fl : Nat → List Nat} {a o : Nat}

theorem mem_addTo : b ∈ addTo fl a o o' ↔ b ∈ fl o' ∨ (b = a ∧ o' = o) := by
  by_cases h : o' = o
  · subst h
    simp [addTo, or_comm]
  · simp [addTo, h]

theorem mem_removeFrom (hnodup : (fl o).Nodup) :
    b ∈ removeFrom fl a o o' ↔ b ∈ fl o' ∧ ¬(b = a ∧ o' = o) := by
  by_cases h : o' = o
  · subst h
    simp [removeFrom, hnodup.mem_erase_iff, and_comm]
  · simp [removeFrom, h]

/-! ## Page counts -/

def freeTotal (fl : Nat → List Nat) : Nat :=
  ∑ o ∈ Finset.range (maxOrder + 1), (fl o).length * 2 ^ o

theorem freeTotal_update (fl : Nat → List Nat) (ho : o ≤ maxOrder) (l : List Nat) :
    freeTotal (update fl o l) + (fl o).length * 2 ^ o = freeTotal fl + l.length * 2 ^ o := by
  have hmem : o ∈ Finset.range (maxOrder + 1) := Finset.mem_range.mpr (by omega)
  unfold freeTotal
  rw [← add_sum_erase _ _ hmem, ← add_sum_erase _ _ hmem]
  have hrest : ∑ i ∈ (Finset.range (maxOrder + 1)).erase o, (update fl o l i).length * 2 ^ i =
      ∑ i ∈ (Finset.range (maxOrder + 1)).erase o, (fl i).length * 2 ^ i := by
    refine sum_congr rfl fun i hi => ?_
    rw [update_of_ne (ne_of_mem_erase hi)]
  rw [hrest, update_self]
  ring

theorem freeTotal_addTo (ho : o ≤ maxOrder) : freeTotal (addTo fl a o) = freeTotal fl + 2 ^ o := by
  have h := freeTotal_update fl ho (a :: fl o)
  rw [length_cons, Nat.succ_mul] at h
  unfold addTo
  omega

theorem freeTotal_removeFrom (ho : o ≤ maxOrder) (ha : a ∈ fl o) :
    freeTotal (removeFrom fl a o) + 2 ^ o = freeTotal fl := by
  have h := freeTotal_update fl ho ((fl o).erase a)
  have hlen := length_erase_add_one ha
  rw [← hlen, Nat.succ_mul] at h
  unfold removeFrom
  omega

/-! ## Pointer operations -/

section

variable (h : ListsOk s fl)
include h

theorem freeListAdd_ok (ho : o ≤ maxOrder) (ha : a ≠ 0) (hnew : ∀ o', a ∉ fl o') :
    ListsOk (freeListAdd s a o) (addTo fl a o) where
  lists := by
    intro o' ho'
    by_cases hoo : o' = o
    · subst hoo
      simpa [freeListAdd, addTo] using (h.lists o' ho').pushFront (h.nodup o') (hnew o') ha
    simp only [freeListAdd, addTo, update_of_ne hoo]
    refine (h.lists o' ho').congr fun b hb => ?_
    refine pushFront_of_not_mem (fun hba => hnew o' (hba ▸ hb)) ?_
    -- the head of list `o`, if there is one, lies in list `o` only
    intro hhead
    have hb0 : b ≠ 0 := (h.lists o' ho').ne_null b hb
    rcases hlo : fl o with _ | ⟨c, l⟩
    · have := (h.lists o ho).head_eq_null_iff.mpr hlo
      omega
    have hlist := h.lists o ho
    rw [hlo] at hlist
    obtain ⟨_, hc, -⟩ := hlist
    have hmem : b ∈ fl o := by simp [hlo, ← hc, hhead]
    exact hoo (h.apart o' o b hb hmem)
  nodup := by
    intro o'
    by_cases hoo : o' = o
    · subst hoo
      simpa [addTo] using ⟨hnew o', h.nodup o'⟩
    · simpa [addTo, update_of_ne hoo] using h.nodup o'
  counts := by
    intro o' ho'
    by_cases hoo : o' = o
    · subst hoo
      simp [freeListAdd, addTo, h.counts o' ho']
    · simpa [freeListAdd, addTo, update_of_ne hoo] using h.counts o' ho'
  above := by
    intro o' ho'
    have hoo : o' ≠ o := by omega
    simpa [addTo, update_of_ne hoo] using h.above o' ho'
  apart := by
    intro o₁ o₂ b h₁ h₂
    rw [mem_addTo] at h₁ h₂
    rcases h₁ with h₁ | ⟨rfl, rfl⟩
    · rcases h₂ with h₂ | ⟨rfl, rfl⟩
      · exact h.apart o₁ o₂ b h₁ h₂
      · exact absurd h₁ (hnew o₁)
    rcases h₂ with h₂ | ⟨-, rfl⟩
    · exact absurd h₂ (hnew o₂)
    · rfl

private theorem removed_ok {head : Nat} {m : Nat → Link Nat} (ho : o ≤ maxOrder) (ha : a ∈ fl o)
    (hlist : Link.IsList 0 m head ((fl o).erase a))
    (hkeep : ∀ o', o' ≠ o → ∀ b ∈ fl o', m b = s.mem b) :
    ListsOk
      { s with
        mem := m
        freeLists := update s.freeLists o head
        freeCounts := update s.freeCounts o (s.freeCounts o - 1) }
      (removeFrom fl a o) where
  lists := by
    intro o' ho'
    by_cases hoo : o' = o
    · subst hoo
      simpa [removeFrom] using hlist
    simp only [removeFrom, update_of_ne hoo]
    exact (h.lists o' ho').congr (hkeep o' hoo)
  nodup := by
    intro o'
    by_cases hoo : o' = o
    · subst hoo
      simpa [removeFrom] using (h.nodup o').erase a
    · simpa [removeFrom, update_of_ne hoo] using h.nodup o'
  counts := by
    intro o' ho'
    by_cases hoo : o' = o
    · subst hoo
      simp [removeFrom, h.counts o' ho', length_erase_of_mem ha]
    · simpa [removeFrom, update_of_ne hoo] using h.counts o' ho'
  above := by
    intro o' ho'
    have hoo : o' ≠ o := by omega
    simpa [removeFrom, update_of_ne hoo] using h.above o' ho'
  apart := by
    intro o₁ o₂ b h₁ h₂
    rw [mem_removeFrom (h.nodup o)] at h₁ h₂
    exact h.apart o₁ o₂ b h₁.1 h₂.1

theorem freeListRemove_ok (ho : o ≤ maxOrder) (ha : a ∈ fl o) :
    ListsOk (freeListRemove s a o) (removeFrom fl a o) := by
  have hnodup := h.nodup o
  refine removed_ok h ho ha ?_ ?_
  · obtain ⟨l₁, l₂, hl⟩ := append_of_mem ha
    have hlist := h.lists o ho
    rw [hl] at hlist hnodup ⊢
    have hl₁ : a ∉ l₁ := by
      intro hmem
      exact (nodup_append.mp hnodup).2.2 a hmem a (by simp) rfl
    rw [erase_append_right _ hl₁, erase_cons_head]
    exact hlist.unlink hnodup
  intro o' hoo b hb
  obtain ⟨hprev, hnext, hself⟩ := (h.lists o ho).neighbours hnodup ha
  have hlist' : b ∉ fl o := fun hbo => hoo (h.apart o' o b hb hbo)
  have hb0 : b ≠ 0 := by
    intro hb0
    by_cases ho' : o' ≤ maxOrder
    · exact (h.lists o' ho').ne_null b hb hb0
    rw [h.above o' (by omega)] at hb
    simp at hb
  refine unlink_of_not_mem ?_ ?_ hself
  · rintro rfl
    rcases hprev with hprev | hprev
    · exact hb0 hprev
    · exact hlist' hprev
  rintro rfl
  rcases hnext with hnext | hnext
  · exact hb0 hnext
  · exact hlist' hnext

theorem freeListPop_ok (ho : o ≤ maxOrder) (hpos : 0 < s.freeCounts o) :
    ∃ a m heads counts, a ∈ fl o ∧ freeListPop s o =
        ({ s with mem := m, freeLists := heads, freeCounts := counts }, a) ∧
      ListsOk { s with mem := m, freeLists := heads, freeCounts := counts }
        (removeFrom fl a o) := by
  rcases hl : fl o with _ | ⟨a, l⟩
  · rw [h.counts o ho, hl] at hpos
    exact absurd hpos (Nat.lt_irrefl 0)
  have hlist := h.lists o ho
  have hnodup := h.nodup o
  rw [hl] at hlist hnodup
  have hmem : a ∈ fl o := by simp [hl]
  obtain ⟨-, hnext, -⟩ := (h.lists o ho).neighbours (h.nodup o) hmem
  have hunlink : Link.IsList 0 (unlink 0 s.mem a)
      (unlinkHead 0 s.mem (s.freeLists o) a) ([] ++ l) :=
    Link.IsList.unlink hlist hnodup
  obtain ⟨last, hhead, ha0, hprev, -⟩ := hlist
  have hmemEq : unlink 0 s.mem a =
      if (s.mem a).next ≠ 0 then setPrev s.mem (s.mem a).next 0
        else s.mem := by
    simp [unlink, hprev]
  refine ⟨a, update (unlink 0 s.mem a) a ⟨0, 0⟩, update s.freeLists o (s.mem a).next,
    update s.freeCounts o (s.freeCounts o - 1),
    mem_cons_self, ?_, removed_ok h ho hmem ?_ ?_⟩
  · unfold freeListPop
    rw [hhead, if_neg ha0, hmemEq]
  · have hheadEq : unlinkHead 0 s.mem (s.freeLists o) a =
        (s.mem a).next := by simp [unlinkHead, hprev]
    rw [hheadEq] at hunlink
    rw [hl, erase_cons_head]
    refine hunlink.congr fun b hb => update_of_ne ?_ _ _
    rintro rfl
    exact (nodup_cons.mp hnodup).1 hb
  intro o' hoo b hb
  have hbo : b ∉ fl o := fun hbo => hoo (h.apart o' o b hb hbo)
  have hba : b ≠ a := fun hba => hbo (hba ▸ hmem)
  rw [update_of_ne hba, hmemEq]
  split
  · refine setPrev_of_ne fun hbn => ?_
    rcases hnext with hnext | hnext
    · contradiction
    · exact hbo (hbn ▸ hnext)
  · rfl

end

theorem scanList_eq {m : Nat → Link Nat} : ∀ (l : List Nat) (fuel head p last : Nat) (best : Best),
      Link.Seg 0 m p head l last 0 → l.length ≤ fuel →
      scanList m o fuel head best = some (l.foldl (fun b a => b.consider a o) best) := by
  intro l
  induction l with
  | nil =>
    intro fuel head p last best hseg hlen
    rw [hseg.2, scanList]
    rfl
  | cons a l ih =>
    intro fuel head p last best hseg hlen
    obtain ⟨rfl, hne, -, hrest⟩ := hseg
    obtain ⟨b, rfl⟩ := Nat.exists_eq_succ_of_ne_zero hne
    cases fuel with
    | zero => exact absurd hlen (Nat.not_succ_le_zero _)
    | succ fuel =>
      rw [scanList]
      exact ih fuel _ _ last _ hrest (Nat.le_of_succ_le_succ hlen)

end SlmOs.Pmm
