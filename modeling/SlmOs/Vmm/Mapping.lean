import SlmOs.Vmm.Tree

/-!
# Mapping, unmapping and destroying

What the functions of `vmm.c` do to the tables, the leaves and the accounts of an
address space.  A page is mapped completely or not at all, a range is unmapped leaf
by leaf, and the walk of `vmm_destroy_user_l1` meets every place once.
-/

namespace SlmOs.Vmm

open Foundation List Machine

/-! ## Indices -/

theorem l1Index_eq (va : Nat) : l1Index va = va / 2 ^ 30 % 512 := by
  rw [l1Index, Nat.shiftRight_eq_div_pow]
  exact Nat.and_two_pow_sub_one_eq_mod _ 9

theorem l2Index_eq (va : Nat) : l2Index va = va / 2 ^ 21 % 512 := by
  rw [l2Index, Nat.shiftRight_eq_div_pow]
  exact Nat.and_two_pow_sub_one_eq_mod _ 9

theorem l3Index_eq (va : Nat) : l3Index va = va / 2 ^ 12 % 512 := by
  rw [l3Index, Nat.shiftRight_eq_div_pow]
  exact Nat.and_two_pow_sub_one_eq_mod _ 9

def InWindow (va : Nat) : Prop :=
  userVaBase ≤ va ∧ va < userVaLimit ∧ va % pageSize = 0

instance (va : Nat) : Decidable (InWindow va) :=
  inferInstanceAs (Decidable (_ ∧ _))

theorem inWindow_of_accepted (hrange : ¬ (va < userVaBase ∨ va ≥ userVaLimit))
    (halign : ¬ va % pageSize ≠ 0) : InWindow va := by
  simp only [not_or, Nat.not_lt, ge_iff_le, Nat.not_le, ne_eq, Decidable.not_not] at hrange halign
  exact ⟨hrange.1, hrange.2, halign⟩

theorem InWindow.l1Index (h : InWindow va) :
    userL1First ≤ l1Index va ∧ l1Index va < userL1Limit := by
  simp only [InWindow, userVaBase, userVaLimit, userL1First, userL1Limit, l1BlockSize] at h
  simp only [l1Index_eq, userL1First, userL1Limit]
  omega

theorem l2Index_lt (va : Nat) : l2Index va < entriesPerTable := by
  simp only [l2Index_eq, entriesPerTable]
  omega

theorem l3Index_lt (va : Nat) : l3Index va < entriesPerTable := by
  simp only [l3Index_eq, entriesPerTable]
  omega

theorem InWindow.ext (h : InWindow va) (h' : InWindow va') (h1 : Vmm.l1Index va = Vmm.l1Index va')
    (h2 : l2Index va = l2Index va') (h3 : l3Index va = l3Index va') : va = va' := by
  simp only [InWindow, userVaBase, userVaLimit, userL1First, userL1Limit,
    l1BlockSize, pageSize] at h h'
  simp only [l1Index_eq, l2Index_eq, l3Index_eq] at h1 h2 h3
  omega

def leafAt (m : Machine) (l1 : Word) (va : Nat) : Word :=
  entryAt m l1 (l1Index va) (l2Index va) (l3Index va)

/-! ## The tree before and after -/

structure SameTree (m m' : Machine) (l1 : Word) : Prop where
  l2 : ∀ i, l2At m' l1 i = l2At m l1 i
  l3 : ∀ i j, l3At m' l1 i j = l3At m l1 i j
  entry : ∀ i j k, entryAt m' l1 i j k = entryAt m l1 i j k

theorem SameTree.grows (h : SameTree m m' l1) : Grows m m' l1 :=
  ⟨fun i _ hp => (h.l2 i).trans hp, fun i j _ hp => (h.l3 i j).trans hp⟩

theorem SameTree.trans (h : SameTree m m' l1) (h' : SameTree m' m'' l1) : SameTree m m'' l1 :=
  ⟨fun i => (h'.l2 i).trans (h.l2 i), fun i j => (h'.l3 i j).trans (h.l3 i j),
    fun i j k => (h'.entry i j k).trans (h.entry i j k)⟩

theorem SameTree.pmm (m : Machine) (pmm : Pmm) (l1 : Word) : SameTree m { m with pmm := pmm } l1 :=
  ⟨fun _ => rfl, fun _ _ => rfl, fun _ _ _ => rfl⟩

def Settled (m : Machine) (l1 : Word) : Prop :=
  ∀ i j k, entryAt m l1 i j k = 0#64 ∨ pteType (entryAt m l1 i j k) = pteTypePage

theorem Settled.congr (h : Settled m l1)
    (hentry : ∀ i j k, entryAt m' l1 i j k = entryAt m l1 i j k) : Settled m' l1 := by
  intro i j k
  simpa [hentry] using h i j k

structure Mapped (m m' : Machine) (l1 : Word) (va : Nat) (v : Word) :
    Prop where
  window : InWindow va
  empty : leafAt m l1 va = 0#64
  grows : Grows m m' l1
  entry : ∀ a b c, entryAt m' l1 a b c =
    if a = l1Index va ∧ b = l2Index va ∧ c = l3Index va then v
    else entryAt m l1 a b c

theorem Mapped.settled (h : Mapped m m' l1 va (makePageDesc pa flags))
    (hs : Settled m l1) : Settled m' l1 := by
  intro a b c
  rw [h.entry]
  split
  · exact .inr (pteType_makePageDesc pa flags)
  · exact hs a b c

theorem Mapped.of_pmm {m' : Machine} {m : Machine} {pmm : Pmm} {l1 v : Word} {va : Nat}
    (h : Mapped { m with pmm := pmm } m' l1 va v) : Mapped m m' l1 va v :=
  ⟨h.window, h.empty, ⟨h.grows.l2, h.grows.l3⟩, h.entry⟩

/-- Mapping succeeds and changes one leaf, or fails and changes nothing. -/
def MapOutcome (pool : Word → Prop) (m : Machine) (l1 : Word) (va : Nat)
    (v : Word) (hand hand' : List Word) (r : Machine × Bool) : Prop :=
  r.2 = true ∧ Tidy pool r.1 l1 hand' ∧ Mapped m r.1 l1 va v ∨
    r.2 = false ∧ Tidy pool r.1 l1 hand ∧ SameTree m r.1 l1

section

variable {choose : Nat → Option Word} {pool : Word → Prop} {m : Machine}
  {l1 pa : Word} {va : Nat} {flags : Flags} {hand hand' : List Word}

/-- Writing the leaf of `va` moves its page from `hand` to `hand'`. -/
def LeafWrites (pool : Word → Prop) (l1 : Word) (va : Nat) (pa : Word)
    (flags : Flags) (hand hand' : List Word) : Prop :=
  ∀ m l3, Tidy pool m l1 hand →
    l3At m l1 (l1Index va) (l2Index va) = some l3 → leafAt m l1 va = 0#64 →
    Tidy pool (m.store l3 (l3Index va) (makePageDesc pa flags)) l1 hand'

/-- As `MapOutcome`, with any property of the tables after the leaf is written. -/
def MapCases (Q : Machine → Prop) (pool : Word → Prop) (m : Machine) (l1 : Word) (va : Nat)
    (v : Word) (hand : List Word) (r : Machine × Bool) : Prop :=
  r.2 = true ∧ Q r.1 ∧ Mapped m r.1 l1 va v ∨
    r.2 = false ∧ Tidy pool r.1 l1 hand ∧ SameTree m r.1 l1

theorem leafAt_eq (hl3 : l3At m l1 (l1Index va) (l2Index va) = some l3) :
    leafAt m l1 va = m.mem l3 (l3Index va) := by
  simp [leafAt, entryAt, hl3, l3Index_lt]

section

variable {Q : Machine → Prop} (hwrite : ∀ m l3, Tidy pool m l1 hand →
    l3At m l1 (l1Index va) (l2Index va) = some l3 → leafAt m l1 va = 0#64 →
    Q (m.store l3 (l3Index va) (makePageDesc pa flags)))

include hwrite

theorem mapInL3_ok (newL2 newL3 : Option Word) (l2 : Word) (h : Tidy pool m l1 hand)
    (hva : InWindow va) (hl3 : l3At m l1 (l1Index va) (l2Index va) = some l3)
    (hempty : leafAt m l1 va = 0#64) :
    ∃ m', mapInL3 m l1 va pa flags newL2 l2 newL3 l3 = (m', true) ∧ Q m' ∧
      Mapped m m' l1 va (makePageDesc pa flags) := by
  obtain ⟨h2, h3, he⟩ := store_l3 h.exclusive hl3 (l3Index_lt va) (makePageDesc pa flags)
  refine ⟨_, ?_, hwrite m l3 h hl3 hempty, hva, hempty, ⟨fun i p hp => ?_, fun i j p hp => ?_⟩, he⟩
  · have hmem : m.mem l3 (l3Index va) = 0#64 := by rw [← leafAt_eq hl3, hempty]
    simp [mapInL3, hmem]
  · rwa [h2]
  · rwa [h3]

theorem mapInL3_new (newL2 : Option Word) (h : Tidy pool m l1 (l3 :: hand)) (hva : InWindow va)
    (hl2 : l2At m l1 (l1Index va) = some l2) (hnone : l3At m l1 (l1Index va) (l2Index va) = none) :
    ∃ m', mapInL3 ((m.zero l3).store l2 (l2Index va) (makeTableDesc l3)) l1 va
        pa flags newL2 l2 (some l3) l3 = (m', true) ∧
      Q m' ∧ Mapped m m' l1 va (makePageDesc pa flags) := by
  have hpage : IsPage l3 := h.isPage_of_held ((h.held l3).mpr (by simp))
  obtain ⟨h2, h3, he⟩ := install_l3 h.exclusive hl2 (l2Index_lt va) hnone h.in_hand hpage rfl
  have hinstalled := h.installL3 hl2 (l2Index_lt va) hnone
  generalize (m.zero l3).store l2 (l2Index va) (makeTableDesc l3) = m₁ at h2 h3 he hinstalled ⊢
  have hempty : leafAt m₁ l1 va = 0#64 := by
    rw [leafAt, he, entryAt_of_none hnone]
  have hl3 : l3At m₁ l1 (l1Index va) (l2Index va) = some l3 := by simp [h3]
  obtain ⟨m', heq, htidy, hmapped⟩ := mapInL3_ok hwrite newL2 (some l3) l2 hinstalled hva hl3 hempty
  have hgrows : Grows m m₁ l1 := by
    refine ⟨fun i p hp => ?_, fun i j p hp => ?_⟩
    · rwa [h2]
    rw [h3]
    split
    · rename_i hij
      rw [hij.1, hij.2, hnone] at hp
      cases hp
    · exact hp
  refine ⟨m', heq, htidy, hva, ?_, hgrows.trans hmapped.grows, ?_⟩
  · rw [leafAt, entryAt_of_none hnone]
  intro a b c
  rw [hmapped.entry, he]

theorem mapInL2_old (h : Tidy pool m l1 hand) (hs : Settled m l1)
    (hva : InWindow va) (hl2 : l2At m l1 (l1Index va) = some l2) :
    MapCases Q pool m l1 va (makePageDesc pa flags) hand
      (mapInL2 choose m l1 va pa flags none l2) := by
  have hl3 : l3At m l1 (l1Index va) (l2Index va) = tableAt m l2 (l2Index va) := by
    simp [l3At, hl2, l2Index_lt]
  have hfail : SameTree m m l1 := SameTree.pmm m m.pmm l1
  unfold mapInL2
  dsimp only
  split
  · rename_i htable
    have hl3 : l3At m l1 (l1Index va) (l2Index va) = some (pteAddr (m.mem l2 (l2Index va))) := by
      simp [hl3, tableAt, htable]
    by_cases hempty : leafAt m l1 va = 0#64
    · obtain ⟨m', heq, htidy, hmapped⟩ := mapInL3_ok hwrite none none l2 h hva hl3 hempty
      rw [heq]
      exact .inl ⟨rfl, htidy, hmapped⟩
    have htype : pteType (m.mem (pteAddr (m.mem l2 (l2Index va))) (l3Index va)) = pteTypePage := by
      rw [← leafAt_eq hl3]
      exact (hs _ _ _).resolve_left hempty
    simp only [mapInL3, htype, ne_eq, pteTypePage_ne_invalid,
      not_false_eq_true, if_true, mapRollback]
    exact .inr ⟨rfl, h, hfail⟩
  rename_i htable
  have hnone : l3At m l1 (l1Index va) (l2Index va) = none := by
    simp [hl3, tableAt, htable]
  split
  · rcases alloc_cases choose m with heq | ⟨l3, hfree, heq⟩
    · rw [heq]
      exact .inr ⟨rfl, h.called, SameTree.pmm m _ l1⟩
    · rw [heq]
      obtain ⟨m', heq, htidy, hmapped⟩ := mapInL3_new hwrite none (h.take hfree) hva hl2 hnone
      dsimp only
      rw [heq]
      exact .inl ⟨rfl, htidy, hmapped.of_pmm⟩
  · exact .inr ⟨rfl, h, hfail⟩

theorem mapInL2_new (h : Tidy pool m l1 (l2 :: hand))
    (hva : InWindow va) (hnone : l2At m l1 (l1Index va) = none) :
    MapCases Q pool m l1 va (makePageDesc pa flags) hand
      (mapInL2 choose ((m.zero l2).store l1 (l1Index va) (makeTableDesc l2))
        l1 va pa flags (some l2) l2) := by
  have hpage : IsPage l2 := h.isPage_of_held ((h.held l2).mpr (by simp))
  have hne : l2 ≠ l1 := by
    rintro rfl
    exact h.in_hand .l1 rfl
  obtain ⟨h2, h3, he⟩ := install_l2 h.exclusive hva.l1Index hnone h.in_hand hpage rfl
  have hinstalled := h.installL2 hva.l1Index hnone
  have hmem : ((m.zero l2).store l1 (l1Index va) (makeTableDesc l2)).mem l2
      (l2Index va) = 0#64 := by
    simp [store_mem_of_ne _ _ (.inl hne), zero, fill]
  generalize (m.zero l2).store l1 (l1Index va) (makeTableDesc l2) = m₁ at h2 h3 he hinstalled hmem ⊢
  have hl2 : l2At m₁ l1 (l1Index va) = some l2 := by simp [h2]
  have hempty : ∀ b, l3At m₁ l1 (l1Index va) b = none := by
    intro b
    rw [h3, l3At_of_none hnone]
  have hgrows : Grows m m₁ l1 := by
    refine ⟨fun i p hp => ?_, fun i j p hp => ?_⟩
    · rw [h2]
      split
      · rename_i hi
        rw [hi, hnone] at hp
        cases hp
      · exact hp
    · rwa [h3]
  have hleaf : leafAt m l1 va = 0#64 := entryAt_of_none (l3At_of_none hnone)
  simp only [mapInL2, hmem, pteType_zero, Ne.symm pteTypeTable_ne_invalid, if_false, if_true]
  rcases alloc_cases choose m₁ with heq | ⟨l3, hfree, heq⟩
  · -- no page for the L3 table: the L2 table is taken out again
    rw [heq]
    obtain ⟨hr2, hr3, hre⟩ := remove_l2 hinstalled.exclusive hva.l1Index hempty
    have hremoved := (hinstalled.called.removeL2 hva.l1Index hl2 hempty).release
    refine .inr ⟨rfl, hremoved, ⟨fun i => ?_, fun i j => ?_, fun i j k => ?_⟩⟩
    · refine (hr2 i).trans ?_
      rw [h2]
      split
      · rename_i hi
        rw [hi, hnone]
      · rfl
    · exact (hr3 i j).trans (h3 i j)
    · exact (hre i j k).trans (he i j k)
  rw [heq]
  obtain ⟨m', heq, htidy, hmapped⟩ := mapInL3_new hwrite (some l2)
    (hinstalled.take hfree) hva hl2 (hempty _)
  have hmapped := hmapped.of_pmm
  dsimp only
  rw [heq]
  refine .inl ⟨rfl, htidy, hva, hleaf, hgrows.trans hmapped.grows, fun a b c => ?_⟩
  rw [hmapped.entry, he]

theorem vmmUserMapPage_cases (h : Tidy pool m l1 hand) (hs : Settled m l1) :
    MapCases Q pool m l1 va (makePageDesc pa flags) hand
      (vmmUserMapPage choose m l1 va pa flags) := by
  have hfail : SameTree m m l1 := SameTree.pmm m m.pmm l1
  unfold vmmUserMapPage
  split
  · exact .inr ⟨rfl, h, hfail⟩
  split
  · exact .inr ⟨rfl, h, hfail⟩
  split
  · exact .inr ⟨rfl, h, hfail⟩
  split
  · exact .inr ⟨rfl, h, hfail⟩
  rename_i hrange halign _
  have hva := inWindow_of_accepted hrange halign
  have hl2 : l2At m l1 (l1Index va) = tableAt m l1 (l1Index va) := by
    simp [l2At, hva.l1Index]
  dsimp only
  split
  · rename_i htable
    exact mapInL2_old hwrite h hs hva (by simp [hl2, tableAt, htable])
  rename_i htable
  have hnone : l2At m l1 (l1Index va) = none := by
    simp [hl2, tableAt, htable]
  split
  · rcases alloc_cases choose m with heq | ⟨l2, hfree, heq⟩
    · rw [heq]
      exact .inr ⟨rfl, h.called, SameTree.pmm m _ l1⟩
    · rw [heq]
      rcases mapInL2_new hwrite (h.take hfree) hva hnone with
        ⟨hok, htidy, hmapped⟩ | ⟨hok, htidy, hsame⟩
      · exact .inl ⟨hok, htidy, hmapped.of_pmm⟩
      · exact .inr ⟨hok, htidy, (SameTree.pmm m _ l1).trans hsame⟩
  · exact .inr ⟨rfl, h, hfail⟩

end

theorem vmmUserMapPage_outcome (h : Tidy pool m l1 hand) (hs : Settled m l1)
    (hwrite : LeafWrites pool l1 va pa flags hand hand') :
    MapOutcome pool m l1 va (makePageDesc pa flags) hand hand'
      (vmmUserMapPage choose m l1 va pa flags) :=
  vmmUserMapPage_cases (Q := fun m => Tidy pool m l1 hand') hwrite h hs

/-! ### Which words are written -/

/-- A word on the walk to `va`, or one of a free page. -/
def Written (m : Machine) (l1 : Word) (va : Nat) (q : Word) (k : Nat) : Prop :=
  m.pmm.free q = true ∨ q = l1 ∧ k = l1Index va ∨ l2At m l1 (l1Index va) = some q ∧ k = l2Index va ∨
    l3At m l1 (l1Index va) (l2Index va) = some q ∧ k = l3Index va

theorem mapRollback_frame (newL2 newL3 : Option Word) (h1 : q ≠ l1 ∨ k ≠ l1Index va)
    (h2 : q ≠ l2 ∨ k ≠ l2Index va) : (mapRollback m l1 va newL2 l2 newL3).mem q k = m.mem q k := by
  cases newL2 with
  | none =>
    cases newL3 with
    | none => rfl
    | some _ => exact store_mem_of_ne _ _ h2
  | some _ =>
    cases newL3 with
    | none => exact store_mem_of_ne _ _ h1
    | some _ => exact (store_mem_of_ne _ _ h1).trans (store_mem_of_ne _ _ h2)

theorem mapInL3_frame (newL2 newL3 : Option Word) (h1 : q ≠ l1 ∨ k ≠ l1Index va)
    (h2 : q ≠ l2 ∨ k ≠ l2Index va) (h3 : q ≠ l3 ∨ k ≠ l3Index va) :
    (mapInL3 m l1 va pa flags newL2 l2 newL3 l3).1.mem q k = m.mem q k := by
  unfold mapInL3
  split
  · exact mapRollback_frame _ _ h1 h2
  · exact store_mem_of_ne _ _ h3

theorem zero_mem_of_ne (m : Machine) (h : q ≠ l2) : (m.zero l2).mem q k = m.mem q k := by
  simp [zero, fill, h]

theorem mapInL2_frame (newL2 : Option Word) (hused : m.pmm.free q = false)
    (h1 : q ≠ l1 ∨ k ≠ l1Index va) (h2 : q ≠ l2 ∨ k ≠ l2Index va)
    (h3 : tableAt m l2 (l2Index va) = some q → k ≠ l3Index va) :
    (mapInL2 choose m l1 va pa flags newL2 l2).1.mem q k = m.mem q k := by
  unfold mapInL2
  dsimp only
  split
  · rename_i htable
    refine mapInL3_frame _ _ h1 h2 (or_iff_not_imp_left.mpr fun hq => h3 ?_)
    simp [tableAt, htable, not_not.mp hq]
  split
  · rcases alloc_cases choose m with heq | ⟨l3, hfree, heq⟩
    · rw [heq]
      exact mapRollback_frame _ _ h1 h2
    · have hne : q ≠ l3 := by
        rintro rfl
        cases hused.symm.trans hfree
      rw [heq]
      exact (mapInL3_frame _ _ h1 h2 (.inl hne)).trans
        ((store_mem_of_ne _ _ h2).trans (zero_mem_of_ne _ hne))
  · exact mapRollback_frame _ _ h1 h2

theorem vmmUserMapPage_frame (hl1 : m.pmm.free l1 = false) (h : ¬ Written m l1 va q k) :
    (vmmUserMapPage choose m l1 va pa flags).1.mem q k = m.mem q k := by
  simp only [Written, not_or, not_and, Bool.not_eq_true] at h
  obtain ⟨hused, h1, h2, h3⟩ := h
  have h1 : q ≠ l1 ∨ k ≠ l1Index va := or_iff_not_imp_left.mpr fun hq => h1 (not_not.mp hq)
  unfold vmmUserMapPage
  split
  · rfl
  split
  · rfl
  split
  · rfl
  split
  · rfl
  rename_i hrange halign _
  have hva := inWindow_of_accepted hrange halign
  dsimp only
  split
  · rename_i htable
    have hl2 : l2At m l1 (l1Index va) = some (pteAddr (m.mem l1 (l1Index va))) := by
      simp [l2At, hva.l1Index, tableAt, htable]
    refine mapInL2_frame _ hused h1 (or_iff_not_imp_left.mpr fun hq => h2 ?_) fun hl3 => h3 ?_
    · rw [hl2, not_not.mp hq]
    · simpa [l3At, hl2, l2Index_lt] using hl3
  split
  · rcases alloc_cases choose m with heq | ⟨l2, hfree, heq⟩
    · rw [heq]
    · have hne : q ≠ l2 := by
        rintro rfl
        cases hused.symm.trans hfree
      have hl2 : l2 ≠ l1 := by
        rintro rfl
        cases hl1.symm.trans hfree
      rw [heq]
      refine (mapInL2_frame _ ?_ h1 (.inl hne) ?_).trans
        ((store_mem_of_ne _ _ h1).trans (zero_mem_of_ne _ hne))
      · simp [store, zero, fill, Pmm.take, Pmm.called, hne, hused]
      simp [tableAt, store_mem_of_ne _ _ (.inl hl2), zero, fill, Ne.symm pteTypeTable_ne_invalid]
  · rfl

theorem LeafWrites.owned (hflag : hasFlag flags vmmFlagPmmOwned = true) :
    LeafWrites pool l1 va p flags (p :: hand) hand :=
  fun _ _ h hl3 hempty => h.writeOwned hl3 (l3Index_lt va) hempty hflag

theorem LeafWrites.borrowed (hflag : hasFlag flags vmmFlagPmmOwned = false) :
    LeafWrites pool l1 va pa flags hand hand :=
  fun _ _ h hl3 hempty => h.writeBorrowed hl3 (l3Index_lt va) hempty hflag

end

/-! ## Unmapping -/

structure SameTables (m m' : Machine) (l1 : Word) : Prop where
  l2 : ∀ i, l2At m' l1 i = l2At m l1 i
  l3 : ∀ i j, l3At m' l1 i j = l3At m l1 i j

theorem SameTables.trans (h : SameTables m m' l1) (h' : SameTables m' m'' l1) :
    SameTables m m'' l1 :=
  ⟨fun i => (h'.l2 i).trans (h.l2 i), fun i j => (h'.l3 i j).trans (h.l3 i j)⟩

theorem SameTables.grows (h : SameTables m m' l1) : Grows m m' l1 :=
  ⟨fun i _ hp => (h.l2 i).trans hp, fun i j _ hp => (h.l3 i j).trans hp⟩

def Names (va i j k : Nat) : Prop :=
  InWindow va ∧ l1Index va = i ∧ l2Index va = j ∧ l3Index va = k

instance (va i j k : Nat) : Decidable (Names va i j k) :=
  inferInstanceAs (Decidable (_ ∧ _))

theorem userL3Entry_eq (hl1 : l1 ≠ 0#64) (va : Nat) : userL3Entry m l1 va =
      if InWindow va then
        (l3At m l1 (l1Index va) (l2Index va)).map fun l3 => (l3, l3Index va)
      else none := by
  by_cases hva : InWindow va
  · have hrange : ¬ (va < userVaBase ∨ userVaLimit ≤ va) := by
      have := hva.1
      have := hva.2.1
      omega
    by_cases h1 : pteType (m.mem l1 (l1Index va)) = pteTypeTable
    · by_cases h2 : pteType (m.mem (pteAddr (m.mem l1 (l1Index va))) (l2Index va)) = pteTypeTable
      all_goals
        simp [userL3Entry, hl1, hrange, hva, hva.2.2, h1, h2, l3At, l2At,
          tableAt, hva.l1Index, l2Index_lt]
    · simp [userL3Entry, hl1, hrange, hva, hva.2.2, h1, l3At, l2At, tableAt, hva.l1Index]
  have hnot : va < userVaBase ∨ userVaLimit ≤ va ∨ va % pageSize ≠ 0 := by
    simp only [InWindow] at hva
    omega
  unfold userL3Entry
  simp only [hva, if_false]
  rcases hnot with h | h | h <;> simp [h]

section

variable {pool : Word → Prop}

theorem Tidy.l1_ne_zero (h : Tidy pool m l1 hand) : l1 ≠ 0#64 :=
  (h.isPage_of_held ((h.held l1).mpr (.inl ⟨.l1, rfl⟩))).2

theorem entryAt_of_names (hl3 : l3At m l1 (l1Index va) (l2Index va) = some l3)
    (h : Names va i j k) : entryAt m l1 i j k = m.mem l3 (l3Index va) := by
  obtain ⟨-, rfl, rfl, rfl⟩ := h
  exact leafAt_eq hl3

theorem entryAt_unmapped (h : userL3Entry m l1 va = none) (hl1 : l1 ≠ 0#64)
    (hnames : Names va i j k) : entryAt m l1 i j k = 0#64 := by
  obtain ⟨hva, rfl, rfl, rfl⟩ := hnames
  rw [userL3Entry_eq hl1, if_pos hva, Option.map_eq_none_iff] at h
  exact entryAt_of_none h

theorem userL3Entry_some (h : userL3Entry m l1 va = some (l3, k)) (hl1 : l1 ≠ 0#64) :
    InWindow va ∧ k = l3Index va ∧ l3At m l1 (l1Index va) (l2Index va) = some l3 := by
  rw [userL3Entry_eq hl1] at h
  split at h
  · rename_i hva
    simp only [Option.map_eq_some_iff, Prod.mk.injEq] at h
    obtain ⟨_, hl3, rfl, rfl⟩ := h
    exact ⟨hva, rfl, hl3⟩
  · cases h

theorem invalidatePage_spec (h : Tidy pool m l1 hand) (ok : Bool) (va : Nat) :
    Tidy pool (invalidatePage l1 (m, ok) va).1 l1 hand ∧
      SameTables m (invalidatePage l1 (m, ok) va).1 l1 ∧
      ∀ i j k, entryAt (invalidatePage l1 (m, ok) va).1 l1 i j k =
        if Names va i j k ∧ pteType (entryAt m l1 i j k) = pteTypePage then
          entryAt m l1 i j k &&& ~~~pteTypeMask
        else entryAt m l1 i j k := by
  have hsame : SameTables m m l1 := ⟨fun _ => rfl, fun _ _ => rfl⟩
  unfold invalidatePage
  cases hentry : userL3Entry m l1 va with
  | none =>
    dsimp only
    refine ⟨h, hsame, fun i j k => ?_⟩
    split
    · rename_i hnames
      simp [entryAt_unmapped hentry h.l1_ne_zero hnames.1]
    · rfl
  | some e =>
    obtain ⟨l3, k₀⟩ := e
    obtain ⟨hva, rfl, hl3⟩ := userL3Entry_some hentry h.l1_ne_zero
    by_cases htype : pteType (m.mem l3 (l3Index va)) = pteTypePage
    · obtain ⟨h2, h3, he⟩ := store_l3 h.exclusive hl3 (l3Index_lt va)
        (m.mem l3 (l3Index va) &&& ~~~pteTypeMask)
      have hcond : ∀ i j k, (i = l1Index va ∧ j = l2Index va ∧
          k = l3Index va) ↔ Names va i j k := by
        intro i j k
        simp [Names, hva, eq_comm]
      simp only [htype, ne_eq, not_true_eq_false, if_false]
      have hentries : ∀ i j k, entryAt (m.store l3 (l3Index va)
          (m.mem l3 (l3Index va) &&& ~~~pteTypeMask)) l1 i j k =
          if Names va i j k ∧ pteType (entryAt m l1 i j k) = pteTypePage then
            entryAt m l1 i j k &&& ~~~pteTypeMask
          else entryAt m l1 i j k := by
        intro i j k
        simp only [he, hcond]
        by_cases hnames : Names va i j k
        · simp [hnames, entryAt_of_names hl3 hnames, htype]
        · simp [hnames]
      refine ⟨h.same rfl rfl ?_ fun i j k => ?_, ⟨h2, h3⟩, hentries⟩
      · funext r
        cases r with
        | l1 => rfl
        | l2 a => exact h2 a
        | l3 a b => exact h3 a b
        | leaf a b c =>
          simp only [pageAt, hentries]
          split <;> simp
      rw [hentries]
      split
      · rename_i hnames
        refine .inr (((h.accessed i j k).resolve_left ?_).invalidated)
        intro hzero
        simp [hzero, Ne.symm pteTypePage_ne_invalid] at hnames
      · exact h.accessed i j k
    · simp only [htype, ne_eq, not_false_eq_true, if_true]
      refine ⟨h, hsame, fun i j k => ?_⟩
      split
      · rename_i hnames
        rw [entryAt_of_names hl3 hnames.1] at hnames
        exact absurd hnames.2 htype
      · rfl

theorem reclaimPage_spec (h : Tidy pool m l1 hand) (va : Nat) :
    Tidy pool (reclaimPage l1 m va) l1 hand ∧ SameTables m (reclaimPage l1 m va) l1 ∧
      ∀ i j k, entryAt (reclaimPage l1 m va) l1 i j k =
        if Names va i j k ∧ pteType (entryAt m l1 i j k) = pteTypeInvalid then
          0#64
        else entryAt m l1 i j k := by
  have hsame : SameTables m m l1 := ⟨fun _ => rfl, fun _ _ => rfl⟩
  unfold reclaimPage
  cases hentry : userL3Entry m l1 va with
  | none =>
    dsimp only
    refine ⟨h, hsame, fun i j k => ?_⟩
    split
    · rename_i hnames
      exact entryAt_unmapped hentry h.l1_ne_zero hnames.1
    · rfl
  | some e =>
    obtain ⟨l3, k₀⟩ := e
    obtain ⟨hva, rfl, hl3⟩ := userL3Entry_some hentry h.l1_ne_zero
    have hmem : leafAt m l1 va = m.mem l3 (l3Index va) := leafAt_eq hl3
    dsimp only
    split
    · rename_i hkeep
      refine ⟨h, hsame, fun i j k => ?_⟩
      split
      · rename_i hnames
        rw [entryAt_of_names hl3 hnames.1] at hnames ⊢
        exact hkeep.resolve_right fun hne => hne hnames.2
      · rfl
    rename_i hgo
    simp only [not_or, ne_eq, Decidable.not_not] at hgo
    obtain ⟨h2, h3, he⟩ := store_l3 h.exclusive hl3 (l3Index_lt va) 0#64
    have hentries : ∀ i j k, entryAt (m.store l3 (l3Index va) 0#64) l1 i j k =
          if Names va i j k ∧ pteType (entryAt m l1 i j k) = pteTypeInvalid then 0#64
          else entryAt m l1 i j k := by
      intro i j k
      have hcond : (i = l1Index va ∧ j = l2Index va ∧ k = l3Index va) ↔ Names va i j k := by
        simp [Names, hva, eq_comm]
      simp only [he, hcond]
      by_cases hnames : Names va i j k
      · simp [hnames, entryAt_of_names hl3 hnames, hgo.2]
      · simp [hnames]
    have haccessed : ∀ i j k, entryAt (m.store l3 (l3Index va) 0#64) l1 i j k = 0#64 ∨
          Accessed (entryAt (m.store l3 (l3Index va) 0#64) l1 i j k) := by
      intro i j k
      rw [hentries]
      split
      · exact .inl rfl
      · exact h.accessed i j k
    cases howned : pteOwned (m.mem l3 (l3Index va)) with
    | false =>
      simp only [Bool.false_eq_true, if_false]
      refine ⟨h.same rfl rfl ?_ haccessed, ⟨h2, h3⟩, hentries⟩
      funext r
      cases r with
      | l1 => rfl
      | l2 a => exact h2 a
      | l3 a b => exact h3 a b
      | leaf a b c =>
        simp only [pageAt, he]
        split
        · rename_i habc
          obtain ⟨rfl, rfl, rfl⟩ := habc
          have hleaf := hmem
          rw [leafAt] at hleaf
          simp [hleaf, howned]
        · rfl
    | true =>
      simp only [if_true]
      have hat : At m l1 (.leaf (l1Index va) (l2Index va) (l3Index va))
          (pteAddr (m.mem l3 (l3Index va))) := by
        have hleaf := hmem
        rw [leafAt] at hleaf
        simp [At, pageAt, hleaf, howned]
      have hout : Tidy pool (m.store l3 (l3Index va) 0#64) l1
          (pteAddr (m.mem l3 (l3Index va)) :: hand) := by
        refine h.remove _ rfl hat (at_remove (funext fun r => ?_)) haccessed
        cases r with
        | leaf a b c =>
          by_cases habc : a = l1Index va ∧ b = l2Index va ∧ c = l3Index va <;>
            simp [pageAt, he, habc]
        | _ => simp [pageAt, h2, h3]
      exact ⟨hout.release, ⟨h2, h3⟩, hentries⟩

def Covers (vas : List Nat) (i j k : Nat) : Prop :=
  ∃ va ∈ vas, Names va i j k

instance (vas : List Nat) (i j k : Nat) : Decidable (Covers vas i j k) :=
  inferInstanceAs (Decidable (∃ va ∈ vas, _))

theorem covers_cons : Covers (va :: vas) i j k ↔ Names va i j k ∨ Covers vas i j k := by
  simp [Covers]

theorem invalidate_run (vas : List Nat) (h : Tidy pool m l1 hand) (ok : Bool) :
    Tidy pool (vas.foldl (invalidatePage l1) (m, ok)).1 l1 hand ∧
      SameTables m (vas.foldl (invalidatePage l1) (m, ok)).1 l1 ∧
      ∀ i j k, entryAt (vas.foldl (invalidatePage l1) (m, ok)).1 l1 i j k =
        if Covers vas i j k ∧ pteType (entryAt m l1 i j k) = pteTypePage then
          entryAt m l1 i j k &&& ~~~pteTypeMask
        else entryAt m l1 i j k := by
  induction vas generalizing m ok with
  | nil =>
    exact ⟨h, ⟨fun _ => rfl, fun _ _ => rfl⟩, fun i j k => by
      simp [Covers]⟩
  | cons va vas ih =>
    obtain ⟨h₁, htables, hentry⟩ := invalidatePage_spec h ok va
    rcases hstep : invalidatePage l1 (m, ok) va with ⟨m₁, ok₁⟩
    rw [hstep] at h₁ htables hentry
    simp only [foldl_cons, hstep]
    obtain ⟨h₂, htables', hentry'⟩ := ih h₁ ok₁
    refine ⟨h₂, htables.trans htables', fun i j k => ?_⟩
    rw [hentry', hentry]
    by_cases htype : pteType (entryAt m l1 i j k) = pteTypePage
    · by_cases hnames : Names va i j k
      · simp [covers_cons, hnames, htype, Ne.symm pteTypePage_ne_invalid]
      · simp [covers_cons, hnames, htype]
    · simp [htype]

theorem reclaim_run (vas : List Nat) (h : Tidy pool m l1 hand) :
    Tidy pool (vas.foldl (reclaimPage l1) m) l1 hand ∧
      SameTables m (vas.foldl (reclaimPage l1) m) l1 ∧
      ∀ i j k, entryAt (vas.foldl (reclaimPage l1) m) l1 i j k =
        if Covers vas i j k ∧ pteType (entryAt m l1 i j k) = pteTypeInvalid then
          0#64
        else entryAt m l1 i j k := by
  induction vas generalizing m with
  | nil =>
    exact ⟨h, ⟨fun _ => rfl, fun _ _ => rfl⟩, fun i j k => by
      simp [Covers]⟩
  | cons va vas ih =>
    obtain ⟨h₁, htables, hentry⟩ := reclaimPage_spec h va
    obtain ⟨h₂, htables', hentry'⟩ := ih h₁
    rw [foldl_cons]
    refine ⟨h₂, htables.trans htables', fun i j k => ?_⟩
    rw [hentry', hentry]
    by_cases htype : pteType (entryAt m l1 i j k) = pteTypeInvalid
    · by_cases hnames : Names va i j k <;> simp [covers_cons, hnames, htype]
    · simp [htype]

theorem vmmUserUnmapRange_spec (h : Tidy pool m l1 hand) (hs : Settled m l1) (va pages : Nat) :
    Tidy pool (vmmUserUnmapRange m l1 va pages).1 l1 hand ∧
      SameTables m (vmmUserUnmapRange m l1 va pages).1 l1 ∧
      ∀ i j k, entryAt (vmmUserUnmapRange m l1 va pages).1 l1 i j k =
        if Covers (rangeVas va pages) i j k then 0#64
        else entryAt m l1 i j k := by
  unfold vmmUserUnmapRange
  split
  · rename_i hpages
    exact ⟨h, ⟨fun _ => rfl, fun _ _ => rfl⟩, fun i j k => by
      simp [Covers, rangeVas, hpages]⟩
  obtain ⟨h₁, htables, hentry⟩ := invalidate_run (rangeVas va pages) h true
  obtain ⟨h₂, htables', hentry'⟩ := reclaim_run (rangeVas va pages) h₁
  refine ⟨h₂, htables.trans htables', fun i j k => ?_⟩
  rw [hentry', hentry]
  by_cases hcovers : Covers (rangeVas va pages) i j k
  · rcases hs i j k with hzero | htype
    · simp [hcovers, hzero]
    · simp [hcovers, htype]
  · simp [hcovers]

theorem Settled.unmap (hs : Settled m l1) (h : Tidy pool m l1 hand)
    (va pages : Nat) : Settled (vmmUserUnmapRange m l1 va pages).1 l1 := by
  intro i j k
  rw [(vmmUserUnmapRange_spec h hs va pages).2.2]
  split
  · exact .inl rfl
  · exact hs i j k

end

/-! ## Destroying -/

def l3Places (i j : Nat) : List Place :=
  (List.range entriesPerTable).map (.leaf i j) ++ [.l3 i j]

def l2Places (i : Nat) : List Place :=
  (List.range entriesPerTable).flatMap (l3Places i) ++ [.l2 i]

def places : List Place :=
  (List.range' userL1First (userL1Limit - userL1First)).flatMap l2Places ++ [.l1]

theorem release_mem (ps : List Word) (m : Machine) : (ps.foldl Machine.release m).mem = m.mem := by
  induction ps generalizing m with
  | nil => rfl
  | cons p ps ih => exact ih (m.release p)

theorem foldl_release (mem : Word → Nat → Word) {ks : List Nat} {f : Nat → List Word}
    {step : Machine → Nat → Machine}
    (hstep : ∀ m k, k ∈ ks → m.mem = mem → step m k = (f k).foldl Machine.release m) (m : Machine)
    (hm : m.mem = mem) : ks.foldl step m = (ks.flatMap f).foldl Machine.release m := by
  induction ks generalizing m with
  | nil => rfl
  | cons k ks ih =>
    rw [foldl_cons, flatMap_cons, foldl_append, hstep m k (by simp) hm]
    exact ih (fun m a ha => hstep m a (mem_cons_of_mem k ha)) _ ((release_mem _ m).trans hm)

/-! The pages that the three loops free, innermost first. -/

def leafPages (m : Machine) (l3 : Word) : List Word :=
  (List.range entriesPerTable).flatMap fun k =>
    if pteType (m.mem l3 k) = pteTypePage ∧ pteOwned (m.mem l3 k) = true then
      [pteAddr (m.mem l3 k)]
    else []

def l2Pages (m : Machine) (l2 : Word) : List Word :=
  (List.range entriesPerTable).flatMap fun j =>
    match tableAt m l2 j with
    | some l3 => leafPages m l3 ++ [l3]
    | none => []

def l1Pages (m : Machine) (l1 : Word) : List Word :=
  (List.range' userL1First (userL1Limit - userL1First)).flatMap fun i =>
    match tableAt m l1 i with
    | some l2 => l2Pages m l2 ++ [l2]
    | none => []

theorem destroyL3_eq (hm : m'.mem = m.mem) (l3 : Word) :
    destroyL3 m' l3 = (leafPages m l3 ++ [l3]).foldl Machine.release m' := by
  unfold destroyL3 leafPages
  rw [foldl_release m.mem _ m' hm, foldl_append]
  · rfl
  intro m'' k _ hm''
  rw [hm'']
  dsimp only
  by_cases htype : pteType (m.mem l3 k) = pteTypePage
  · cases howned : pteOwned (m.mem l3 k) <;> simp [htype]
  · simp [htype]

theorem destroyL2_eq (hm : m'.mem = m.mem) (l2 : Word) :
    destroyL2 m' l2 = (l2Pages m l2 ++ [l2]).foldl Machine.release m' := by
  unfold destroyL2 l2Pages
  rw [foldl_release m.mem _ m' hm, foldl_append]
  · rfl
  intro m'' j _ hm''
  rw [hm'']
  by_cases htype : pteType (m.mem l2 j) = pteTypeTable
  · simp [tableAt, htype, destroyL3_eq hm'']
  · simp [tableAt, htype]

theorem vmmDestroyUserL1_eq (hl1 : l1 ≠ 0#64) :
    vmmDestroyUserL1 m l1 = (l1Pages m l1 ++ [l1]).foldl Machine.release m := by
  unfold vmmDestroyUserL1 l1Pages
  rw [if_neg hl1, foldl_release m.mem _ m rfl, foldl_append]
  · rfl
  intro m' i _ hm'
  rw [hm']
  by_cases htype : pteType (m.mem l1 i) = pteTypeTable
  · simp [tableAt, htype, destroyL2_eq hm']
  · simp [tableAt, htype]

theorem leafPages_eq (hs : Settled m l1) (hl3 : l3At m l1 i j = some l3) :
    leafPages m l3 = (List.range entriesPerTable).flatMap fun k =>
      (pageAt m l1 (.leaf i j k)).toList := by
  apply flatMap_congr
  intro k hk
  have hentry : entryAt m l1 i j k = m.mem l3 k := by
    simp [entryAt, hl3, mem_range.mp hk]
  rcases hs i j k with hzero | htype
  · rw [hentry] at hzero
    simp [pageAt, hentry, hzero]
  rw [hentry] at htype
  cases howned : pteOwned (m.mem l3 k) <;>
    simp [pageAt, hentry, htype, howned]

theorem l2Pages_eq (hs : Settled m l1) (hl2 : l2At m l1 i = some l2) :
    l2Pages m l2 = (List.range entriesPerTable).flatMap fun j =>
      ((List.range entriesPerTable).flatMap fun k =>
        (pageAt m l1 (.leaf i j k)).toList) ++
      (pageAt m l1 (.l3 i j)).toList := by
  apply flatMap_congr
  intro j hj
  have hl3 : l3At m l1 i j = tableAt m l2 j := by
    simp [l3At, hl2, mem_range.mp hj]
  cases htable : tableAt m l2 j with
  | none => simp [pageAt, hl3, htable, entryAt]
  | some l3 =>
    rw [htable] at hl3
    have hlast : pageAt m l1 (.l3 i j) = some l3 := hl3
    simp [leafPages_eq hs hl3, hlast]

theorem l1Pages_eq (hs : Settled m l1) : l1Pages m l1 ++ [l1] = places.filterMap (pageAt m l1) := by
  rw [filterMap_eq_flatMap_toList, places, flatMap_append, flatMap_assoc]
  refine congrArg₂ (· ++ ·) (flatMap_congr ?_) (by simp [pageAt])
  intro i hi
  have hi : userL1First ≤ i ∧ i < userL1Limit := by
    simp [userL1First, userL1Limit] at hi ⊢
    omega
  have hl2 : l2At m l1 i = tableAt m l1 i := by simp [l2At, hi]
  cases htable : tableAt m l1 i with
  | none =>
    rw [htable] at hl2
    have hl2' : pageAt m l1 (.l2 i) = none := hl2
    have hl3 : ∀ j, pageAt m l1 (.l3 i j) = none := fun j =>
      l3At_of_none hl2
    have hleaf : ∀ j k, pageAt m l1 (.leaf i j k) = none := by
      intro j k
      simp [pageAt, entryAt_of_none (l3At_of_none hl2)]
    simp [l2Places, l3Places, flatMap_append, flatMap_assoc, flatMap_map, hl2', hl3, hleaf]
  | some l2 =>
    rw [htable] at hl2
    have hlast : pageAt m l1 (.l2 i) = some l2 := hl2
    simp [l2Pages_eq hs hl2, hlast, l2Places, l3Places, flatMap_append, flatMap_assoc, flatMap_map]

theorem flatMap_nodup {ks : List Nat} {f : Nat → List Place} (hks : ks.Nodup)
    (hf : ∀ k, (f k).Nodup) (hdisjoint : ∀ a b, a ≠ b → ∀ r ∈ f a, r ∉ f b) :
    (ks.flatMap f).Nodup :=
  nodup_flatMap.mpr ⟨fun k _ => hf k, hks.imp fun hab r ha hb => hdisjoint _ _ hab r ha hb⟩

theorem mem_l3Places : r ∈ l3Places i j ↔
      (∃ k, k < entriesPerTable ∧ r = .leaf i j k) ∨ r = .l3 i j := by
  simp [l3Places, eq_comm]

theorem mem_l2Places : r ∈ l2Places i ↔
      (∃ j, j < entriesPerTable ∧ r ∈ l3Places i j) ∨ r = .l2 i := by
  simp [l2Places]

theorem l3Places_nodup (i j : Nat) : (l3Places i j).Nodup := by
  apply List.Nodup.append
  · exact nodup_range.map fun a b hab => by simpa using hab
  · simp
  · simp

theorem l2Places_nodup (i : Nat) : (l2Places i).Nodup := by
  apply List.Nodup.append
  · apply flatMap_nodup nodup_range (l3Places_nodup i)
    intro a b hab r ha hb
    simp only [mem_l3Places] at ha hb
    rcases ha with ⟨c, -, rfl⟩ | rfl <;> simp [hab] at hb
  · simp
  · simp [l3Places]

theorem places_nodup : places.Nodup := by
  apply List.Nodup.append
  · apply flatMap_nodup nodup_range' l2Places_nodup
    intro a b hab r ha hb
    simp only [mem_l2Places, mem_l3Places] at ha hb
    rcases ha with ⟨j, -, ⟨c, -, rfl⟩ | rfl⟩ | rfl <;> simp [hab] at hb
  · simp
  · simp [mem_l2Places, mem_l3Places]

theorem mem_places (hi : userL1First ≤ i ∧ i < userL1Limit) (hr : r ∈ l2Places i) : r ∈ places := by
  have hrange : i ∈ List.range' userL1First (userL1Limit - userL1First) := by
    simp only [mem_range'_1]
    omega
  exact mem_append_left _ (mem_flatMap.mpr ⟨i, hrange, hr⟩)

theorem l3At_lt (h : l3At m l1 i j = some q) :
    j < entriesPerTable ∧ ∃ l2, l2At m l1 i = some l2 := by
  unfold l3At at h
  split at h
  · rename_i hj
    simp only [Option.bind_eq_some_iff] at h
    exact ⟨hj, h.imp fun _ hl2 => hl2.1⟩
  · cases h

theorem l2At_lt (h : l2At m l1 i = some q) : userL1First ≤ i ∧ i < userL1Limit := by
  unfold l2At at h
  split at h
  · assumption
  · cases h

theorem At.mem_places (h : At m l1 r p) : r ∈ places := by
  cases r with
  | l1 => simp [places]
  | l2 i => exact Vmm.mem_places (l2At_lt h) (by simp [mem_l2Places])
  | l3 i j =>
    obtain ⟨hj, l2, hl2⟩ := l3At_lt h
    exact Vmm.mem_places (l2At_lt hl2) (by simp [mem_l2Places, mem_l3Places, hj])
  | leaf i j k =>
    have hentry : entryAt m l1 i j k ≠ 0#64 := by
      intro hzero
      simp [At, pageAt, hzero] at h
    have hk : k < entriesPerTable := by
      by_contra hk
      apply hentry
      unfold entryAt
      split <;> simp [hk]
    cases hl3 : l3At m l1 i j with
    | none => exact absurd (entryAt_of_none hl3) hentry
    | some l3 =>
      obtain ⟨hj, l2, hl2⟩ := l3At_lt hl3
      exact Vmm.mem_places (l2At_lt hl2) (by simp [mem_l2Places, mem_l3Places, hj, hk])

theorem release_log (m : Machine) (p : Word) : (m.release p).pmm.log = .give p :: m.pmm.log := by
  simp [release, Pmm.pmmFreePages, blockPages_one, Pmm.give]

theorem release_free (m : Machine) (p q : Word) :
    (m.release p).pmm.free q = true ↔ q = p ∨ m.pmm.free q = true := by
  by_cases hq : q = p <;> simp [release, Pmm.pmmFreePages, blockPages_one, Pmm.give, hq]

theorem release_run (ps : List Word) (m : Machine) (hbalanced : InBalance m.pmm.log)
    (hnodup : ps.Nodup) (hheld : ∀ p ∈ ps, isHeld m.pmm.log p = true) :
    InBalance (ps.foldl Machine.release m).pmm.log ∧
      (∀ p, isHeld (ps.foldl Machine.release m).pmm.log p = true ↔
        isHeld m.pmm.log p = true ∧ p ∉ ps) ∧
      ∀ p, (ps.foldl Machine.release m).pmm.free p = true ↔ p ∈ ps ∨ m.pmm.free p = true := by
  induction ps generalizing m with
  | nil => simp [hbalanced]
  | cons p ps ih =>
    obtain ⟨hp, hnodup⟩ := nodup_cons.mp hnodup
    obtain ⟨h₁, h₂, h₃⟩ := ih (m.release p)
      (by simpa [release_log, hheld p (by simp)] using hbalanced) hnodup
      (by
        intro q hq
        rw [release_log, isHeld_give]
        refine ⟨?_, hheld q (mem_cons_of_mem p hq)⟩
        rintro rfl
        exact hp hq)
    refine ⟨h₁, fun q => ?_, fun q => ?_⟩
    · rw [foldl_cons, h₂, release_log, isHeld_give]
      simp only [mem_cons, not_or]
      tauto
    rw [foldl_cons, h₃, release_free]
    simp only [mem_cons]
    tauto

theorem vmmDestroyUserL1_spec {pool : Word → Prop} (h : Tidy pool m l1 []) (hs : Settled m l1) :
    InBalance (vmmDestroyUserL1 m l1).pmm.log ∧
      (∀ p, isHeld (vmmDestroyUserL1 m l1).pmm.log p = false) ∧
      ∀ p, (vmmDestroyUserL1 m l1).pmm.free p = true ↔ pool p := by
  have hmem : ∀ p, p ∈ places.filterMap (pageAt m l1) ↔ isHeld m.pmm.log p = true := by
    intro p
    simp only [mem_filterMap, h.held, not_mem_nil, or_false]
    constructor
    · rintro ⟨r, -, hr⟩
      exact ⟨r, hr⟩
    rintro ⟨r, hr⟩
    exact ⟨r, At.mem_places hr, hr⟩
  have hnodup : (places.filterMap (pageAt m l1)).Nodup :=
    places_nodup.filterMap fun r r' p hr hr' => h.exclusive r r' p hr hr'
  rw [vmmDestroyUserL1_eq h.l1_ne_zero, l1Pages_eq hs]
  generalize places.filterMap (pageAt m l1) = ps at hmem hnodup ⊢
  obtain ⟨hbalanced, hheld, hfree⟩ := release_run ps m h.balanced hnodup fun p hp => (hmem p).mp hp
  refine ⟨hbalanced, fun p => ?_, fun p => ?_⟩
  · by_contra hp
    have hp := (hheld p).mp (by simpa using hp)
    exact hp.2 ((hmem p).mpr hp.1)
  rw [hfree, hmem, h.shared]
  tauto

end SlmOs.Vmm
