import SlmOs.Vmm.UserTask

/-!
# Taking back a task that cannot be created

Everything that the creation of a user task maps lies in the first megabyte of the
user window, below one L2 and one L3 table.  So it is decided by the allocator's
answers to a known number of requests how far a creation gets.
-/

namespace SlmOs.Vmm

open Foundation List Machine

/-! ## Requests that are granted -/

def grant (choose : Nat → Option Word) : Nat → Pmm → Option Pmm
  | 0, pmm => some pmm
  | n + 1, pmm =>
    match pmm.pmmAllocPages choose 1 with
    | (pmm, some _) => grant choose n pmm
    | (_, none) => none

section

variable {choose : Nat → Option Word} {m m' : Machine} {p : Word}

theorem grant_alloc {q : Option Word} (h : m.alloc choose = (m', q)) (n : Nat) :
    grant choose (n + 1) m.pmm = q.bind fun _ => grant choose n m'.pmm := by
  simp only [Machine.alloc, Prod.mk.injEq] at h
  obtain ⟨rfl, hq⟩ := h
  rcases hr : m.pmm.pmmAllocPages choose 1 with ⟨pmm, r⟩
  cases r with
  | _ => simp [← hq, grant, hr]

theorem grant_add (a b : Nat) (pmm : Pmm) :
    grant choose (a + b) pmm = (grant choose a pmm).bind (grant choose b) := by
  induction a generalizing pmm with
  | zero => simp [grant]
  | succ a ih =>
    rw [Nat.succ_add]
    rcases hr : pmm.pmmAllocPages choose 1 with ⟨pmm', _ | p⟩
    · simp [grant, hr]
    · simp [grant, hr, ih]

end

/-! ## The first megabyte -/

def Low (va : Nat) : Prop :=
  userTextVa ≤ va ∧ va < userMmapVaStart ∧ va % pageSize = 0

theorem low_bounds : userTextVa = 274877906944 ∧
    userMmapVaStart = 274878955520 ∧ userElfStackPageVa = 274878951424 := by
  decide

theorem Low.window {va : Nat} (h : Low va) : InWindow va := by
  obtain ⟨htext, hend, halign⟩ := h
  refine ⟨htext, ?_, halign⟩
  rw [low_bounds.2.1] at hend
  simp only [userVaLimit, userL1Limit, l1BlockSize]
  omega

theorem Low.index {va : Nat} (h : Low va) : l1Index va = 256 ∧ l2Index va = 0 := by
  obtain ⟨htext, hend, -⟩ := h
  rw [low_bounds.1] at htext
  rw [low_bounds.2.1] at hend
  rw [l1Index_eq, l2Index_eq]
  omega

def LowTables (m : Machine) (l1 : Word) : Prop :=
  (l3At m l1 256 0).isSome ∨ m.mem l1 256 = 0#64

def missing (m : Machine) (l1 : Word) : Nat :=
  if (l3At m l1 256 0).isSome then 0 else 2

section

variable (choose : Nat → Option Word) {pool : Word → Prop} {m : Machine}
  {l1 pa : Word} {va : Nat} (flags : Flags) {hand hand' : List Word}

theorem SameTree.missing {m' : Machine} (h : SameTree m m' l1) : missing m' l1 = missing m l1 := by
  simp [Vmm.missing, h.l3]

theorem leafAt_low (hva : Low va) : leafAt m l1 va = entryAt m l1 256 0 (l3Index va) := by
  simp [leafAt, hva.index]

theorem Low.accepted (hva : Low va) :
    ¬ (va < userVaBase ∨ va ≥ userVaLimit) ∧ ¬ va % pageSize ≠ 0 := by
  have hlow := hva.window.1
  have hhigh := hva.window.2.1
  have halign : va % pageSize = 0 := hva.2.2
  exact ⟨by omega, by omega⟩

theorem vmmUserMapPage_low (hl1 : l1 ≠ 0#64) (hva : Low va) (hpa : pa &&& 0xFFF = 0) :
    vmmUserMapPage choose m l1 va pa flags =
      if pteType (m.mem l1 256) = pteTypeTable then
        mapInL2 choose m l1 va pa flags none (pteAddr (m.mem l1 256))
      else if pteType (m.mem l1 256) = pteTypeInvalid then
        match m.alloc choose with
        | (m, none) => (m, false)
        | (m, some l2) =>
          mapInL2 choose ((m.zero l2).store l1 256 (makeTableDesc l2)) l1 va pa flags (some l2) l2
      else (m, false) := by
  unfold vmmUserMapPage
  rw [if_neg hl1, if_neg hva.accepted.1, if_neg hva.accepted.2, if_neg (not_not.mpr hpa)]
  simp only [hva.index.1]
  all_goals rfl

section

variable (h : Tidy pool m l1 hand)
include h

theorem map_with_tables {l3 : Word} (hs : Settled m l1) (hva : Low va) (hpa : pa &&& 0xFFF = 0)
    (hl3 : l3At m l1 256 0 = some l3) :
    ((vmmUserMapPage choose m l1 va pa flags).2 = true ↔ leafAt m l1 va = 0#64) ∧
    (vmmUserMapPage choose m l1 va pa flags).1.pmm = m.pmm := by
  have hfound : pteType (m.mem l1 256) = pteTypeTable ∧
      pteType (m.mem (pteAddr (m.mem l1 256)) 0) = pteTypeTable ∧
      pteAddr (m.mem (pteAddr (m.mem l1 256)) 0) = l3 := by
    simpa [l3At, l2At, tableAt, entriesPerTable, userL1First, userL1Limit,
      Option.bind_eq_some_iff] using hl3
  obtain ⟨hl1, hl2, haddr⟩ := hfound
  have hleaf : leafAt m l1 va = m.mem l3 (l3Index va) :=
    leafAt_eq (by rw [hva.index.1, hva.index.2, hl3])
  rw [vmmUserMapPage_low choose flags h.l1_ne_zero hva hpa, if_pos hl1]
  simp only [mapInL2, hva.index.2, hl2, if_true, haddr, mapInL3, ← hleaf]
  rcases hs 256 0 (l3Index va) with hzero | htype
  · rw [← leafAt_low hva] at hzero
    simp [hzero, store]
  rw [← leafAt_low hva] at htype
  have hne : leafAt m l1 va ≠ 0#64 := by
    intro hzero
    rw [hzero] at htype
    exact pteTypePage_ne_invalid htype.symm
  simp [htype, pteTypePage_ne_invalid, hne, mapRollback]

theorem map_without_tables (hva : Low va) (hpa : pa &&& 0xFFF = 0) (hzero : m.mem l1 256 = 0#64) :
    ((vmmUserMapPage choose m l1 va pa flags).2 = true → grant choose 2 m.pmm =
        some (vmmUserMapPage choose m l1 va pa flags).1.pmm) ∧
    ((vmmUserMapPage choose m l1 va pa flags).2 = false → grant choose 2 m.pmm = none) := by
  simp only [vmmUserMapPage_low choose flags h.l1_ne_zero hva hpa, hzero, pteType_zero,
    Ne.symm pteTypeTable_ne_invalid, if_false, if_true]
  rcases alloc_cases choose m with heq | ⟨l2, hfree, heq⟩
  · simp [heq, grant_alloc heq]
  have hne : l2 ≠ l1 := by
    rintro rfl
    have htaken := h.taken l2 ((h.held l2).mpr (.inl ⟨.l1, rfl⟩))
    simp [hfree] at htaken
  rw [grant_alloc heq, heq]
  dsimp only [Option.bind]
  generalize hm₁ : store _ l1 256 (makeTableDesc l2) = m₁
  have hmem : m₁.mem l2 0 = 0#64 := by
    rw [← hm₁, store_mem_of_ne _ _ (.inl hne)]
    simp [Machine.zero, Machine.fill]
  have hpmm : m₁.pmm = m.pmm.called.take l2 := by
    rw [← hm₁]
    rfl
  simp only [mapInL2, hva.index.2, hmem, pteType_zero,
    Ne.symm pteTypeTable_ne_invalid, if_false, if_true]
  rw [← hpmm]
  rcases alloc_cases choose m₁ with heq | ⟨l3, hfree', heq⟩
  · simp [heq, grant_alloc heq]
  have hne : l3 ≠ l2 := by
    rintro rfl
    rw [hpmm] at hfree'
    simp [Pmm.take] at hfree'
  have hmem : ((Machine.zero { m₁ with pmm := m₁.pmm.called.take l3 } l3).store
      l2 0 (makeTableDesc l3)).mem l3 (l3Index va) = 0#64 := by
    rw [store_mem_of_ne _ _ (.inl hne)]
    simp [Machine.zero, Machine.fill]
  rw [grant_alloc heq, heq]
  dsimp only [Option.bind]
  rw [mapInL3, hmem]
  simp [grant, Machine.store, Machine.zero, Machine.fill]

theorem vmmUserMapPage_exact (hs : Settled m l1)
    (htables : LowTables m l1) (hva : Low va) (hpa : pa &&& 0xFFF = 0) :
    ((vmmUserMapPage choose m l1 va pa flags).2 = true →
      leafAt m l1 va = 0#64 ∧ grant choose (missing m l1) m.pmm =
        some (vmmUserMapPage choose m l1 va pa flags).1.pmm) ∧
    (leafAt m l1 va = 0#64 → (grant choose (missing m l1) m.pmm).isSome →
      (vmmUserMapPage choose m l1 va pa flags).2 = true) := by
  cases hl3 : l3At m l1 256 0 with
  | some l3 =>
    obtain ⟨hok, hpmm⟩ := map_with_tables choose flags h hs hva hpa hl3
    simp [missing, hl3, grant, hok, hpmm]
  | none =>
    have hzero : m.mem l1 256 = 0#64 := by simpa [LowTables, hl3] using htables
    have hempty : leafAt m l1 va = 0#64 := by
      rw [leafAt_low hva, entryAt_of_none hl3]
    obtain ⟨hok, hfail⟩ := map_without_tables choose flags h hva hpa hzero
    have hmissing : missing m l1 = 2 := by simp [missing, hl3]
    simp only [hmissing, hempty, true_and, true_implies]
    refine ⟨hok, fun hgrant => ?_⟩
    by_contra hnot
    rw [hfail (by simpa using hnot)] at hgrant
    simp at hgrant

end

theorem Mapped.tables {flags : Flags} {m' : Machine} (h : Mapped m m' l1 va (makePageDesc pa flags))
    (hva : Low va) : missing m' l1 = 0 ∧ LowTables m' l1 := by
  have hsome : (l3At m' l1 256 0).isSome := by
    by_contra hnot
    have hleaf := h.entry 256 0 (l3Index va)
    rw [entryAt_of_none (by simpa using hnot)] at hleaf
    simp only [hva.index, and_self, if_true] at hleaf
    exact (accessed_makePageDesc pa flags).ne_zero hleaf.symm
  exact ⟨by simp [missing, hsome], .inl hsome⟩

theorem Mapped.leafAt {m' : Machine} {va' : Nat} {v : Word} (h : Mapped m m' l1 va v)
    (hva' : InWindow va') : Vmm.leafAt m' l1 va' = if va' = va then v else Vmm.leafAt m l1 va' := by
  rw [Vmm.leafAt, h.entry]
  by_cases heq : va' = va
  · simp [heq]
  rw [if_neg heq, if_neg]
  · rfl
  rintro ⟨h1, h2, h3⟩
  exact heq (hva'.ext h.window h1 h2 h3)

/-! ## A list of new pages -/

def cost (m : Machine) (l1 : Word) (vas : List Nat) : Nat :=
  if vas = [] then 0 else vas.length + missing m l1

/--
New pages can be mapped at these addresses one after the other, and the allocator
is left as given.
-/
structure CanMap (choose : Nat → Option Word) (m : Machine) (l1 : Word)
    (vas : List Nat) (pmm : Pmm) : Prop where
  nodup : vas.Nodup
  empty : ∀ va ∈ vas, leafAt m l1 va = 0#64
  granted : grant choose (cost m l1 vas) m.pmm = some pmm

theorem Mapped.cost {flags : Flags} {m' : Machine} (h : Mapped m m' l1 va (makePageDesc pa flags))
    (hva : Low va) (vas : List Nat) : cost m' l1 vas = vas.length := by
  cases vas with
  | nil => rfl
  | cons a vas => simp [Vmm.cost, (h.tables hva).1]

variable {pmm : Pmm}

theorem canMap_nil : CanMap choose m l1 [] pmm ↔ m.pmm = pmm := by
  constructor
  · intro h
    simpa [cost, grant] using h.granted
  rintro rfl
  exact ⟨by simp, by simp, by simp [cost, grant]⟩

theorem IsPage.aligned {p : Word} (h : IsPage p) : p &&& 0xFFF = 0 := by
  have hmask : pteAddrMask &&& 0xFFF = 0#64 := rfl
  rw [← h.1, BitVec.and_assoc, hmask]
  exact BitVec.and_zero

theorem map_then {vas : List Nat} (pmm : Pmm) (h : Tidy pool m l1 hand) (hs : Settled m l1)
    (htables : LowTables m l1) (hwrite : LeafWrites pool l1 va pa flags hand hand')
    (hpa : pa &&& 0xFFF = 0) (hva : Low va) (hvas : ∀ a ∈ vas, Low a) :
    ((va :: vas).Nodup ∧ (∀ a ∈ va :: vas, leafAt m l1 a = 0#64) ∧
      grant choose (missing m l1 + vas.length) m.pmm = some pmm) ↔
      ∃ m', vmmUserMapPage choose m l1 va pa flags = (m', true) ∧ CanMap choose m' l1 vas pmm := by
  obtain ⟨hok, hcomplete⟩ := vmmUserMapPage_exact choose flags h hs htables hva hpa
  have houtcome : MapOutcome pool m l1 va (makePageDesc pa flags) hand hand'
      (vmmUserMapPage choose m l1 va pa flags) :=
    vmmUserMapPage_outcome h hs hwrite
  rcases hr : vmmUserMapPage choose m l1 va pa flags with ⟨m', ok⟩
  rw [hr] at hok hcomplete houtcome
  rw [grant_add]
  constructor
  · rintro ⟨hnodup, hempty, hgrant⟩
    obtain ⟨pmm₁, hgrant₁, hgrant₂⟩ := Option.bind_eq_some_iff.mp hgrant
    obtain rfl : ok = true := hcomplete (hempty va (by simp)) (by simp [hgrant₁])
    obtain ⟨-, -, hmapped⟩ := houtcome.resolve_right (by simp)
    have hpmm := (hok rfl).2
    rw [hgrant₁, Option.some.injEq] at hpmm
    obtain ⟨hva', hnodup⟩ := nodup_cons.mp hnodup
    refine ⟨m', rfl, hnodup, fun a ha => ?_, ?_⟩
    · have hne : a ≠ va := by
        rintro rfl
        exact hva' ha
      rw [hmapped.leafAt (hvas a ha).window, if_neg hne]
      exact hempty a (by simp [ha])
    · rw [hmapped.cost hva, ← hpmm, hgrant₂]
  rintro ⟨m₂, hm₂, hmap⟩
  cases hm₂
  obtain ⟨-, -, hmapped⟩ := houtcome.resolve_right (by simp)
  obtain ⟨hempty, hpmm⟩ := hok rfl
  have hleaf : ∀ a ∈ vas, a ≠ va ∧ leafAt m l1 a = 0#64 := by
    intro a ha
    have hzero := hmap.empty a ha
    rw [hmapped.leafAt (hvas a ha).window] at hzero
    by_cases hne : a = va
    · rw [if_pos hne] at hzero
      exact absurd hzero (accessed_makePageDesc pa flags).ne_zero
    · exact ⟨hne, by rwa [if_neg hne] at hzero⟩
  have hgrant := hmap.granted
  rw [hmapped.cost hva] at hgrant
  refine ⟨nodup_cons.mpr ⟨fun ha => (hleaf va ha).1 rfl, hmap.nodup⟩,
    fun a ha => ?_, by rw [hpmm, Option.bind_some, hgrant]⟩
  rcases mem_cons.mp ha with rfl | ha
  · exact hempty
  · exact (hleaf a ha).2

structure Ready (pool : Word → Prop) (m : Machine) (l1 : Word) : Prop where
  tidy : Tidy pool m l1 []
  settled : Settled m l1
  tables : LowTables m l1

theorem canMap_cons {vas : List Nat} (h : Ready pool m l1) (hva : Low va) (hvas : ∀ a ∈ vas, Low a)
    (hflag : hasFlag flags vmmFlagPmmOwned = true) (data : Nat → Word) :
    CanMap choose m l1 (va :: vas) pmm ↔ ∃ m₁ page, m.alloc choose = (m₁, some page) ∧
        ∃ m₂, vmmUserMapPage choose (m₁.fill page data) l1 va page flags =
          (m₂, true) ∧ CanMap choose m₂ l1 vas pmm := by
  have hcost : cost m l1 (va :: vas) = missing m l1 + vas.length + 1 := by
    simp only [cost, reduceCtorEq, if_false, length_cons]
    omega
  rcases alloc_cases choose m with heq | ⟨page, hfree, heq⟩
  · refine ⟨fun hmap => ?_, by simp [heq]⟩
    have hgrant := hmap.granted
    rw [hcost, grant_alloc heq] at hgrant
    cases hgrant
  have htake := h.tidy.take hfree
  obtain ⟨hfill, hsame⟩ := htake.fill data
  have hsame := (SameTree.pmm m (m.pmm.called.take page) l1).trans hsame
  have hpage : IsPage page := htake.isPage_of_held ((htake.held page).mpr (by simp))
  have hlow : LowTables (Machine.fill { m with pmm := m.pmm.called.take page } page data) l1 := by
    rcases h.tables with hsome | hzero
    · exact .inl (by rwa [hsame.l3])
    refine .inr ((congrFun (fill_mem_of_ne _ _ ?_) 256).trans hzero)
    rintro rfl
    exact htake.in_hand .l1 rfl
  have hmap := map_then choose flags pmm hfill
    (h.settled.congr hsame.entry) hlow (.owned hflag) hpage.aligned hva hvas
  have hleaf : ∀ a, leafAt (Machine.fill { m with pmm := m.pmm.called.take page } page data) l1 a =
        leafAt m l1 a := fun a => hsame.entry _ _ _
  have hgrant := grant_alloc heq (missing m l1 + vas.length)
  simp only [hleaf, hsame.missing] at hmap
  constructor
  · intro hcan
    refine ⟨_, page, heq, hmap.mp ⟨hcan.nodup, hcan.empty, ?_⟩⟩
    rw [← hcan.granted, hcost, hgrant]
    rfl
  rintro ⟨m₁, q, hm₁, hrest⟩
  rw [heq] at hm₁
  cases hm₁
  obtain ⟨hnodup, hempty, hgranted⟩ := hmap.mpr hrest
  refine ⟨hnodup, hempty, ?_⟩
  rw [hcost, hgrant, ← hgranted]
  rfl

theorem Ready.mapNewPage {choose : Nat → Option Word} {flags : Flags} {m' : Machine}
    {data : Nat → Word} (h : Ready pool m l1) (hva : Low va)
    (hflag : hasFlag flags vmmFlagPmmOwned = true)
    (heq : mapNewPage choose m l1 va data flags = (m', true)) : Ready pool m' l1 := by
  rcases mapNewPage_spec choose h.tidy h.settled hflag va data with
    ⟨m₁, p, heq', htidy, hmapped⟩ | ⟨m₁, heq', -⟩
  · rw [heq] at heq'
    cases heq'
    exact ⟨htidy, hmapped.settled h.settled, (hmapped.tables hva).2⟩
  rw [heq] at heq'
  cases heq'

theorem mapNewPage_iff {vas : List Nat} (h : Ready pool m l1) (hva : Low va)
    (hvas : ∀ a ∈ vas, Low a) (hflag : hasFlag flags vmmFlagPmmOwned = true) (data : Nat → Word) :
    CanMap choose m l1 (va :: vas) pmm ↔ ∃ m', mapNewPage choose m l1 va data flags = (m', true) ∧
        CanMap choose m' l1 vas pmm := by
  rw [canMap_cons choose flags h hva hvas hflag data]
  unfold mapNewPage
  rcases m.alloc choose with ⟨m₁, _ | page⟩
  · simp
  rcases hmap : vmmUserMapPage choose (m₁.fill page data) l1 va page flags
    with ⟨m₂, _ | _⟩ <;> simp [hmap]

end

/-! ## The loader for ELF images -/

theorem pfToVmmFlags_owned (pFlags : Nat) :
    hasFlag (pfToVmmFlags pFlags) vmmFlagPmmOwned = true := by
  unfold hasFlag pfToVmmFlags
  split_ifs <;> decide

def segmentVas (ph : Elf64Phdr) : List Nat :=
  if ph.pMemsz = 0 then []
  else (range (segmentPages ph)).map fun i => ph.pVaddr + i * pageSize

def imageVas (blob : Blob) : List Nat := (loadable blob).flatMap segmentVas

section

variable (choose : Nat → Option Word) {pool : Word → Prop} {m : Machine} {l1 : Word} {blob : Blob}

section

variable (h : Tidy pool m l1 [])
include h

theorem loadPages_keeps (hs : Settled m l1) (blob : Blob) (ph : Elf64Phdr) (is : List Nat) :
    Tidy pool (loadPages choose l1 blob ph is m).1 l1 [] ∧
      Settled (loadPages choose l1 blob ph is m).1 l1 := by
  induction is generalizing m with
  | nil => exact ⟨h, hs⟩
  | cons i is ih =>
    unfold loadPages
    rcases mapNewPage_spec choose h hs (pfToVmmFlags_owned ph.pFlags)
      (ph.pVaddr + i * pageSize) (segmentData blob ph (i * pageSize)) with
      ⟨m', p, heq, htidy, hmapped⟩ | ⟨m', heq, htidy, hsame⟩
    · rw [heq]
      exact ih htidy (hmapped.settled hs)
    rw [heq]
    exact ⟨htidy, hs.congr hsame.entry⟩

theorem loadSegments_keeps (hs : Settled m l1) (blob : Blob) (phs : List Elf64Phdr) :
    Tidy pool (loadSegments choose l1 blob phs m).1 l1 [] ∧
      Settled (loadSegments choose l1 blob phs m).1 l1 := by
  induction phs generalizing m with
  | nil => exact ⟨h, hs⟩
  | cons ph phs ih =>
    have hsegment : Tidy pool (loadSegment choose m l1 blob ph).1 l1 [] ∧
        Settled (loadSegment choose m l1 blob ph).1 l1 := by
      unfold loadSegment
      split
      · exact ⟨h, hs⟩
      split
      · exact ⟨h, hs⟩
      · exact loadPages_keeps choose h hs blob ph _
    unfold loadSegments
    rcases hr : loadSegment choose m l1 blob ph with ⟨m', _ | e⟩
    · rw [hr] at hsegment
      exact ih hsegment.1 hsegment.2
    rw [hr] at hsegment
    exact hsegment

theorem elfLoadUser_keeps (hs : Settled m l1) (blob : Blob) :
    Tidy pool (elfLoadUser choose blob m l1).1 l1 [] ∧
      Settled (elfLoadUser choose blob m l1).1 l1 := by
  have hloop := loadSegments_keeps choose h hs blob (loadable blob)
  unfold elfLoadUser
  split
  · exact ⟨h, hs⟩
  split
  · exact ⟨h, hs⟩
  rcases hr : loadSegments choose l1 blob (loadable blob) m with ⟨m', _ | e⟩
  · rw [hr] at hloop
    dsimp only
    split <;> exact hloop
  rw [hr] at hloop
  exact hloop

end

variable {ph : Elf64Phdr}

theorem loadPages_ready {m' : Machine} (h : Ready pool m l1) {is : List Nat}
    (his : ∀ i ∈ is, Low (ph.pVaddr + i * pageSize))
    (heq : loadPages choose l1 blob ph is m = (m', none)) : Ready pool m' l1 := by
  induction is generalizing m with
  | nil =>
    cases heq
    exact h
  | cons i is ih =>
    unfold loadPages at heq
    split at heq
    · rename_i hmap
      exact ih (h.mapNewPage (his i (by simp)) (pfToVmmFlags_owned _) hmap)
        (fun i hi => his i (by simp [hi])) heq
    · cases heq

variable {vas : List Nat} {pmm : Pmm}

theorem loadPages_iff (h : Ready pool m l1) (blob : Blob) (ph : Elf64Phdr) (is : List Nat)
    (his : ∀ i ∈ is, Low (ph.pVaddr + i * pageSize)) (hvas : ∀ a ∈ vas, Low a) :
    CanMap choose m l1 ((is.map fun i => ph.pVaddr + i * pageSize) ++ vas) pmm ↔
      ∃ m', loadPages choose l1 blob ph is m = (m', none) ∧ CanMap choose m' l1 vas pmm := by
  induction is generalizing m with
  | nil => simp [loadPages]
  | cons i is ih =>
    have hva := his i (by simp)
    have htail : ∀ i ∈ is, Low (ph.pVaddr + i * pageSize) := fun i hi =>
      his i (by simp [hi])
    have hrest : ∀ a ∈ (is.map fun i => ph.pVaddr + i * pageSize) ++ vas, Low a := by
      simp only [mem_append, mem_map]
      rintro a (⟨i, hi, rfl⟩ | ha)
      · exact htail i hi
      · exact hvas a ha
    have hflag := pfToVmmFlags_owned ph.pFlags
    rw [List.map_cons, List.cons_append, mapNewPage_iff choose _ h hva hrest hflag
        (segmentData blob ph (i * pageSize))]
    unfold loadPages
    rcases hmap : mapNewPage choose m l1 (ph.pVaddr + i * pageSize)
      (segmentData blob ph (i * pageSize)) (pfToVmmFlags ph.pFlags) with
      ⟨m', _ | _⟩
    · simp
    · simpa using ih (h.mapNewPage hva hflag hmap) htail

def Fits (blob : Blob) (ph : Elf64Phdr) : Prop :=
  ph.pMemsz = 0 ∨ segmentError blob ph = none

def NoWrap (ph : Elf64Phdr) : Prop := ¬ ph.pMemsz > uint64Max - ph.pVaddr

theorem segmentVas_low (hwrap : NoWrap ph)
    (hfits : Fits blob ph) {a : Nat} (ha : a ∈ segmentVas ph) :
    Low a ∧ a < userElfStackPageVa := by
  unfold segmentVas at ha
  split at ha
  · cases ha
  rename_i hsize
  have hcheck := hfits.resolve_left hsize
  unfold segmentError at hcheck
  dsimp only at hcheck
  split at hcheck
  · cases hcheck
  split at hcheck
  · cases hcheck
  rename_i halign hrange
  simp only [NoWrap, uint64Max] at hwrap
  simp only [mem_map, mem_range, segmentPages] at ha
  obtain ⟨i, hi, rfl⟩ := ha
  simp only [Low, low_bounds, pageSize] at *
  omega

theorem segment_pages_low (hwrap : NoWrap ph)
    (hsize : ph.pMemsz ≠ 0) (hcheck : segmentError blob ph = none) :
    ∀ i ∈ range (segmentPages ph), Low (ph.pVaddr + i * pageSize) := by
  intro i hi
  refine (segmentVas_low hwrap (.inr hcheck) ?_).1
  rw [segmentVas, if_neg hsize]
  exact mem_map_of_mem hi

theorem loadSegment_ready {m' : Machine} (h : Ready pool m l1) (hwrap : NoWrap ph)
    (heq : loadSegment choose m l1 blob ph = (m', none)) : Ready pool m' l1 := by
  unfold loadSegment at heq
  split at heq
  · cases heq
    exact h
  rename_i hsize
  split at heq
  · cases heq
  rename_i hcheck
  exact loadPages_ready choose h (segment_pages_low hwrap hsize hcheck) heq

theorem loadSegment_iff (h : Ready pool m l1) (blob : Blob) (hwrap : NoWrap ph)
    (hvas : ∀ a ∈ vas, Low a) :
    Fits blob ph ∧ CanMap choose m l1 (segmentVas ph ++ vas) pmm ↔
      ∃ m', loadSegment choose m l1 blob ph = (m', none) ∧ CanMap choose m' l1 vas pmm := by
  unfold loadSegment
  by_cases hsize : ph.pMemsz = 0
  · simp [hsize, segmentVas, Fits]
  cases hcheck : segmentError blob ph with
  | some e => simp [hsize, Fits, hcheck]
  | none =>
    have hfits : Fits blob ph := .inr hcheck
    simp only [hfits, true_and, hsize, if_false, segmentVas]
    exact loadPages_iff choose h blob ph _ (segment_pages_low hwrap hsize hcheck) hvas

theorem loadSegments_ready {m' : Machine} (h : Ready pool m l1) {phs : List Elf64Phdr}
    (hwrap : ∀ ph ∈ phs, NoWrap ph) (heq : loadSegments choose l1 blob phs m = (m', none)) :
    Ready pool m' l1 := by
  induction phs generalizing m with
  | nil =>
    cases heq
    exact h
  | cons ph phs ih =>
    unfold loadSegments at heq
    split at heq
    · rename_i hsegment
      exact ih (loadSegment_ready choose h (hwrap ph (by simp)) hsegment)
        (fun q hq => hwrap q (by simp [hq])) heq
    · cases heq

theorem loadSegments_iff (pmm : Pmm) (h : Ready pool m l1) (blob : Blob) (phs : List Elf64Phdr)
    (hwrap : ∀ ph ∈ phs, NoWrap ph) (hvas : ∀ a ∈ vas, Low a) :
    (∀ ph ∈ phs, Fits blob ph) ∧ CanMap choose m l1 (phs.flatMap segmentVas ++ vas) pmm ↔
      ∃ m', loadSegments choose l1 blob phs m = (m', none) ∧ CanMap choose m' l1 vas pmm := by
  induction phs generalizing m with
  | nil => simp [loadSegments]
  | cons ph phs ih =>
    have hwrap' : ∀ ph ∈ phs, NoWrap ph := fun q hq => hwrap q (by simp [hq])
    -- the addresses of the later segments are low once these have been checked
    have hhead : (∀ ph ∈ phs, Fits blob ph) → (Fits blob ph ∧
        CanMap choose m l1 (segmentVas ph ++ (phs.flatMap segmentVas ++ vas))
          pmm ↔ ∃ m', loadSegment choose m l1 blob ph = (m', none) ∧
        CanMap choose m' l1 (phs.flatMap segmentVas ++ vas) pmm) := by
      intro hfits
      apply loadSegment_iff choose h blob (hwrap ph (by simp))
      intro a ha
      rcases mem_append.mp ha with ha | ha
      · obtain ⟨q, hq, ha⟩ := mem_flatMap.mp ha
        exact (segmentVas_low (hwrap' q hq) (hfits q hq) ha).1
      · exact hvas a ha
    simp only [List.forall_mem_cons, List.flatMap_cons, List.append_assoc]
    unfold loadSegments
    constructor
    · rintro ⟨⟨hfit, hfits⟩, hcan⟩
      obtain ⟨m', heq, hcan⟩ := (hhead hfits).mp ⟨hfit, hcan⟩
      have hready := loadSegment_ready choose h (hwrap ph (by simp)) heq
      rw [heq]
      exact (ih hready hwrap').mp ⟨hfits, hcan⟩
    rintro ⟨m'', hloop, hcan⟩
    rcases hr : loadSegment choose m l1 blob ph with ⟨m', _ | e⟩
    · rw [hr] at hloop
      have hready := loadSegment_ready choose h (hwrap ph (by simp)) hr
      obtain ⟨hfits, hcan⟩ := (ih hready hwrap').mpr ⟨m'', hloop, hcan⟩
      obtain ⟨hfit, hcan⟩ := (hhead hfits).mpr ⟨m', hr, hcan⟩
      exact ⟨⟨hfit, hfits⟩, hcan⟩
    · simp [hr] at hloop

structure ImageOk (blob : Blob) : Prop where
  image : imageError blob = none
  fits : ∀ ph ∈ loadable blob, Fits blob ph
  entry : userTextVa ≤ (ehdr blob).eEntry ∧ (ehdr blob).eEntry < userElfStackPageVa

theorem imageError_noWrap (h : imageError blob = none) : ∀ ph ∈ loadable blob, NoWrap ph := by
  unfold imageError at h
  split at h
  · cases h
  split at h
  · cases h
  rename_i hwrap
  exact fun ph hph hover => hwrap ⟨ph, hph, hover⟩

theorem elfLoadUser_iff (h : Ready pool m l1) (blob : Blob) (hvas : ∀ a ∈ vas, Low a) :
    ImageOk blob ∧ CanMap choose m l1 (imageVas blob ++ vas) pmm ↔
      ∃ m' entry, elfLoadUser choose blob m l1 = (m', .ok entry) ∧ CanMap choose m' l1 vas pmm := by
  unfold elfLoadUser
  rw [if_neg h.tidy.l1_ne_zero]
  cases himage : imageError blob with
  | some e =>
    simp only [Prod.mk.injEq, reduceCtorEq, and_false, false_and, exists_false, iff_false]
    rintro ⟨hok, -⟩
    rw [hok.image] at himage
    cases himage
  | none =>
    have hloop := loadSegments_iff choose pmm h blob (loadable blob) (imageError_noWrap himage) hvas
    constructor
    · rintro ⟨hok, hcan⟩
      obtain ⟨m', heq, hcan⟩ := hloop.mp ⟨hok.fits, hcan⟩
      have hentry := hok.entry
      simp only [heq]
      rw [if_neg (by omega)]
      exact ⟨m', _, rfl, hcan⟩
    rintro ⟨m', entry, heq, hcan⟩
    rcases hr : loadSegments choose l1 blob (loadable blob) m with
      ⟨m₁, _ | e⟩
    · simp only [hr] at heq
      split at heq
      · cases heq
      rename_i hentry
      cases heq
      obtain ⟨hfits, hcan⟩ := hloop.mpr ⟨m', hr, hcan⟩
      exact ⟨⟨himage, hfits, by omega⟩, hcan⟩
    · simp [hr] at heq

theorem elfLoadUser_ready {m' : Machine} {entry : Nat} (h : Ready pool m l1)
    (heq : elfLoadUser choose blob m l1 = (m', .ok entry)) : Ready pool m' l1 := by
  unfold elfLoadUser at heq
  rw [if_neg h.tidy.l1_ne_zero] at heq
  cases himage : imageError blob with
  | some e => simp [himage] at heq
  | none =>
    rcases hr : loadSegments choose l1 blob (loadable blob) m with ⟨m₁, _ | e⟩
    · have hready := loadSegments_ready choose h (imageError_noWrap himage) hr
      simp only [himage, hr] at heq
      split at heq
      · cases heq
      cases heq
      exact hready
    · simp [himage, hr] at heq

end

/-! ## Loaders -/

structure New (pool : Word → Prop) (m : Machine) (l1 : Word) : Prop where
  tidy : Tidy pool m l1 []
  none : ∀ i, l2At m l1 i = none
  zero : m.mem l1 256 = 0#64

section

variable (choose : Nat → Option Word) {pool : Word → Prop} {m : Machine} {l1 : Word}

theorem New.leafAt (h : New pool m l1) (va : Nat) : leafAt m l1 va = 0#64 :=
  entryAt_of_none (l3At_of_none (h.none _))

theorem New.ready (h : New pool m l1) : Ready pool m l1 :=
  ⟨h.tidy, fun _ _ _ => .inl (entryAt_of_none (l3At_of_none (h.none _))), .inr h.zero⟩

theorem New.missing (h : New pool m l1) : missing m l1 = 2 := by
  simp [Vmm.missing, l3At_of_none (h.none 256)]

/--
A loader that leaves the address space in order and succeeds, with room for the
stack, exactly if `ok` holds and the allocator grants its `pages`, two tables and
the page of the stack.
-/
structure Loader (load : Machine → Word → Machine × Option Nat) (stackVa : Nat)
    (ok : Prop) (pages : Nat) : Prop where
  low : Low stackVa
  keeps : ∀ pool m l1, Tidy pool m l1 [] → Settled m l1 →
    Tidy pool (load m l1).1 l1 [] ∧ Settled (load m l1).1 l1
  ready : ∀ pool m l1 m' entry, New pool m l1 → load m l1 = (m', some entry) → Ready pool m' l1
  exact : ∀ pool m l1 pmm, New pool m l1 → (ok ∧ grant choose (pages + 3) m.pmm = some pmm ↔
      ∃ m' entry, load m l1 = (m', some entry) ∧ CanMap choose m' l1 [stackVa] pmm)

theorem low_elfStack : Low userElfStackPageVa := by
  unfold Low
  decide

theorem loadElf_loader (blob : Blob) : Loader choose (loadElf choose blob) userElfStackPageVa
      (ImageOk blob ∧ (imageVas blob).Nodup) (imageVas blob).length where
  low := low_elfStack
  keeps pool m l1 h hs := elfLoadUser_keeps choose h hs blob
  ready pool m l1 m' entry h heq := by
    rcases hr : elfLoadUser choose blob m l1 with ⟨m₁, e | entry'⟩
    · simp [loadElf, hr, Except.toOption] at heq
    simp only [loadElf, hr, Except.toOption, Prod.mk.injEq] at heq
    obtain ⟨rfl, -⟩ := heq
    exact elfLoadUser_ready choose h.ready hr
  exact pool m l1 pmm h := by
    have hstack : ∀ a ∈ [userElfStackPageVa], Low a := by
      simpa using low_elfStack
    have hload : (∃ m' entry, loadElf choose blob m l1 = (m', some entry) ∧
        CanMap choose m' l1 [userElfStackPageVa] pmm) ↔
        ∃ m' entry, elfLoadUser choose blob m l1 = (m', .ok entry) ∧
          CanMap choose m' l1 [userElfStackPageVa] pmm := by
      unfold loadElf
      rcases elfLoadUser choose blob m l1 with ⟨m₁, e | entry⟩ <;> simp [Except.toOption]
    rw [hload, ← elfLoadUser_iff choose h.ready blob hstack]
    have hcost : cost m l1 (imageVas blob ++ [userElfStackPageVa]) =
        (imageVas blob).length + 3 := by
      simp [cost, h.missing]
    constructor
    · rintro ⟨⟨hok, hnodup⟩, hgrant⟩
      refine ⟨hok, ?_, fun a _ => h.leafAt a, by rw [hcost, hgrant]⟩
      -- the segments end below the stack
      refine hnodup.append (by simp) ?_
      rw [disjoint_singleton]
      intro hmem
      obtain ⟨ph, hph, hmem⟩ := mem_flatMap.mp hmem
      exact absurd (segmentVas_low (imageError_noWrap hok.image ph hph)
        (hok.fits ph hph) hmem).2 (Nat.lt_irrefl _)
    rintro ⟨hok, hcan⟩
    exact ⟨⟨hok, hcan.nodup.of_append_left⟩, by rw [← hcost, hcan.granted]⟩

theorem userCode_not_owned : hasFlag vmmFlagsUserCode vmmFlagPmmOwned = false := by
  decide

structure TextMapped (pool : Word → Prop) (m m' : Machine) (l1 : Word)
    (is : List Nat) : Prop where
  tidy : Tidy pool m' l1 []
  settled : Settled m' l1
  mapped : ∀ i ∈ is, leafAt m' l1 (userTextVa + i * pageSize) ≠ 0#64
  keeps : ∀ va, InWindow va → leafAt m l1 va ≠ 0#64 → leafAt m' l1 va ≠ 0#64

theorem mapText_spec (h : Tidy pool m l1 []) (hs : Settled m l1) (text : TextUser) (is : List Nat) :
    Tidy pool (mapText choose l1 text is m).1 l1 [] ∧ Settled (mapText choose l1 text is m).1 l1 ∧
      ((mapText choose l1 text is m).2 = true →
        TextMapped pool m (mapText choose l1 text is m).1 l1 is) := by
  induction is generalizing m with
  | nil => exact ⟨h, hs, fun _ => ⟨h, hs, by simp, fun _ _ hne => hne⟩⟩
  | cons i is ih =>
    have houtcome : MapOutcome pool m l1 (userTextVa + i * pageSize)
        (makePageDesc (text.kva + BitVec.ofNat 64 (i * pageSize)) vmmFlagsUserCode) [] []
        (vmmUserMapPage choose m l1 (userTextVa + i * pageSize)
          (text.kva + BitVec.ofNat 64 (i * pageSize)) vmmFlagsUserCode) :=
      vmmUserMapPage_outcome h hs (.borrowed userCode_not_owned)
    unfold mapText
    generalize text.kva + BitVec.ofNat 64 (i * pageSize) = pa at houtcome ⊢
    rcases hr : vmmUserMapPage choose m l1 (userTextVa + i * pageSize) pa
      vmmFlagsUserCode with ⟨m', _ | _⟩
    · rw [hr] at houtcome
      obtain ⟨-, htidy, hsame⟩ := houtcome.resolve_left (by simp)
      exact ⟨htidy, hs.congr hsame.entry, by simp⟩
    rw [hr] at houtcome
    obtain ⟨-, htidy, hmapped⟩ := houtcome.resolve_right (by simp)
    obtain ⟨ht, hs', hrest⟩ := ih htidy (hmapped.settled hs)
    have hne : makePageDesc pa vmmFlagsUserCode ≠ 0#64 := (accessed_makePageDesc pa _).ne_zero
    refine ⟨ht, hs', fun hok => ?_⟩
    have hrest := hrest hok
    refine ⟨ht, hs', fun a ha => ?_, fun va hva hleaf => ?_⟩
    · rcases mem_cons.mp ha with rfl | ha
      · apply hrest.keeps _ hmapped.window
        rw [hmapped.leafAt hmapped.window, if_pos rfl]
        exact hne
      · exact hrest.mapped a ha
    apply hrest.keeps va hva
    rw [hmapped.leafAt hva]
    split
    · exact hne
    · exact hleaf

/-- The text is one page: a second one would be where the stack is. -/
structure TextOk (text : TextUser) : Prop where
  aligned : text.kva &&& 0xFFF = 0
  onePage : text.bytes = pageSize

theorem low_text : Low userTextVa := by
  unfold Low
  decide

theorem low_stack : Low userStackPageVa := by
  unfold Low
  decide

theorem lowTables_of_leaf {va : Nat} (hva : Low va)
    (h : leafAt m l1 va ≠ 0#64) : LowTables m l1 := by
  left
  by_contra hnot
  apply h
  rw [leafAt_low hva]
  exact entryAt_of_none (by simpa using hnot)

theorem loadText_some {text : TextUser} {userEntry entry : Nat} {m' : Machine}
    (heq : loadText choose text userEntry m l1 = (m', some entry)) :
    text.kva &&& 0xFFF = 0 ∧ text.bytes % pageSize = 0 ∧ 0 < text.bytes / pageSize ∧
      mapText choose l1 text (range (text.bytes / pageSize)) m = (m', true) := by
  unfold loadText at heq
  split at heq
  · cases heq
  rename_i hcheck
  simp only [not_or, ne_eq, not_not] at hcheck
  obtain ⟨haligned, hsize, hbytes⟩ := hcheck
  refine ⟨haligned, hsize, ?_, ?_⟩
  · simp only [pageSize] at hsize ⊢
    omega
  split at heq
  · cases heq
  rename_i hmap
  cases heq
  exact hmap

theorem mapText_one (text : TextUser) : mapText choose l1 text (range 1) m =
      vmmUserMapPage choose m l1 userTextVa text.kva vmmFlagsUserCode := by
  have hzero : text.kva + BitVec.ofNat 64 (0 * pageSize) = text.kva := by simp
  rw [range_one]
  unfold mapText
  rw [hzero, Nat.zero_mul, Nat.add_zero]
  rcases vmmUserMapPage choose m l1 userTextVa text.kva vmmFlagsUserCode with
    ⟨m', _ | _⟩
  · rfl
  · rfl

theorem loadText_loader (text : TextUser) (userEntry : Nat) :
    Loader choose (loadText choose text userEntry) userStackPageVa (TextOk text) 0 where
  low := low_stack
  keeps pool m l1 h hs := by
    obtain ⟨ht, hs', -⟩ := mapText_spec choose h hs text (range (text.bytes / pageSize))
    unfold loadText
    split
    · exact ⟨h, hs⟩
    split
    all_goals
      rename_i hmap
      rw [hmap] at ht hs'
      exact ⟨ht, hs'⟩
  ready pool m l1 m' entry h heq := by
    obtain ⟨-, -, hpos, hmap⟩ := loadText_some choose heq
    obtain ⟨ht, hs', hmapped⟩ := mapText_spec choose h.tidy h.ready.settled text
      (range (text.bytes / pageSize))
    rw [hmap] at ht hs' hmapped
    have hfirst := (hmapped rfl).mapped 0 (mem_range.mpr hpos)
    exact ⟨ht, hs', lowTables_of_leaf low_text hfirst⟩
  exact pool m l1 pmm h := by
    have hone : text.kva &&& 0xFFF = 0 → (grant choose 3 m.pmm = some pmm ↔
          ∃ m', vmmUserMapPage choose m l1 userTextVa text.kva vmmFlagsUserCode = (m', true) ∧
            CanMap choose m' l1 [userStackPageVa] pmm) := by
      intro hpa
      rw [← map_then choose vmmFlagsUserCode pmm h.tidy h.ready.settled
        h.ready.tables (.borrowed userCode_not_owned) hpa low_text
        (by simpa using low_stack)]
      have hne : [userTextVa, userStackPageVa].Nodup := by decide
      simp [hne, h.leafAt, h.missing]
    constructor
    · rintro ⟨hok, hgrant⟩
      obtain ⟨m', hmap, hcan⟩ := (hone hok.aligned).mp hgrant
      have hpages : text.bytes / pageSize = 1 := by rw [hok.onePage]; rfl
      refine ⟨m', entryVa text userEntry, ?_, hcan⟩
      unfold loadText
      rw [if_neg, hpages, mapText_one, hmap]
      simp only [hok.aligned, hok.onePage, pageSize]
      decide
    rintro ⟨m', entry, heq, hcan⟩
    obtain ⟨haligned, hsize, hpos, hmap⟩ := loadText_some choose heq
    obtain ⟨-, -, hmapped⟩ := mapText_spec choose h.tidy h.ready.settled text
      (range (text.bytes / pageSize))
    rw [hmap] at hmapped
    have hlt : text.bytes / pageSize < 2 := by
      by_contra hge
      exact (hmapped rfl).mapped 1 (mem_range.mpr (by omega)) (hcan.empty userStackPageVa (by simp))
    have hpages : text.bytes / pageSize = 1 := by omega
    rw [hpages, mapText_one] at hmap
    refine ⟨⟨haligned, ?_⟩, (hone haligned).mpr ⟨m', hmap, hcan⟩⟩
    simp only [pageSize] at hsize hpages ⊢
    omega

end

/-! ## A creation that fails -/

structure Unwound (s s' : TaskSys) : Prop where
  balance : InBalance s'.machine.pmm.log
  nothing : ∀ p, isHeld s'.machine.pmm.log p = false
  slots : s'.taskInUse = s.taskInUse

/--
Everything up to the kernel's part of the task can be had: `n` pages one by one.
But then there is no kernel stack, or no slot.
-/
def FailsLate (choose : Nat → Option Word) (s : TaskSys) (n : Nat) : Prop :=
  (vmmAllocAsid s.asidInUse).isSome ∧ ∃ pmm, grant choose n s.machine.pmm = some pmm ∧
      (allocTaskSlot s.taskInUse = none ∨
        (pmm.pmmAllocPages choose (stackSize / pageSize)).2 = none)

section

variable {choose : Nat → Option Word} {pool : Word → Prop} {s : TaskSys} {m : Machine} {l1 : Word}

theorem New.created {boot : Nat → Word} {m₀ : Machine} (hfresh : m₀.Fresh)
    (h : vmmCreateUserL1 choose boot m₀ = (m, some l1)) :
    (∃ pool, New pool m l1) ∧ ∀ n, grant choose (n + 1) m₀.pmm = grant choose n m.pmm := by
  obtain ⟨pool, htidy⟩ := (Sound.created hfresh h).tidy
  refine ⟨⟨pool, htidy, ?_, ?_⟩, fun n => ?_⟩
  · obtain ⟨-, rfl⟩ := vmmCreateUserL1_some h
    exact created_tree
  · obtain ⟨-, rfl⟩ := vmmCreateUserL1_some h
    simp [Machine.fill, userL1First]
  unfold vmmCreateUserL1 at h
  split at h
  · cases h
  rename_i m₁ page halloc
  rw [grant_alloc halloc]
  cases h
  rfl

theorem taskCreateWithPriority_none {s' : TaskSys}
    (h : taskCreateWithPriority choose s = (s', none)) :
    s'.machine.mem = s.machine.mem ∧ s'.taskInUse = s.taskInUse ∧
      (allocTaskSlot s.taskInUse = none ∨
        (s.machine.pmm.pmmAllocPages choose (stackSize / pageSize)).2 = none) := by
  unfold taskCreateWithPriority at h
  rcases hr : s.machine.pmm.pmmAllocPages choose (stackSize / pageSize) with
    ⟨pmm, _ | stack⟩
  · simp only [hr, Prod.mk.injEq, and_true] at h
    subst h
    exact ⟨rfl, rfl, .inr rfl⟩
  cases hslot : allocTaskSlot s.taskInUse with
  | none =>
    simp only [hr, hslot, Prod.mk.injEq, and_true] at h
    subst h
    exact ⟨rfl, rfl, .inl rfl⟩
  | some slot => simp [hr, hslot] at h

theorem balance_before {ps : List Word} (h : InBalance (ps.foldl release m).pmm.log) :
    InBalance m.pmm.log := by
  induction ps generalizing m with
  | nil => exact h
  | cons q ps ih =>
    have hlog := ih h
    exact hlog.2

theorem held_of_balance {ps : List Word} (h : InBalance (ps.foldl release m).pmm.log) {p : Word}
    (hp : p ∈ ps) : isHeld m.pmm.log p = true := by
  induction ps generalizing m with
  | nil => cases hp
  | cons q ps ih =>
    rcases mem_cons.mp hp with rfl | hp
    · have hlog := balance_before (m := m.release p) h
      rw [release_log, inBalance_give] at hlog
      exact hlog.1
    have hheld := ih h hp
    rw [release_log, isHeld_give] at hheld
    exact hheld.2

theorem freed_twice {m' : Machine} {r : Place} {p : Word} (h : Tidy pool m l1 [])
    (hs : Settled m l1) (hr : At m l1 r p) (hmem : m'.mem = m.mem) :
    ¬ InBalance (vmmDestroyUserL1 (m'.release p) l1).pmm.log := by
  have hrelease : m'.release p = { m with pmm := (m'.release p).pmm } := by
    rw [← hmem]
    rfl
  intro hbalance
  rw [vmmDestroyUserL1_eq h.l1_ne_zero] at hbalance
  have hp : p ∈ l1Pages (m'.release p) l1 ++ [l1] := by
    have hs' : Settled { m with pmm := (m'.release p).pmm } l1 := hs
    rw [hrelease, l1Pages_eq hs', mem_filterMap, pageAt_pmm]
    exact ⟨r, At.mem_places hr, hr⟩
  have hheld := held_of_balance hbalance hp
  rw [release_log, isHeld_give] at hheld
  exact hheld.1 rfl

theorem vmmFreeAsid_machine (s : TaskSys) (asid : Nat) : (vmmFreeAsid s asid).machine = s.machine ∧
      (vmmFreeAsid s asid).taskInUse = s.taskInUse := by
  unfold vmmFreeAsid
  split <;> exact ⟨rfl, rfl⟩

theorem tearDown_unwound (s₀ : TaskSys) (asid : Nat) (hslots : s₀.taskInUse = s.taskInUse)
    (h : Tidy pool m l1 []) (hs : Settled m l1) :
    Unwound s (tearDown { s₀ with machine := m } l1 asid) := by
  obtain ⟨hbalance, hnothing, -⟩ := vmmDestroyUserL1_spec h hs
  obtain ⟨hmachine, htasks⟩ := vmmFreeAsid_machine { s₀ with machine := vmmDestroyUserL1 m l1 } asid
  refine ⟨?_, fun p => ?_, htasks.trans hslots⟩
  · rw [tearDown, hmachine]
    exact hbalance
  rw [tearDown, hmachine]
  exact hnothing p

theorem userData_owned : hasFlag (vmmFlagsUserData ||| vmmFlagPmmOwned) vmmFlagPmmOwned = true := by
  decide

variable {load : Machine → Word → Machine × Option Nat} {stackVa pages : Nat} {ok : Prop}

def StackMapped (choose : Nat → Option Word) (stackVa : Nat) (m : Machine)
    (l1 : Word) (m' : Machine) : Prop :=
  ∃ m₁ page, m.alloc choose = (m₁, some page) ∧ vmmUserMapPage choose m₁ l1 stackVa page
      (vmmFlagsUserData ||| vmmFlagPmmOwned) = (m', true)

theorem Loader.reaches (hload : Loader choose load stackVa ok pages)
    (h : New pool m l1) (pmm : Pmm) :
    ok ∧ grant choose (pages + 3) m.pmm = some pmm ↔ ∃ m₁ entry, load m l1 = (m₁, some entry) ∧
        ∃ m₂, StackMapped choose stackVa m₁ l1 m₂ ∧ m₂.pmm = pmm := by
  rw [hload.exact pool m l1 pmm h]
  refine exists_congr fun m₁ => exists_congr fun entry =>
    and_congr_right fun heq => ?_
  have hready := hload.ready pool m l1 m₁ entry h heq
  rcases alloc_cases choose m₁ with halloc | ⟨page, -, halloc⟩
  · rw [canMap_cons choose _ hready hload.low (by simp) userData_owned fun _ => 0#64]
    simp [StackMapped, halloc]
  -- nothing is written to the page of the stack
  have hsame : Machine.fill { m₁ with pmm := m₁.pmm.called.take page } page
      (m₁.mem page) = { m₁ with pmm := m₁.pmm.called.take page } := by
    simp [Machine.fill]
  rw [canMap_cons choose _ hready hload.low (by simp) userData_owned (m₁.mem page)]
  simp only [canMap_nil]
  constructor
  · rintro ⟨m₂, q, hm₂, m₃, hm₃, hpmm⟩
    rw [halloc] at hm₂
    cases hm₂
    rw [hsame] at hm₃
    exact ⟨m₃, ⟨_, page, halloc, hm₃⟩, hpmm⟩
  rintro ⟨m₃, ⟨m₂, q, hm₂, hm₃⟩, hpmm⟩
  rw [halloc] at hm₂
  cases hm₂
  refine ⟨_, page, halloc, m₃, ?_, hpmm⟩
  rw [hsame]
  exact hm₃

theorem vmmCreateUserL1_none {boot : Nat → Word} {m₀ : Machine}
    (h : vmmCreateUserL1 choose boot m₀ = (m, none)) :
    m.pmm.log = m₀.pmm.log ∧ ∀ n, grant choose (n + 1) m₀.pmm = none := by
  unfold vmmCreateUserL1 at h
  rcases alloc_cases choose m₀ with heq | ⟨p, hfree, heq⟩
  · rw [heq] at h
    cases h
    exact ⟨rfl, grant_alloc heq⟩
  rw [heq] at h
  cases h

theorem stack_outcome (stackVa : Nat) {m₂ : Machine} {page : Word} (h : Tidy pool m l1 [])
    (hs : Settled m l1) (halloc : m.alloc choose = (m₂, some page)) :
    MapOutcome pool m₂ l1 stackVa
        (makePageDesc page (vmmFlagsUserData ||| vmmFlagPmmOwned)) [page] []
        (vmmUserMapPage choose m₂ l1 stackVa page (vmmFlagsUserData ||| vmmFlagPmmOwned)) ∧
      Settled m₂ l1 ∧ IsPage page := by
  rcases alloc_cases choose m with heq | ⟨p, hfree, heq⟩
  · rw [heq] at halloc
    cases halloc
  rw [heq] at halloc
  cases halloc
  have htake := h.take hfree
  exact ⟨vmmUserMapPage_outcome htake hs (.owned userData_owned), hs,
    htake.isPage_of_held ((htake.held page).mpr (by simp))⟩

theorem finishUser_unwound {asid entry : Nat} (s₀ : TaskSys) {s' : TaskSys}
    (heq : finishUser choose stackVa s l1 asid entry = (s', none))
    (hslots : s.taskInUse = s₀.taskInUse) (h : Tidy pool s.machine l1 [])
    (hs : Settled s.machine l1) :
    (Unwound s₀ s' ↔ ∀ m, ¬ StackMapped choose stackVa s.machine l1 m) ∧
      ∀ m, StackMapped choose stackVa s.machine l1 m → allocTaskSlot s.taskInUse = none ∨
          (m.pmm.pmmAllocPages choose (stackSize / pageSize)).2 = none := by
  unfold finishUser at heq
  unfold StackMapped
  rcases hm₁ : s.machine.alloc choose with ⟨m₁, _ | page⟩
  · rcases alloc_cases choose s.machine with halloc | ⟨p, hfree, halloc⟩
    · rw [hm₁] at heq
      rw [halloc] at hm₁
      cases hm₁
      cases heq
      have hun := tearDown_unwound s asid hslots h.called hs
      simp [hun]
    · rw [hm₁] at halloc
      cases halloc
  obtain ⟨houtcome, hs₁, hpage⟩ := stack_outcome stackVa h hs hm₁
  simp only [hm₁] at heq
  rcases hm₂ : vmmUserMapPage choose m₁ l1 stackVa page
    (vmmFlagsUserData ||| vmmFlagPmmOwned) with ⟨m₂, _ | _⟩
  · simp only [hm₂, Prod.mk.injEq, and_true] at heq
    rw [hm₂] at houtcome
    obtain ⟨-, htidy, hsame⟩ := houtcome.resolve_left (by simp)
    have hun := tearDown_unwound s asid hslots htidy.release (hs₁.congr hsame.entry)
    rw [heq] at hun
    simp [hun, hm₂]
  rw [hm₂] at houtcome
  obtain ⟨-, htidy, hmapped⟩ := houtcome.resolve_right (by simp)
  simp only [hm₂] at heq
  rcases htask : taskCreateWithPriority choose { s with machine := m₂ } with
    ⟨s₁, _ | slot⟩
  · obtain ⟨hmem, -, hlate⟩ := taskCreateWithPriority_none htask
    simp only [htask, Prod.mk.injEq, and_true] at heq
    have hleaf : At m₂ l1 (.leaf (l1Index stackVa) (l2Index stackVa) (l3Index stackVa))
        page := by
      simp [At, pageAt, hmapped.entry, userData_owned, hpage.1]
    have htwice := freed_twice htidy (hmapped.settled hs₁) hleaf hmem
    have hnot : ¬ Unwound s₀ s' := by
      intro hun
      apply htwice
      have hbalance := hun.balance
      rw [← heq, tearDown, (vmmFreeAsid_machine _ asid).1] at hbalance
      exact hbalance
    simpa [hnot, hm₂] using hlate
  · simp [htask] at heq

theorem createUser_unwound (hload : Loader choose load stackVa ok pages)
    {boot : Nat → Word} {s' : TaskSys} (hfresh : s.machine.Fresh)
    (heq : createUser choose boot load stackVa s = (s', none)) :
    Unwound s s' ↔ ¬ (ok ∧ FailsLate choose s (pages + 4)) := by
  unfold createUser at heq
  rcases hcreate : vmmCreateUserL1 choose boot s.machine with ⟨m, _ | l1⟩
  · rw [hcreate] at heq
    cases heq
    obtain ⟨hlog, hnone⟩ := vmmCreateUserL1_none hcreate
    refine iff_of_true ⟨?_, ?_, rfl⟩ ?_
    · simp [hlog, hfresh.log]
    · simp [hlog, hfresh.log]
    rintro ⟨-, -, pmm, hpmm, -⟩
    rw [hnone] at hpmm
    cases hpmm
  obtain ⟨⟨pool, hnew⟩, hgrant⟩ := New.created hfresh hcreate
  obtain ⟨htidy, hs⟩ := hload.keeps pool m l1 hnew.tidy hnew.ready.settled
  have hreaches := hload.reaches hnew
  simp only [← hgrant] at hreaches
  simp only [hcreate] at heq
  cases hasid : vmmAllocAsid s.asidInUse with
  | none =>
    rw [hasid] at heq
    cases heq
    obtain ⟨hbalance, hnothing, -⟩ := vmmDestroyUserL1_spec hnew.tidy hnew.ready.settled
    exact iff_of_true ⟨hbalance, hnothing, rfl⟩ (by simp [FailsLate, hasid])
  | some asid =>
    simp only [hasid] at heq
    rcases hm₁ : load m l1 with ⟨m₁, _ | entry⟩
    · rw [hm₁] at htidy hs
      simp only [hm₁, Prod.mk.injEq, and_true] at heq
      have hun := tearDown_unwound (s := s)
        { s with asidInUse := Function.update s.asidInUse asid true } asid rfl
        htidy hs
      rw [heq] at hun
      refine iff_of_true hun ?_
      rintro ⟨hok, -, pmm, hpmm, -⟩
      obtain ⟨m', entry, hload', -⟩ := (hreaches pmm).mp ⟨hok, hpmm⟩
      rw [hm₁] at hload'
      cases hload'
    rw [hm₁] at htidy hs
    simp only [hm₁] at heq
    obtain ⟨hun, hlate⟩ := finishUser_unwound s heq rfl htidy hs
    rw [hun, ← not_exists, not_iff_not]
    constructor
    · rintro ⟨m₃, hm₃⟩
      obtain ⟨hok, hpmm⟩ := (hreaches m₃.pmm).mpr ⟨m₁, entry, hm₁, m₃, hm₃, rfl⟩
      exact ⟨hok, by simp [hasid], m₃.pmm, hpmm, hlate m₃ hm₃⟩
    rintro ⟨hok, -, pmm, hpmm, -⟩
    obtain ⟨m', entry', hload', m₃, hm₃, -⟩ := (hreaches pmm).mp ⟨hok, hpmm⟩
    rw [hm₁] at hload'
    cases hload'
    exact ⟨m₃, hm₃⟩

end

/-- The same for a task that runs an image, once the image can be mapped. -/
def ElfFailsLate (choose : Nat → Option Word) (s : TaskSys) (blob : Option Blob) : Prop :=
  ∃ image, blob = some image ∧ image.length ≠ 0 ∧ (ImageOk image ∧ (imageVas image).Nodup) ∧
    FailsLate choose s ((imageVas image).length + 4)

/--
For every point of failure of `task_create_user` and `task_create_user_elf`: all
pages are given back once and the task slots are as before, unless the creation
gets as far as the kernel's part of the task and fails there.
-/
theorem failed_user_task_unwound (choose : Nat → Option Word)
    (boot : Nat → Word) (s s' : TaskSys) (hfresh : s.machine.Fresh) :
    (∀ text userEntry, taskCreateUser choose boot text userEntry s = (s', none) →
      (Unwound s s' ↔ ¬ (TextOk text ∧ FailsLate choose s 4))) ∧
    ∀ blob, taskCreateUserElf choose boot blob s = (s', none) →
      (Unwound s s' ↔ ¬ ElfFailsLate choose s blob) := by
  refine ⟨fun text userEntry heq => ?_, fun blob heq => ?_⟩
  · exact createUser_unwound (loadText_loader choose text userEntry) hfresh heq
  have hnothing : s = s' → Unwound s s' := by
    rintro rfl
    exact ⟨by simp [hfresh.log], by simp [hfresh.log], rfl⟩
  unfold taskCreateUserElf at heq
  split at heq
  · simp only [Prod.mk.injEq, and_true] at heq
    exact iff_of_true (hnothing heq) (by simp [ElfFailsLate])
  rename_i image
  split at heq
  · rename_i hempty
    simp only [Prod.mk.injEq, and_true] at heq
    refine iff_of_true (hnothing heq) ?_
    rintro ⟨_, himage, hsize, -⟩
    cases himage
    exact hsize hempty
  rename_i hsize
  rw [createUser_unwound (loadElf_loader choose image) hfresh heq, not_iff_not]
  constructor
  · rintro ⟨hok, hlate⟩
    exact ⟨image, rfl, hsize, hok, hlate⟩
  rintro ⟨_, himage, -, hok, hlate⟩
  cases himage
  exact ⟨hok, hlate⟩

theorem taskCreateWithPriority_full (choose : Nat → Option Word) {s : TaskSys}
    (hslots : allocTaskSlot s.taskInUse = none) : (taskCreateWithPriority choose s).2 = none := by
  unfold taskCreateWithPriority
  rw [hslots]
  split <;> rfl

theorem createUser_full (choose : Nat → Option Word) (boot : Nat → Word)
    (load : Machine → Word → Machine × Option Nat) (stackVa : Nat)
    {s : TaskSys} (hslots : allocTaskSlot s.taskInUse = none) :
    ∃ s', createUser choose boot load stackVa s = (s', none) := by
  have hfinish : ∀ s₁ : TaskSys, s₁.taskInUse = s.taskInUse → ∀ l1 asid entry,
      (finishUser choose stackVa s₁ l1 asid entry).2 = none := by
    intro s₁ hs₁ l1 asid entry
    unfold finishUser
    split
    · rfl
    split
    · rfl
    rename_i m _ _ _ m₂ _
    have hnone := taskCreateWithPriority_full choose
      (s := { s₁ with machine := m₂ }) (by simpa [hs₁] using hslots)
    split
    · rfl
    rename_i htask
    rw [htask] at hnone
    cases hnone
  refine ⟨_, Prod.ext rfl ?_⟩
  unfold createUser
  split
  · rfl
  split
  · rfl
  split
  · rfl
  apply hfinish
  rfl

def onePageText : TextUser := { kva := 0x80000#64, bytes := pageSize }

def fullTable : TaskSys where
  machine := emptyMachine
  asidInUse := fun _ => false
  taskInUse := fun _ => true

theorem grant_succ {choose : Nat → Option Word} {pmm : Pmm} {p : Word}
    (hchoose : choose pmm.calls = some p) (hfree : pmm.free p = true) (n : Nat) :
    grant choose (n + 1) pmm = grant choose n (pmm.called.take p) := by
  simp [grant, Pmm.pmmAllocPages, hchoose, blockPages_one, hfree, Pmm.called]

theorem take_free {pmm : Pmm} {p q : Word} (h : p ≠ q)
    (hfree : pmm.free p = true) : (pmm.called.take q).free p = true := by
  simpa [Pmm.take, Pmm.called, h] using hfree

theorem grant_inOrder_four : ∃ pmm, grant inOrder 4 emptyMachine.pmm = some pmm := by
  have hfree : ∀ p, IsPage p → emptyMachine.pmm.free p = true := by
    simp [emptyMachine]
  have h₁ : emptyMachine.pmm.free 4096#64 = true := hfree _ (by decide)
  have h₂ := take_free (p := 8192#64) (q := 4096#64) (by decide) (hfree _ (by decide))
  have h₃ := take_free (p := 12288#64) (q := 8192#64) (by decide)
    (take_free (q := 4096#64) (by decide) (hfree _ (by decide)))
  have h₄ := take_free (p := 16384#64) (q := 12288#64) (by decide)
    (take_free (q := 8192#64) (by decide)
      (take_free (q := 4096#64) (by decide) (hfree _ (by decide))))
  rw [grant_succ rfl h₁, grant_succ rfl h₂, grant_succ rfl h₃, grant_succ rfl h₄]
  exact ⟨_, rfl⟩

theorem fullTable_slots : allocTaskSlot fullTable.taskInUse = none := by
  simp [allocTaskSlot, fullTable]

theorem failed_user_task_frees_twice : emptyMachine.Fresh ∧
      ∃ s', taskCreateUser inOrder (fun _ => 0) onePageText 0 fullTable =
        (s', none) ∧ ¬ Unwound fullTable s' := by
  have hslots := fullTable_slots
  obtain ⟨s', heq⟩ := createUser_full inOrder (fun _ => 0) (loadText inOrder onePageText 0)
    userStackPageVa hslots
  refine ⟨emptyMachine_fresh, s', heq, ?_⟩
  rw [createUser_unwound (loadText_loader inOrder onePageText 0) emptyMachine_fresh heq, not_not]
  obtain ⟨pmm, hpmm⟩ := grant_inOrder_four
  exact ⟨⟨by decide, rfl⟩, by decide, pmm, hpmm, .inl hslots⟩

/-- Without an ASID the address space is taken back. -/
theorem failed_user_task_unwound_asid : ∃ s', taskCreateUser inOrder (fun _ => 0) onePageText 0
        { fullTable with asidInUse := fun _ => true } = (s', none) ∧
      Unwound { fullTable with asidInUse := fun _ => true } s' := by
  obtain ⟨s', heq⟩ := createUser_full inOrder (fun _ => 0) (loadText inOrder onePageText 0)
    userStackPageVa (s := { fullTable with asidInUse := fun _ => true }) fullTable_slots
  refine ⟨s', heq, ?_⟩
  rw [(failed_user_task_unwound inOrder (fun _ => 0) _ s' emptyMachine_fresh).1 onePageText 0 heq]
  simp [FailsLate, vmmAllocAsid]

end SlmOs.Vmm
