import SlmOs.Pmm.Calls

/-!
# What the allocator finds

The free blocks are coalesced, so an aligned range of free pages lies in one of
them: an allocation fails only if there is no such range, and the search for the
lowest address finds the lowest one.
-/

namespace SlmOs.Pmm

open Foundation List Block Nat Set

variable {s : BuddyState} {fl : Nat → List Nat} {out : Set Block} {pub : Set Nat}

structure FreeRun (s : BuddyState) (b : Block) : Prop where
  aligned : b.Aligned
  start_le : s.heapStart ≤ b.addr
  free : ∀ i < orderToPages b.order, s.blockState (addrToBlockIndex s b.addr + i) = .free

def HasRun (s : BuddyState) (order : Nat) : Prop :=
  ∃ b, b.order = order ∧ FreeRun s b

/-! ## Free pages and free blocks -/

variable {b : Block}

theorem FreeRun.page_free (hb : FreeRun s b) (hstart : pageSize ∣ s.heapStart)
    (hi : pageAddr s i ∈ b.bytes) : s.blockState i = .free := by
  rw [pageAddr_mem_bytes hstart hb.aligned hb.start_le] at hi
  obtain ⟨j, rfl⟩ := Nat.exists_eq_add_of_le hi.1
  apply hb.free
  omega

theorem FreeRun.cover (hb : FreeRun s b) (h : Invariant s fl out pub) (hy : y ∈ b.bytes) :
    ∃ f ∈ freeBlocks fl, y ∈ f.bytes := by
  have hpage := (page_mem_bytes hb.aligned).mpr hy
  obtain ⟨q, hq⟩ := h.startAligned
  -- the page of `y`
  have hindex : pageAddr s (y / pageSize - q) = y / pageSize * pageSize := by
    have hge := hb.start_le.trans (mem_bytes.mp hpage).1
    unfold pageAddr
    unfold pageSize at *
    omega
  rw [← hindex] at hpage
  have hfree := hb.page_free h.startAligned hpage
  obtain ⟨f, hf, hmem⟩ := (h.state _).mp hfree
  rw [hindex] at hmem
  exact ⟨f, hf, (page_mem_bytes (h.tiling.aligned f (.inl hf))).mp hmem⟩

theorem FreeRun.subset_block (hb : FreeRun s b) (h : Invariant s fl out pub)
    (ho : b.order ≤ maxOrder) : ∃ f ∈ freeBlocks fl, b.bytes ⊆ f.bytes :=
  exists_superset (fun f hf => h.tiling.aligned f (.inl hf)) h.coalesced
    hb.aligned ho fun _ hy => hb.cover h hy

variable {order : Nat} {f : Block}

section

variable (h : Invariant s fl out pub)
include h

theorem freeRun_of_block (hf : f ∈ freeBlocks fl) (ho : order ≤ f.order) :
    FreeRun s ⟨f.addr, order⟩ := by
  have haligned := h.tiling.aligned f (.inl hf)
  have hstart := (h.tiling.inHeap f (.inl hf) f.addr_mem_bytes).1
  refine ⟨(orderToSize_dvd ho).trans haligned, hstart, fun i hi => ?_⟩
  rw [h.state]
  refine ⟨f, hf, ?_⟩
  rw [pageAddr_mem_bytes h.startAligned haligned hstart]
  have hpages : orderToPages order ≤ orderToPages f.order := Nat.pow_le_pow_right (by decide) ho
  exact ⟨Nat.le_add_right _ _, Nat.add_lt_add_left (Nat.lt_of_lt_of_le hi hpages) _⟩

theorem hasRun_iff (ho : order ≤ maxOrder) :
    HasRun s order ↔ ∃ f ∈ freeBlocks fl, order ≤ f.order := by
  constructor
  · rintro ⟨b, rfl, hb⟩
    obtain ⟨f, hf, hsub⟩ := hb.subset_block h ho
    exact ⟨f, hf, order_le_of_subset hb.aligned (h.tiling.aligned f (.inl hf)) hsub⟩
  rintro ⟨f, hf, hle⟩
  exact ⟨⟨f.addr, order⟩, rfl, freeRun_of_block h hf hle⟩

/-! ## The search of `buddy_alloc` -/

theorem freeCounts_pos_iff (ho : o ≤ maxOrder) : 0 < s.freeCounts o ↔ ∃ a, a ∈ fl o := by
  rw [h.lists.counts o ho]
  exact length_pos_iff_exists_mem

theorem addr_ne_zero_of_free (hf : f ∈ freeBlocks fl) : f.addr ≠ 0 := by
  intro hzero
  apply h.null
  rw [← hzero]
  exact h.tiling.subset_pub (.inl hf) f.addr_mem_bytes

theorem addr_ne_fail_of_free (hf : f ∈ freeBlocks fl) : f.addr ≠ pmmAllocFail := by
  obtain ⟨q, hq⟩ := (h.tiling.aligned f (.inl hf)).page
  rw [hq]
  unfold pmmAllocFail wordModulus pageSize
  omega

theorem buddyAlloc_addr (hlarge : ∃ f ∈ freeBlocks fl, order ≤ f.order) :
    ∃ f ∈ freeBlocks fl, (buddyAlloc s order).2 = f.addr := by
  obtain ⟨f, hf, hle⟩ := hlarge
  have hfo := h.tiling.order_le f (.inl hf)
  rcases hfind : (List.range' order (maxOrder + 1 - order)).find?
      (fun o => 0 < s.freeCounts o) with _ | o
  · rw [find?_eq_none] at hfind
    have hempty := hfind f.order (mem_range'_1.mpr (by omega))
    rw [decide_eq_true_iff, freeCounts_pos_iff h hfo] at hempty
    exact absurd ⟨f.addr, hf⟩ hempty
  have hmem := mem_of_find?_eq_some hfind
  have hpos := find?_some hfind
  rw [mem_range'_1] at hmem
  obtain ⟨a, m, heads, counts, ha, hpop, -⟩ :=
    freeListPop_ok h.lists (by omega) (of_decide_eq_true hpos)
  exact ⟨⟨a, o⟩, ha, by simp [buddyAlloc, hfind, hpop]⟩

theorem pmmAllocPages_null_iff {count : Nat} (hcount : count ≠ 0)
    (horder : log2Ceil count = some order) (ho : order ≤ maxOrder) :
    ∃ s' r, pmmAllocPages s count = some (s', r) ∧ (r = 0 ↔ ¬ HasRun s order) := by
  rw [hasRun_iff h ho]
  rcases hrun : pmmAllocPages s count with _ | ⟨s', r⟩
  · simp [pmmAllocPages, h.initialized, hcount, horder, not_lt.mpr ho] at hrun
  refine ⟨s', r, rfl, ?_⟩
  constructor
  · intro hnull hlarge
    obtain ⟨f, hf, haddr⟩ := buddyAlloc_addr h hlarge
    have hresult : r = f.addr := by
      simp [pmmAllocPages, h.initialized, hcount, horder, not_lt.mpr ho,
        haddr, addr_ne_fail_of_free h hf] at hrun
      rw [← haddr, hrun]
    exact addr_ne_zero_of_free h hf (hresult.symm.trans hnull)
  intro hnone
  rcases pmmAllocPages_ok h hrun with ⟨hnull, -⟩ | hsome
  · exact hnull
  obtain ⟨order', fl', horder', -, ⟨f, hf, -, hle⟩, -⟩ := hsome
  obtain rfl := Option.some.inj (horder.symm.trans horder')
  exact absurd ⟨f, hf, hle⟩ hnone

end

/-! ## The search for the lowest address -/

def Best.AtMost (best : Best) (a : Nat) : Prop :=
  best.found = true ∧ best.addr ≤ a

theorem consider_atMost (best : Best) (a o : Nat) : (best.consider a o).AtMost a ∧
      ∀ b, best.AtMost b → (best.consider a o).AtMost b := by
  unfold Best.consider
  split
  · rename_i hlower
    refine ⟨⟨rfl, le_refl a⟩, fun b hb => ⟨rfl, ?_⟩⟩
    have hlt : a < best.addr := by simpa [hb.1] using hlower
    exact hlt.le.trans hb.2
  rename_i hlower
  simp only [Bool.not_eq_true', not_or, Bool.not_eq_false, not_lt] at hlower
  exact ⟨hlower, fun b hb => hb⟩

theorem foldl_consider_atMost (l : List Nat) (best : Best) :
    (∀ a ∈ l, (l.foldl (fun b a => b.consider a o) best).AtMost a) ∧ ∀ b, best.AtMost b →
        (l.foldl (fun b a => b.consider a o) best).AtMost b := by
  induction l generalizing best with
  | nil => exact ⟨by simp, fun b hb => hb⟩
  | cons a l ih =>
    obtain ⟨hself, hkeep⟩ := consider_atMost best a o
    obtain ⟨hlist, hrest⟩ := ih (best.consider a o)
    refine ⟨fun x hx => ?_, fun b hb => hrest b (hkeep b hb)⟩
    rcases mem_cons.mp hx with rfl | hx
    · exact hrest x hself
    · exact hlist x hx

section

variable (h : Invariant s fl out pub)
include h

theorem scanOrders_atMost (orders : List Nat) (horders : ∀ o ∈ orders, o ≤ maxOrder)
    (best best' : Best) (hscan : scanOrders s orders best = some best') :
    (∀ o ∈ orders, ∀ a ∈ fl o, best'.AtMost a) ∧ ∀ b, best.AtMost b → best'.AtMost b := by
  induction orders generalizing best with
  | nil =>
    cases hscan
    exact ⟨by simp, fun b hb => hb⟩
  | cons o orders ih =>
    obtain ⟨last, hseg⟩ := h.lists.lists o (horders o mem_cons_self)
    rw [scanOrders, scanList_eq (fl o) _ _ _ last best hseg (length_le_heap h o)] at hscan
    obtain ⟨hlist, hkeep⟩ := foldl_consider_atMost (o := o) (fl o) best
    obtain ⟨horders', hrest⟩ := ih (fun o' h' => horders o' (mem_cons_of_mem _ h')) _ hscan
    refine ⟨fun o' ho' a ha => ?_, fun b hb => hrest b (hkeep b hb)⟩
    rcases mem_cons.mp ho' with rfl | ho'
    · exact hrest a (hlist a ha)
    · exact horders' o' ho' a ha

theorem pmmAllocPagesLow_lowest {count : Nat} (hcount : count ≠ 0)
    (horder : log2Ceil count = some order) (ho : order ≤ maxOrder) :
    ∃ s' r, pmmAllocPagesLow s count = some (s', r) ∧ (r = 0 ↔ ¬ HasRun s order) ∧
      (r ≠ 0 → FreeRun s ⟨r, order⟩ ∧ ∀ b, b.order = order → FreeRun s b → r ≤ b.addr) := by
  obtain ⟨best, hscan, hsound⟩ := scan_ok h order
  have hrange : ∀ o ∈ List.range' order (maxOrder + 1 - order), o ≤ maxOrder := by
    intro o hmem
    rw [mem_range'_1] at hmem
    omega
  have hatMost : ∀ f ∈ freeBlocks fl, order ≤ f.order → best.AtMost f.addr := by
    intro f hf hle
    have hfo := h.tiling.order_le f (.inl hf)
    exact (scanOrders_atMost h _ hrange _ best hscan).1 f.order
      (mem_range'_1.mpr (by omega)) f.addr hf
  have hrun : pmmAllocPagesLow s count =
      if !best.found then some (s, 0)
      else some (takeBlock (freeListRemove s best.addr best.order) best.addr
        best.order order, best.addr) := by
    simp [pmmAllocPagesLow, h.initialized, hcount, horder, not_lt.mpr ho, hscan]
  rw [hasRun_iff h ho]
  cases hfound : best.found with
  | false =>
    refine ⟨s, 0, by simp [hrun, hfound], ?_, fun hne => absurd rfl hne⟩
    refine iff_of_true rfl ?_
    rintro ⟨f, hf, hle⟩
    have hsome := (hatMost f hf hle).1
    rw [hfound] at hsome
    exact Bool.false_ne_true hsome
  | true =>
    obtain ⟨hmem, hle, -⟩ := hsound hfound
    have hbest : (⟨best.addr, best.order⟩ : Block) ∈ freeBlocks fl := hmem
    refine ⟨_, best.addr, by rw [hrun, hfound]; rfl, ?_, fun _ => ?_⟩
    · exact iff_of_false (addr_ne_zero_of_free h hbest) fun hnone => hnone ⟨_, hbest, hle⟩
    refine ⟨freeRun_of_block h hbest hle, ?_⟩
    rintro b rfl hb
    obtain ⟨f, hf, hsub⟩ := hb.subset_block h ho
    have hfle := order_le_of_subset hb.aligned (h.tiling.aligned f (.inl hf)) hsub
    have hstart := mem_bytes.mp (hsub b.addr_mem_bytes)
    exact (hatMost f hf hfle).2.trans hstart.1

theorem alloc_refuses (hn : n = 0 ∨ orderToPages maxOrder < n ∧ n ≤ 2 ^ 63) :
    pmmAllocPages s n = some (s, 0) ∧ pmmAllocPagesLow s n = some (s, 0) := by
  rcases hn with rfl | ⟨hlarge, hsmall⟩
  · simp [pmmAllocPages, pmmAllocPagesLow, h.initialized]
  have horder := log2Ceil_eq_clog hsmall
  have hgt : maxOrder < clog 2 n := by
    rw [lt_clog_iff_pow_lt (by decide)]
    exact hlarge
  have hne : n ≠ 0 := ne_zero_of_lt hlarge
  simp [pmmAllocPages, pmmAllocPagesLow, h.initialized, hne, horder, hgt]

end

/--
Both allocators decide whether there is an aligned range of free pages, and the
one for low addresses takes the first.  A count of zero, or above the largest
order, is refused before anything is looked at.
-/
theorem alloc_finds_run (h : Invariant s fl out pub) (n : Nat) :
    (0 < n → n ≤ orderToPages maxOrder → ∃ order, log2Ceil n = some order ∧
        (∃ s' r, pmmAllocPages s n = some (s', r) ∧ (r = 0 ↔ ¬ HasRun s order)) ∧
        ∃ s' r, pmmAllocPagesLow s n = some (s', r) ∧ (r = 0 ↔ ¬ HasRun s order) ∧
          (r ≠ 0 → FreeRun s ⟨r, order⟩ ∧ ∀ b, b.order = order → FreeRun s b → r ≤ b.addr)) ∧
    (n = 0 ∨ orderToPages maxOrder < n ∧ n ≤ 2 ^ 63 → pmmAllocPages s n = some (s, 0) ∧
      pmmAllocPagesLow s n = some (s, 0)) := by
  refine ⟨fun hpos hmax => ?_, alloc_refuses h⟩
  have hsmall : n ≤ 2 ^ 63 := hmax.trans (by decide)
  have horder := log2Ceil_eq_clog hsmall
  have ho : clog 2 n ≤ maxOrder := (clog_le_iff_le_pow (by decide)).mpr hmax
  exact ⟨_, horder, pmmAllocPages_null_iff h hpos.ne' horder ho,
    pmmAllocPagesLow_lowest h hpos.ne' horder ho⟩

theorem alloc_finds_run_page : ∃ s' r, pmmAllocPagesLow twoPages 1 = some (s', r) ∧
      FreeRun twoPages ⟨8192, 0⟩ ∧ r ≤ 8192 := by
  obtain ⟨order, horder, -, s', r, hrun, hnull, hlow⟩ :=
    (alloc_finds_run twoPages_invariant 1).1 (by decide) (by decide)
  obtain rfl : 0 = order := Option.some.inj horder
  have hfree : FreeRun twoPages ⟨8192, 0⟩ := by
    refine ⟨⟨2, rfl⟩, le_refl _, fun i hi => ?_⟩
    obtain rfl : i = 0 := lt_one_iff.mp hi
    rfl
  have hne : r ≠ 0 := fun hzero => hnull.mp hzero ⟨_, rfl, hfree⟩
  exact ⟨s', r, hrun, hfree, (hlow hne).2 _ rfl hfree⟩

/-! ## A heap that is two blocks of the largest order -/

def twoHalves : BuddyState where
  mem := fun a => if a = 2 ^ 32 then ⟨2 ^ 32 + 2 ^ 31, 0⟩ else ⟨0, 2 ^ 32⟩
  freeLists := fun o => if o = 19 then 2 ^ 32 else 0
  freeCounts := fun o => if o = 19 then 2 else 0
  heapStart := 2 ^ 32
  heapEnd := 2 ^ 33
  freePages := 2 ^ 20
  allocCount := 0
  freeCount := 0
  splitCount := 0
  mergeCount := 0
  initialized := true
  blockState := fun i => if i < 2 ^ 20 then .free else .allocated

def twoHalvesFree : Nat → List Nat :=
  fun o => if o = 19 then [2 ^ 32, 2 ^ 32 + 2 ^ 31] else []

theorem freeBlocks_twoHalvesFree :
    freeBlocks twoHalvesFree = {⟨2 ^ 32, 19⟩, ⟨2 ^ 32 + 2 ^ 31, 19⟩} := by
  ext b
  change b.addr ∈ twoHalvesFree b.order ↔ b = _ ∨ b = _
  rw [Block.ext_iff, Block.ext_iff]
  unfold twoHalvesFree
  split <;> simp_all

private theorem mem_half (a x : Nat) : x ∈ (⟨a, 19⟩ : Block).bytes ↔ a ≤ x ∧ x < a + 2 ^ 31 := by
  have hsize : orderToSize 19 = 2 ^ 31 := by decide
  change a ≤ x ∧ x < a + orderToSize 19 ↔ _
  rw [hsize]

theorem twoHalves_invariant : Invariant twoHalves twoHalvesFree ∅ (Set.Ico (2 ^ 32) (2 ^ 33)) where
  initialized := rfl
  startAligned := by decide
  null := by simp
  lists := listsOk_single (by decide)
    ⟨2 ^ 32 + 2 ^ 31, rfl, by decide, rfl, rfl, by decide, rfl, rfl, rfl⟩ (by decide) rfl rfl
  apart := disjoint_empty _
  tiling := by
    rw [freeBlocks_twoHalvesFree, union_empty]
    exact tiling_pair (by decide) ⟨2, rfl⟩ rfl
  state := by
    intro i
    rw [freeBlocks_twoHalvesFree]
    have hpage : pageAddr twoHalves i = 2 ^ 32 + i * 4096 := rfl
    have hstate : twoHalves.blockState i = .free ↔ i < 2 ^ 20 := by
      change (if i < 2 ^ 20 then BlockStatus.free else .allocated) = _ ↔ _
      split <;> simp_all
    rw [hstate, exists_mem_insert, hpage]
    simp only [mem_singleton_iff, exists_eq_left, mem_half]
    omega
  pages := by decide
  coalesced := by
    rw [freeBlocks_twoHalvesFree]
    rintro b (rfl | rfl) hlt <;> exact absurd hlt (by decide)

/--
All of the heap is free.  A request of no pages gets none, and neither does a
request for all of it.
-/
theorem alloc_zero_and_all_fail : Invariant twoHalves twoHalvesFree ∅ (Set.Ico (2 ^ 32) (2 ^ 33)) ∧
      (log2Ceil 0 = some 0 ∧ HasRun twoHalves 0 ∧ pmmAllocPages twoHalves 0 = some (twoHalves, 0) ∧
        pmmAllocPagesLow twoHalves 0 = some (twoHalves, 0)) ∧
      log2Ceil (2 ^ 20) = some 20 ∧ HasRun twoHalves 20 ∧
        pmmAllocPages twoHalves (2 ^ 20) = some (twoHalves, 0) ∧
        pmmAllocPagesLow twoHalves (2 ^ 20) = some (twoHalves, 0) := by
  have hrun : ∀ order ≤ 20, HasRun twoHalves order := by
    intro order ho
    refine ⟨⟨2 ^ 32, order⟩, rfl, ?_, le_refl _, fun i hi => if_pos ?_⟩
    · exact (orderToSize_dvd ho).trans (by decide : orderToSize 20 ∣ 2 ^ 32)
    have hzero : addrToBlockIndex twoHalves (2 ^ 32) = 0 := by decide
    rw [hzero, zero_add]
    exact Nat.lt_of_lt_of_le hi (Nat.pow_le_pow_right (by decide) ho)
  exact ⟨twoHalves_invariant, ⟨rfl, hrun 0 (by decide),
    alloc_refuses twoHalves_invariant (.inl rfl)⟩, by decide,
    hrun 20 (by decide), alloc_refuses twoHalves_invariant (.inr (by decide))⟩

/-! ## Requests of any size -/

theorem pmmAllocPages_isSome_iff (s : BuddyState) (n : Nat) :
    (pmmAllocPages s n).isSome ↔ s.initialized = false ∨ n ≤ 2 ^ 63 := by
  unfold pmmAllocPages
  split_ifs with hinit hzero
  · exact iff_of_true rfl (.inl (by simpa using hinit))
  · exact iff_of_true rfl (.inr (hzero ▸ zero_le _))
  · simp only [Bool.not_eq_true', Bool.not_eq_false] at hinit
    simp [hinit, log2Ceil_isSome_iff]

theorem pmmAllocPages_large {s : BuddyState} (hn : orderToPages maxOrder < n)
    (hrun : pmmAllocPages s n = some p) : p = (s, 0) := by
  unfold pmmAllocPages at hrun
  split_ifs at hrun with hinit hzero
  · exact (Option.some.inj hrun).symm
  · exact (Option.some.inj hrun).symm
  · obtain ⟨order, horder, rfl⟩ := Option.map_eq_some_iff.mp hrun
    have hsmall := log2Ceil_isSome_iff.mp (Option.isSome_of_mem horder)
    obtain rfl := Option.some.inj ((log2Ceil_eq_clog hsmall).symm.trans horder)
    exact if_pos ((lt_clog_iff_pow_lt (by decide)).mpr hn)

/--
A request ends just up to `2 ^ 63` pages, with null above the largest block; within it
`log2_ceil` is the least order that suffices.
-/
theorem alloc_order_ends (s : BuddyState) :
    (∀ n, ((pmmAllocPages s n).isSome ↔ s.initialized = false ∨ n ≤ 2 ^ 63) ∧
      ∀ p, orderToPages maxOrder < n → pmmAllocPages s n = some p → p = (s, 0)) ∧
    ∀ n, 1 ≤ n → n ≤ orderToPages maxOrder →
      ∃ k, log2Ceil n = some k ∧ IsLeast {k | n ≤ 2 ^ k} k := by
  refine ⟨fun n => ⟨pmmAllocPages_isSome_iff s n, fun p => pmmAllocPages_large⟩, fun n _ hmax => ?_⟩
  refine ⟨_, log2Ceil_eq_clog (hmax.trans (by decide)), ?_, fun k hk => ?_⟩
  · exact (clog_le_iff_le_pow (by decide)).mp (le_refl _)
  · exact (clog_le_iff_le_pow (by decide)).mpr hk

theorem alloc_never_ends : twoPages.initialized = true ∧
    pmmAllocPages twoPages (2 ^ 63 + 1) = none ∧
      ∀ fuel, log2CeilLoop (2 ^ 63 + 1) fuel 1 0 = none := by
  refine ⟨rfl, ?_, fun fuel => ?_⟩
  · rw [← Option.not_isSome_iff_eq_none, pmmAllocPages_isSome_iff]
    decide
  · exact log2CeilLoop_diverges (lt_succ_self _) fuel 1 0 (.inr ⟨0, by decide, rfl⟩)

end SlmOs.Pmm
