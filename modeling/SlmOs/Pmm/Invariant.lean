import SlmOs.Pmm.FreeList
import SlmOs.Pmm.Block

/-!
# The invariant of the buddy allocator

Between two calls every published page belongs to exactly one block, and the
block is either on a free list or outstanding.  While a call runs, one block is
detached from both: an allocation detaches a free block and splits it, a
release detaches an outstanding block and merges it.  Every step of the two
loops keeps `Detached`, and the two ways out of a call lead back to
`Invariant`.
-/

namespace SlmOs.Pmm

open Foundation Set

def freeBlocks (fl : Nat → List Nat) : Set Block :=
  {b | b.addr ∈ fl b.order}

def pageAddr (s : BuddyState) (i : Nat) : Nat := s.heapStart + i * pageSize

/--
`fl` are the free lists, `out` the outstanding blocks and `pub` the published
bytes.  The null page is never published.
-/
structure Invariant (s : BuddyState) (fl : Nat → List Nat) (out : Set Block)
    (pub : Set Nat) : Prop where
  initialized : s.initialized = true
  startAligned : pageSize ∣ s.heapStart
  null : 0 ∉ pub
  lists : ListsOk s fl
  apart : Disjoint (freeBlocks fl) out
  tiling : Tiling (freeBlocks fl ∪ out) s.heapStart s.heapEnd pub
  state : ∀ i, s.blockState i = .free ↔ ∃ b ∈ freeBlocks fl, pageAddr s i ∈ b.bytes
  pages : s.freePages = freeTotal fl
  coalesced : ∀ b ∈ freeBlocks fl, b.order < maxOrder → b.buddy ∉ freeBlocks fl

/--
The state inside a call.  The block `x` is neither free nor outstanding, the
page states inside it mean nothing, and `k` of its pages are not counted in
`free_pages`.
-/
structure Detached (s : BuddyState) (fl : Nat → List Nat) (out : Set Block)
    (x : Block) (pub : Set Nat) (k : Nat) : Prop where
  initialized : s.initialized = true
  startAligned : pageSize ∣ s.heapStart
  null : 0 ∉ pub
  lists : ListsOk s fl
  apart : Disjoint (freeBlocks fl) out
  fresh : x ∉ freeBlocks fl ∪ out
  tiling : Tiling (insert x (freeBlocks fl ∪ out)) s.heapStart s.heapEnd pub
  state : ∀ i, pageAddr s i ∉ x.bytes → (s.blockState i = .free ↔
    ∃ b ∈ freeBlocks fl, pageAddr s i ∈ b.bytes)
  pages : s.freePages + k = freeTotal fl + orderToPages x.order
  coalesced : ∀ b ∈ freeBlocks fl, b.order < maxOrder → b.buddy ∉ freeBlocks fl

/-! ## Free blocks after a list operation -/

theorem freeBlocks_addTo (fl : Nat → List Nat) (b : Block) :
    freeBlocks (addTo fl b.addr b.order) = insert b (freeBlocks fl) := by
  ext c
  change c.addr ∈ addTo fl b.addr b.order c.order ↔ _
  rw [mem_addTo, mem_insert_iff, Block.ext_iff, or_comm]
  rfl

theorem freeBlocks_removeFrom {fl : Nat → List Nat} (b : Block) (h : (fl b.order).Nodup) :
    freeBlocks (removeFrom fl b.addr b.order) = freeBlocks fl \ {b} := by
  ext c
  change c.addr ∈ removeFrom fl b.addr b.order c.order ↔ _
  rw [mem_removeFrom h, mem_sdiff, mem_singleton_iff, Block.ext_iff]
  rfl

variable {b : Block}

theorem insert_freeBlocks_removeFrom {fl : Nat → List Nat}
    (h : (fl b.order).Nodup) (hb : b ∈ freeBlocks fl) :
    insert b (freeBlocks (removeFrom fl b.addr b.order)) = freeBlocks fl := by
  rw [freeBlocks_removeFrom b h]
  exact insert_sdiff_self_of_mem hb

/-! ## Page states -/

theorem fillStatus_apply (status : BlockStatus) (base : Nat) (f : Nat → BlockStatus) (n j : Nat) :
    fillStatus status base f n j =
      if base ≤ j ∧ j < base + n then status else f j := by
  induction n with
  | zero => rw [fillStatus, if_neg (by omega)]
  | succ n ih =>
    rw [fillStatus, Function.update_apply, ih]
    by_cases h : j = base + n
    · rw [if_pos h, if_pos (by omega)]
    rw [if_neg h]
    exact if_congr (by omega) rfl rfl

theorem pageAddr_mem_bytes (hstart : pageSize ∣ s.heapStart) (hb : b.Aligned)
    (hle : s.heapStart ≤ b.addr) (i : Nat) :
    pageAddr s i ∈ b.bytes ↔ addrToBlockIndex s b.addr ≤ i ∧
        i < addrToBlockIndex s b.addr + orderToPages b.order := by
  obtain ⟨q, hq⟩ := hstart
  obtain ⟨r, hr⟩ := hb.page
  rw [Block.mem_bytes]
  unfold pageAddr addrToBlockIndex orderToSize
  unfold pageSize at *
  omega

theorem setBlockState_of_mem (hstart : pageSize ∣ s.heapStart) (hb : b.Aligned)
    (hle : s.heapStart ≤ b.addr) (hi : pageAddr s i ∈ b.bytes) :
    (setBlockState s b.addr b.order status).blockState i = status := by
  rw [pageAddr_mem_bytes hstart hb hle] at hi
  exact (fillStatus_apply _ _ _ _ _).trans (if_pos hi)

theorem setBlockState_of_not_mem (hstart : pageSize ∣ s.heapStart) (hb : b.Aligned)
    (hle : s.heapStart ≤ b.addr) (hi : pageAddr s i ∉ b.bytes) :
    (setBlockState s b.addr b.order status).blockState i = s.blockState i := by
  rw [pageAddr_mem_bytes hstart hb hle] at hi
  exact (fillStatus_apply _ _ _ _ _).trans (if_neg hi)

/-! ## The detached block -/

namespace Detached

variable {s : BuddyState} {fl : Nat → List Nat} {out : Set Block}
  {x : Block} {pub : Set Nat} {k : Nat}

section

variable (h : Detached s fl out x pub k)
include h

theorem aligned : x.Aligned := h.tiling.aligned x (mem_insert _ _)

theorem order_le : x.order ≤ maxOrder := h.tiling.order_le x (mem_insert _ _)

theorem start_le : s.heapStart ≤ x.addr := (h.tiling.inHeap x (mem_insert _ _) x.addr_mem_bytes).1

theorem addr_ne_zero : x.addr ≠ 0 := by
  intro hzero
  apply h.null
  rw [← hzero]
  exact h.tiling.subset_pub (mem_insert _ _) x.addr_mem_bytes

theorem not_mem_bytes (hb : b ∈ freeBlocks fl ∪ out) (hx : y ∈ x.bytes) : y ∉ b.bytes := by
  intro hy
  have heq := h.tiling.eq_of_mem (mem_insert _ _) (mem_insert_of_mem _ hb) hx hy
  exact h.fresh (heq ▸ hb)

theorem addr_not_mem (ha : a ∈ x.bytes) (o : Nat) : a ∉ fl o := by
  intro hmem
  have hb : (⟨a, o⟩ : Block) ∈ freeBlocks fl ∪ out := .inl hmem
  exact h.not_mem_bytes hb ha (Block.addr_mem_bytes _)

end

end Detached

/-! ## Splitting -/

def splitOnce (s : BuddyState) (a o : Nat) : BuddyState :=
  freeListAdd (setBlockState { s with splitCount := s.splitCount + 1 }
      (a + orderToSize o) o .free) (a + orderToSize o) o

theorem Detached.split {fl : Nat → List Nat} (h : Detached s fl out ⟨a, o + 1⟩ pub k) :
    Detached (splitOnce s a o) (addTo fl (a + orderToSize o) o) out ⟨a, o⟩ pub k := by
  have hx := h.aligned
  have hupper : (⟨a + orderToSize o, o⟩ : Block).bytes ⊆ (⟨a, o + 1⟩ : Block).bytes := by
    rw [Block.bytes_halves]
    exact subset_union_right
  have hupperMem : a + orderToSize o ∈ (⟨a, o + 1⟩ : Block).bytes :=
    hupper (Block.addr_mem_bytes ⟨a + orderToSize o, o⟩)
  have hlowerMem : a ∈ (⟨a, o + 1⟩ : Block).bytes := Block.addr_mem_bytes ⟨a, o + 1⟩
  have ho : o ≤ maxOrder := (Nat.le_succ o).trans h.order_le
  have hbuddy := Block.buddy_lower hx
  have hfree : freeBlocks (addTo fl (a + orderToSize o) o) =
      insert ⟨a + orderToSize o, o⟩ (freeBlocks fl) :=
    freeBlocks_addTo fl ⟨a + orderToSize o, o⟩
  have hle : s.heapStart ≤ a + orderToSize o := h.start_le.trans (Nat.le_add_right _ _)
  have hpos := orderToSize_pos o
  refine ⟨h.initialized, h.startAligned, h.null, ?lists, ?apart, ?fresh,
    ?tiling, ?state, ?pages, ?coalesced⟩
  case lists =>
    have hlists : ListsOk (setBlockState { s with splitCount := s.splitCount + 1 }
          (a + orderToSize o) o .free) fl := { h.lists with }
    exact freeListAdd_ok hlists ho (by omega) (h.addr_not_mem hupperMem)
  case apart =>
    rw [hfree, disjoint_insert_left]
    refine ⟨fun hout => ?_, h.apart⟩
    exact h.not_mem_bytes (.inr hout) hupperMem (Block.addr_mem_bytes _)
  case fresh =>
    rw [hfree, insert_union, mem_insert_iff]
    rintro (heq | hmem)
    · have : a = a + orderToSize o := congrArg Block.addr heq
      omega
    · exact h.not_mem_bytes hmem hlowerMem (Block.addr_mem_bytes _)
  case tiling =>
    rw [hfree, insert_union]
    exact h.tiling.split h.fresh
  case state =>
    intro i hi
    rw [hfree]
    by_cases hu : pageAddr s i ∈ (⟨a + orderToSize o, o⟩ : Block).bytes
    · refine iff_of_true ?_ ⟨_, mem_insert _ _, hu⟩
      exact setBlockState_of_mem (s := { s with splitCount := s.splitCount + 1 })
        h.startAligned hx.upper hle hu
    have hout : pageAddr s i ∉ (⟨a, o + 1⟩ : Block).bytes := by
      rw [Block.bytes_halves]
      exact fun hmem => hmem.elim hi hu
    have hkeep : (splitOnce s a o).blockState i = s.blockState i :=
      setBlockState_of_not_mem (s := { s with splitCount := s.splitCount + 1 })
        h.startAligned hx.upper hle hu
    rw [hkeep, h.state i hout]
    constructor
    · rintro ⟨b, hb, hib⟩
      exact ⟨b, mem_insert_of_mem _ hb, hib⟩
    rintro ⟨b, rfl | hb, hib⟩
    · exact absurd hib hu
    · exact ⟨b, hb, hib⟩
  case pages =>
    have hpages : s.freePages + k = freeTotal fl + 2 ^ (o + 1) := h.pages
    change s.freePages + k = _ + 2 ^ o
    rw [freeTotal_addTo ho, hpages, pow_succ]
    omega
  case coalesced =>
    -- the new free block's buddy is the half that stays detached
    have hno : (⟨a, o⟩ : Block) ∉ freeBlocks fl := fun hmem =>
      h.not_mem_bytes (.inl hmem) hlowerMem (Block.addr_mem_bytes _)
    have hself : (⟨a, o⟩ : Block) ≠ ⟨a + orderToSize o, o⟩ := by
      intro heq
      have : a = a + orderToSize o := congrArg Block.addr heq
      omega
    rw [hfree]
    rintro b (rfl | hb) horder (heq | hmem)
    · rw [← hbuddy, Block.buddy_buddy] at heq
      exact hself (heq.trans hbuddy)
    · rw [← hbuddy, Block.buddy_buddy] at hmem
      exact hno hmem
    · rw [← hbuddy] at heq
      have : b = ⟨a, o⟩ := by rw [← b.buddy_buddy, heq, Block.buddy_buddy]
      exact hno (this ▸ hb)
    · exact h.coalesced b hb horder hmem

theorem splitDown_detached :
    ∀ (o : Nat) (s : BuddyState) (fl : Nat → List Nat), order ≤ o → Detached s fl out ⟨a, o⟩ pub k →
      ∃ fl', Detached (splitDown order a o s) fl' out ⟨a, order⟩ pub k := by
  intro o
  induction o with
  | zero =>
    intro s fl ho h
    obtain rfl : order = 0 := by omega
    exact ⟨fl, h⟩
  | succ o ih =>
    intro s fl ho h
    by_cases hgt : o + 1 > order
    · rw [splitDown, if_pos hgt]
      exact ih _ _ (by omega) h.split
    obtain rfl : order = o + 1 := by omega
    rw [splitDown, if_neg hgt]
    exact ⟨fl, h⟩

theorem Detached.hand_out {fl : Nat → List Nat} (h : Detached s fl out x pub 0) : Invariant
      { setBlockState s x.addr x.order .allocated with
        freePages := s.freePages - orderToPages x.order
        allocCount := s.allocCount + 1 }
      fl (insert x out) pub where
  initialized := h.initialized
  startAligned := h.startAligned
  null := h.null
  lists := { h.lists with }
  apart := by
    rw [disjoint_insert_right]
    exact ⟨fun hmem => h.fresh (.inl hmem), h.apart⟩
  tiling := by
    rw [union_insert]
    exact h.tiling
  state := by
    intro i
    by_cases hi : pageAddr s i ∈ x.bytes
    · rw [setBlockState_of_mem h.startAligned h.aligned h.start_le hi]
      refine iff_of_false BlockStatus.noConfusion ?_
      rintro ⟨b, hb, hib⟩
      exact h.not_mem_bytes (.inl hb) hi hib
    rw [setBlockState_of_not_mem h.startAligned h.aligned h.start_le hi]
    exact h.state i hi
  pages := by
    have hpages := h.pages
    change s.freePages - orderToPages x.order = freeTotal fl
    omega
  coalesced := h.coalesced

theorem takeBlock_ok {fl : Nat → List Nat} (ho : order ≤ o) (h : Detached s fl out ⟨a, o⟩ pub 0) :
    ∃ fl', Invariant (takeBlock s a o order) fl' (insert ⟨a, order⟩ out)
      pub := by
  obtain ⟨fl', h'⟩ := splitDown_detached o s fl ho h
  exact ⟨fl', h'.hand_out⟩

/-! ## Merging -/

namespace Detached

variable {s : BuddyState} {fl : Nat → List Nat} {out : Set Block}
  {x : Block} {pub : Set Nat} {k : Nat}

section

variable (h : Detached s fl out x pub k)
include h

theorem cover_of_isBuddyFree (hbuddy : isBuddyFree s x.buddy.addr x.order = true)
    (hy : y ∈ x.buddy.bytes) : ∃ b ∈ freeBlocks fl, y ∈ b.bytes := by
  unfold isBuddyFree at hbuddy
  split at hbuddy
  · exact absurd hbuddy Bool.false_ne_true
  rename_i hrange
  have hle : s.heapStart ≤ x.buddy.addr := by omega
  have haligned := h.aligned.buddy
  -- the page of `y` has an index in the range that was checked
  have hpage := (Block.page_mem_bytes haligned).mpr hy
  obtain ⟨q, hq⟩ := h.startAligned
  have hindex : pageAddr s (y / pageSize - q) = y / pageSize * pageSize := by
    have hge := hle.trans hpage.1
    unfold pageAddr
    unfold pageSize at *
    omega
  rw [← hindex] at hpage
  have hrange' := (pageAddr_mem_bytes h.startAligned haligned hle _).mp hpage
  have hfree : s.blockState (y / pageSize - q) = .free := by
    obtain ⟨hge, hlt⟩ := hrange'
    obtain ⟨i, hi⟩ := Nat.exists_eq_add_of_le hge
    rw [hi] at hlt ⊢
    rw [List.all_eq_true] at hbuddy
    exact eq_of_beq (hbuddy i (List.mem_range.mpr (Nat.lt_of_add_lt_add_left hlt)))
  have hnotx : pageAddr s (y / pageSize - q) ∉ x.bytes := fun hmem =>
    disjoint_left.mp (Block.disjoint_buddy h.aligned) hmem hpage
  obtain ⟨b, hb, hmem⟩ := (h.state _ hnotx).mp hfree
  rw [hindex] at hmem
  have hbAligned := h.tiling.aligned b (.inr (.inl hb))
  exact ⟨b, hb, (Block.page_mem_bytes hbAligned).mp hmem⟩

/--
`is_buddy_free` only reads page states, yet it accepts nothing but free blocks
of the right order: the free blocks are coalesced, so the pages of a larger
free area around the buddy would have to include the detached block.
-/
theorem isBuddyFree_iff (ho : x.order < maxOrder) :
    isBuddyFree s x.buddy.addr x.order = true ↔ x.buddy ∈ freeBlocks fl := by
  have hfreeAligned : ∀ b ∈ freeBlocks fl, b.Aligned := fun b hb =>
    h.tiling.aligned b (.inr (.inl hb))
  have haligned := h.aligned.buddy
  constructor
  · intro hfree
    obtain ⟨b, hb, hsub⟩ := Block.exists_superset hfreeAligned h.coalesced
      haligned ho.le fun _ hy => h.cover_of_isBuddyFree hfree hy
    have hbAligned := hfreeAligned b hb
    have hmem := x.buddy.addr_mem_bytes
    have hle := Block.order_le_of_subset haligned hbAligned hsub
    rcases Nat.eq_or_lt_of_le hle with heq | hlt
    · have : x.buddy = b := Block.eq_of_mem haligned hbAligned hmem (hsub hmem) heq
      rwa [this]
    -- a larger free block would contain the parent, hence `x`
    have hparent : x.buddy.addr ∈ x.merged.bytes := by
      rw [Block.bytes_merged h.aligned]
      exact .inr hmem
    have hsubset := Block.bytes_subset_of_mem h.aligned.merged hbAligned hparent (hsub hmem) hlt
    rw [Block.bytes_merged h.aligned] at hsubset
    exact absurd (hsubset (.inl x.addr_mem_bytes)) (h.not_mem_bytes (.inl hb) x.addr_mem_bytes)
  intro hb
  have hinHeap := h.tiling.inHeap x.buddy (.inr (.inl hb))
  have hrange := hinHeap x.buddy.addr_mem_bytes
  unfold isBuddyFree
  rw [if_neg (by have := hrange.1; have := hrange.2; omega), List.all_eq_true]
  intro i hi
  have hmem := (pageAddr_mem_bytes h.startAligned haligned hrange.1
    (addrToBlockIndex s x.buddy.addr + i)).mpr
    ⟨Nat.le_add_right _ _, Nat.add_lt_add_left (List.mem_range.mp hi) _⟩
  have hnotx : pageAddr s (addrToBlockIndex s x.buddy.addr + i) ∉ x.bytes :=
    fun hx => h.not_mem_bytes (.inl hb) hx hmem
  rw [beq_iff_eq]
  exact (h.state _ hnotx).mpr ⟨x.buddy, hb, hmem⟩

theorem merge (ho : x.order < maxOrder) (hb : x.buddy ∈ freeBlocks fl) : Detached
      { freeListRemove s x.buddy.addr x.order with
        mergeCount := s.mergeCount + 1 }
      (removeFrom fl x.buddy.addr x.order) out x.merged pub k := by
  have hnodup : (fl x.buddy.order).Nodup := h.lists.nodup _
  have hset : freeBlocks (removeFrom fl x.buddy.addr x.order) =
      freeBlocks fl \ {x.buddy} := freeBlocks_removeFrom x.buddy hnodup
  have hinsert : insert x.buddy (freeBlocks (removeFrom fl x.buddy.addr x.order)) = freeBlocks fl :=
    insert_freeBlocks_removeFrom hnodup hb
  have hsub : freeBlocks (removeFrom fl x.buddy.addr x.order) ⊆ freeBlocks fl := by
    rw [hset]
    exact sdiff_subset
  have hxMerged : x.addr ∈ x.merged.bytes := by
    rw [Block.bytes_merged h.aligned]
    exact .inl x.addr_mem_bytes
  refine ⟨h.initialized, h.startAligned, h.null, ?lists, ?apart, ?fresh,
    ?tiling, ?state, ?pages, ?coalesced⟩
  case lists =>
    exact { freeListRemove_ok h.lists ho.le hb with }
  case apart =>
    exact h.apart.mono_left hsub
  case fresh =>
    rintro (hmem | hmem)
    · exact h.not_mem_bytes (.inl (hsub hmem)) x.addr_mem_bytes hxMerged
    · exact h.not_mem_bytes (.inr hmem) x.addr_mem_bytes hxMerged
  case tiling =>
    have htiling := h.tiling
    rw [← hinsert, insert_union] at htiling
    refine htiling.merge ?_ ?_ ho
    · rintro (hmem | hmem)
      · exact h.fresh (.inl (hsub hmem))
      · exact h.fresh (.inr hmem)
    rintro (hmem | hmem)
    · rw [hset] at hmem
      exact hmem.2 rfl
    · exact disjoint_left.mp h.apart hb hmem
  case state =>
    intro i hi
    rw [Block.bytes_merged h.aligned, mem_union, not_or] at hi
    change s.blockState i = .free ↔ ∃ b : Block, b ∈ _ ∧ pageAddr s i ∈ b.bytes
    rw [h.state i hi.1]
    constructor
    · rintro ⟨b, hmem, hib⟩
      rw [← hinsert] at hmem
      rcases hmem with rfl | hmem
      · exact absurd hib hi.2
      · exact ⟨b, hmem, hib⟩
    rintro ⟨b, hmem, hib⟩
    exact ⟨b, hsub hmem, hib⟩
  case pages =>
    have hpages : s.freePages + k = freeTotal fl + 2 ^ x.order := h.pages
    have htotal := freeTotal_removeFrom ho.le hb
    change s.freePages + k = _ + 2 ^ (x.order + 1)
    rw [pow_succ]
    omega
  case coalesced =>
    intro b hmem horder hbuddy
    exact h.coalesced b (hsub hmem) horder (hsub hbuddy)

theorem put_back (hlast : x.order < maxOrder → x.buddy ∉ freeBlocks fl) : Invariant
      { freeListAdd (setBlockState s x.addr x.order .free) x.addr x.order with
        freePages := s.freePages + k
        freeCount := s.freeCount + 1 }
      (addTo fl x.addr x.order) out pub where
  initialized := h.initialized
  startAligned := h.startAligned
  null := h.null
  lists := by
    have hlists : ListsOk (setBlockState s x.addr x.order .free) fl :=
      { h.lists with }
    exact { freeListAdd_ok hlists h.order_le h.addr_ne_zero (h.addr_not_mem x.addr_mem_bytes) with }
  apart := by
    rw [freeBlocks_addTo, disjoint_insert_left]
    exact ⟨fun hmem => h.fresh (.inr hmem), h.apart⟩
  tiling := by
    rw [freeBlocks_addTo, insert_union]
    exact h.tiling
  state := by
    intro i
    rw [freeBlocks_addTo]
    change (setBlockState s x.addr x.order .free).blockState i = .free ↔
      ∃ b : Block, b ∈ _ ∧ pageAddr s i ∈ b.bytes
    by_cases hi : pageAddr s i ∈ x.bytes
    · rw [setBlockState_of_mem h.startAligned h.aligned h.start_le hi]
      exact iff_of_true rfl ⟨x, mem_insert _ _, hi⟩
    rw [setBlockState_of_not_mem h.startAligned h.aligned h.start_le hi, h.state i hi]
    constructor
    · rintro ⟨b, hb, hib⟩
      exact ⟨b, mem_insert_of_mem _ hb, hib⟩
    rintro ⟨b, rfl | hb, hib⟩
    · exact absurd hib hi
    · exact ⟨b, hb, hib⟩
  pages := by
    rw [freeTotal_addTo h.order_le, h.pages]
    rfl
  coalesced := by
    have hne : x.buddy ≠ x := by
      intro heq
      have hdisj := Block.disjoint_buddy h.aligned
      rw [heq] at hdisj
      exact disjoint_left.mp hdisj x.addr_mem_bytes x.addr_mem_bytes
    rw [freeBlocks_addTo]
    rintro b (rfl | hb) horder (heq | hmem)
    · exact hne heq
    · exact hlast horder hmem
    · have hbx : b = x.buddy := by rw [← b.buddy_buddy, heq]
      have hlt : x.order < maxOrder := by rwa [hbx] at horder
      exact hlast hlt (hbx ▸ hb)
    · exact h.coalesced b hb horder hmem

end

end Detached

theorem coalesce_detached : ∀ (n : Nat) (s : BuddyState) (fl : Nat → List Nat) (x : Block),
      x.order + n = maxOrder → Detached s fl out x pub k →
      ∃ s' fl' x', coalesce n s x.addr x.order = (s', x'.addr, x'.order) ∧
        Detached s' fl' out x' pub k ∧
        (x'.order < maxOrder → x'.buddy ∉ freeBlocks fl') := by
  intro n
  induction n with
  | zero =>
    intro s fl x hn h
    exact ⟨s, fl, x, rfl, h, fun hlt => by omega⟩
  | succ n ih =>
    intro s fl x hn h
    have ho : x.order < maxOrder := by omega
    have hiff := h.isBuddyFree_iff ho
    have hdvd : isAlignedToOrder (if x.addr < x.buddy.addr then x.addr else x.buddy.addr)
        (x.order + 1) = true := by
      unfold isAlignedToOrder
      rw [beq_iff_eq]
      exact Nat.mod_eq_zero_of_dvd h.aligned.merged
    by_cases hfree : isBuddyFree s x.buddy.addr x.order = true
    · obtain ⟨s', fl', x', hrun, h', hlast⟩ :=
        ih _ _ x.merged (by change x.order + 1 + n = _; omega) (h.merge ho (hiff.mp hfree))
      refine ⟨s', fl', x', ?_, h', hlast⟩
      rw [← hrun, coalesce]
      change (if (!isBuddyFree s x.buddy.addr x.order) = true then _
        else if (!isAlignedToOrder (if x.addr < x.buddy.addr then x.addr else x.buddy.addr)
          (x.order + 1)) = true then _ else _) = _
      rw [hfree, hdvd]
      rfl
    refine ⟨s, fl, x, ?_, h, fun _ hmem => hfree (hiff.mpr hmem)⟩
    rw [coalesce]
    change (if (!isBuddyFree s x.buddy.addr x.order) = true then _
      else _) = _
    rw [Bool.eq_false_iff.mpr hfree]
    rfl

theorem buddyFree_ok {fl : Nat → List Nat} (h : Detached s fl out x pub (orderToPages x.order)) :
    ∃ fl', Invariant (buddyFree s x.addr x.order x.order) fl' out pub := by
  have horder := h.order_le
  obtain ⟨s', fl', x', hrun, h', hlast⟩ :=
    coalesce_detached (maxOrder - x.order) s fl x (by omega) h
  refine ⟨addTo fl' x'.addr x'.order, ?_⟩
  unfold buddyFree
  rw [hrun]
  exact h'.put_back hlast

end SlmOs.Pmm
