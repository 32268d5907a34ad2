import SlmOs.Pmm.Invariant

/-!
# Calls of the allocator

The three public entry points as one system: a call runs against the allocator
state, and the set of outstanding blocks follows what the callers were given
and gave back.
-/

namespace SlmOs.Pmm

open Foundation List Option Nat
open Prod (mk)

inductive Call where
  | allocPages (count : Nat)
  | allocPagesLow (count : Nat)
  | freePages (page count : Nat)
  deriving DecidableEq, Repr

namespace Call

def count : Call → Nat
  | allocPages n => n
  | allocPagesLow n => n
  | freePages _ n => n

/-- The new state and the returned address, which is null for a release. -/
def run (s : BuddyState) : Call → Option (BuddyState × Nat)
  | allocPages n => pmmAllocPages s n
  | allocPagesLow n => pmmAllocPagesLow s n
  | freePages p n => (pmmFreePages s p n).map fun s' => (s', 0)

end Call

def requested (addr count : Nat) : Set Block :=
  {b | b.addr = addr ∧ log2Ceil count = some b.order}

namespace Call

/-- A release must give back an outstanding block of the rounded order. -/
def Valid (out : Set Block) : Call → Prop
  | freePages p n => (requested p n ∩ out).Nonempty
  | _ => True

/-- A release of zero pages is ignored, and its block stays outstanding. -/
def outstanding (out : Set Block) (result : Nat) : Call → Set Block
  | freePages p n => if n = 0 then out else out \ requested p n
  | c => if result = 0 then out else out ∪ requested result c.count

end Call

/-! ## Detaching a block -/

variable {s : BuddyState} {fl : Nat → List Nat} {out : Set Block} {pub : Set Nat} {b : Block}

section

variable (h : Invariant s fl out pub)
include h

theorem Invariant.detach_free
    (hb : b ∈ freeBlocks fl) {m : Nat → Link Nat} {heads counts : Nat → Nat}
    (hlists : ListsOk { s with mem := m, freeLists := heads, freeCounts := counts }
      (removeFrom fl b.addr b.order)) :
    Detached { s with mem := m, freeLists := heads, freeCounts := counts }
      (removeFrom fl b.addr b.order) out b pub 0 := by
  have hnodup := h.lists.nodup b.order
  have hset := freeBlocks_removeFrom b hnodup
  have hinsert := insert_freeBlocks_removeFrom hnodup hb
  have hsub : freeBlocks (removeFrom fl b.addr b.order) ⊆ freeBlocks fl := by
    rw [hset]
    exact Set.sdiff_subset
  have horder : b.order ≤ maxOrder := h.tiling.order_le b (.inl hb)
  refine ⟨h.initialized, h.startAligned, h.null, hlists,
    h.apart.mono_left hsub, ?fresh, ?tiling, ?state, ?pages, ?coalesced⟩
  case fresh =>
    rintro (hmem | hmem)
    · rw [hset] at hmem
      exact hmem.2 rfl
    · exact Set.disjoint_left.mp h.apart hb hmem
  case tiling =>
    rw [← Set.insert_union, hinsert]
    exact h.tiling
  case state =>
    intro i hi
    refine (h.state i).trans ⟨?_, ?_⟩
    · rintro ⟨c, hc, hic⟩
      rw [← hinsert] at hc
      rcases hc with rfl | hc
      · exact absurd hic hi
      · exact ⟨c, hc, hic⟩
    rintro ⟨c, hc, hic⟩
    exact ⟨c, hsub hc, hic⟩
  case pages =>
    have htotal := freeTotal_removeFrom horder hb
    exact h.pages.trans htotal.symm
  case coalesced =>
    intro c hc hlt hbuddy
    exact h.coalesced c (hsub hc) hlt (hsub hbuddy)

theorem Invariant.detach_out (hb : b ∈ out) :
    Detached s fl (out \ {b}) b pub (orderToPages b.order) where
  initialized := h.initialized
  startAligned := h.startAligned
  null := h.null
  lists := h.lists
  apart := h.apart.mono_right Set.sdiff_subset
  fresh := by
    rintro (hmem | hmem)
    · exact Set.disjoint_left.mp h.apart hmem hb
    · exact hmem.2 rfl
  tiling := by
    rw [← Set.union_insert, Set.insert_sdiff_self_of_mem hb]
    exact h.tiling
  state := fun i _ => h.state i
  pages := congrArg (fun n => n + orderToPages b.order) h.pages
  coalesced := h.coalesced

/-! ## The scan for the lowest block -/

theorem length_le_heap (o : Nat) : (fl o).length ≤ (s.heapEnd - s.heapStart) / pageSize := by
  let index : Nat → Nat := fun a => (a - s.heapStart) / pageSize
  have hblock : ∀ a ∈ fl o, ∃ q, a = s.heapStart + pageSize * q ∧
      s.heapStart + pageSize * (q + 1) ≤ s.heapEnd := by
    intro a ha
    have hmem : (⟨a, o⟩ : Block) ∈ freeBlocks fl ∪ out := .inl ha
    have haligned := (h.tiling.aligned _ hmem).page
    have hfirst := h.tiling.inHeap _ hmem (Block.addr_mem_bytes _)
    obtain ⟨q, hq⟩ := (dvd_sub haligned h.startAligned : pageSize ∣ a - s.heapStart)
    have ha' : a = s.heapStart + pageSize * q := by
      have := hfirst.1
      change s.heapStart ≤ a at this
      omega
    -- the last byte of the first page still lies in the heap
    have hlast : a + (pageSize - 1) ∈ (⟨a, o⟩ : Block).bytes := by
      have := le_of_dvd (orderToSize_pos o) (pageSize_dvd_orderToSize o)
      rw [Block.mem_bytes]
      change a ≤ a + (pageSize - 1) ∧ a + (pageSize - 1) < a + orderToSize o
      unfold pageSize at *
      omega
    have hend := (h.tiling.inHeap _ hmem hlast).2
    refine ⟨q, ha', ?_⟩
    unfold pageSize at *
    omega
  have hinj : ((fl o).map index).Nodup := by
    refine List.Nodup.map_on ?_ (h.lists.nodup o)
    intro a ha b hb heq
    obtain ⟨q, rfl, -⟩ := hblock a ha
    obtain ⟨r, rfl, -⟩ := hblock b hb
    simp only [index, pageSize] at heq ⊢
    omega
  have hsub : (fl o).map index ⊆ List.range ((s.heapEnd - s.heapStart) / pageSize) := by
    intro i hi
    obtain ⟨a, ha, rfl⟩ := mem_map.mp hi
    obtain ⟨q, rfl, hq⟩ := hblock a ha
    simp only [index, pageSize, mem_range] at *
    omega
  simpa using (subperm_of_subset hinj hsub).length_le

end

def Best.Sound (fl : Nat → List Nat) (order : Nat) (best : Best) : Prop :=
  best.found = true → best.addr ∈ fl best.order ∧ order ≤ best.order ∧ best.order ≤ maxOrder

variable {order : Nat}

private theorem foldl_consider_sound (ho : order ≤ o) (ho' : o ≤ maxOrder) :
    ∀ (l : List Nat) (best : Best), (∀ a ∈ l, a ∈ fl o) → best.Sound fl order →
      (l.foldl (fun b a => b.consider a o) best).Sound fl order := by
  intro l
  induction l with
  | nil =>
    intro best _ hbest
    exact hbest
  | cons a l ih =>
    intro best hl hbest
    refine ih _ (fun b hb => hl b (mem_cons_of_mem _ hb)) ?_
    change Best.Sound fl order (best.consider a o)
    unfold Best.consider
    split
    · exact fun _ => ⟨hl a mem_cons_self, ho, ho'⟩
    · exact hbest

theorem scanOrders_sound (h : Invariant s fl out pub) : ∀ (orders : List Nat) (best : Best),
      (∀ o ∈ orders, order ≤ o ∧ o ≤ maxOrder) → best.Sound fl order →
      ∃ best', scanOrders s orders best = some best' ∧ best'.Sound fl order := by
  intro orders
  induction orders with
  | nil =>
    intro best _ hbest
    exact ⟨best, rfl, hbest⟩
  | cons o orders ih =>
    intro best horders hbest
    obtain ⟨ho, ho'⟩ := horders o mem_cons_self
    obtain ⟨last, hseg⟩ := h.lists.lists o ho'
    have hscan := scanList_eq (o := o) (fl o) _ _ _ last best hseg (length_le_heap h o)
    rw [scanOrders, hscan]
    exact ih _ (fun o' h' => horders o' (mem_cons_of_mem _ h'))
      (foldl_consider_sound ho ho' (fl o) best (fun _ ha => ha) hbest)

theorem scan_ok (h : Invariant s fl out pub) (order : Nat) :
    ∃ best, scanOrders s (List.range' order (maxOrder + 1 - order))
        ⟨wordModulus - 1, 0, false⟩ = some best ∧ best.Sound fl order := by
  refine scanOrders_sound h _ _ ?_ ?_
  · intro o ho
    rw [mem_range'_1] at ho
    omega
  intro hfound
  exact absurd hfound Bool.false_ne_true

/-! ## One call -/

def AllocSpec (fl : Nat → List Nat) (out : Set Block) (pub : Set Nat)
    (s : BuddyState) (count : Nat) (s' : BuddyState) (r : Nat) : Prop :=
  (r = 0 ∧ s' = s) ∨ ∃ order fl', log2Ceil count = some order ∧ r ≠ 0 ∧
      (∃ b ∈ freeBlocks fl, b.addr = r ∧ order ≤ b.order) ∧
      Invariant s' fl' (insert ⟨r, order⟩ out) pub

variable {count : Nat}

theorem buddyAlloc_ok (h : Invariant s fl out pub) (horder : log2Ceil count = some order) :
    AllocSpec fl out pub s count (if (buddyAlloc s order).2 = pmmAllocFail then
        ((buddyAlloc s order).1, 0) else buddyAlloc s order).1
      (if (buddyAlloc s order).2 = pmmAllocFail then
        ((buddyAlloc s order).1, 0) else buddyAlloc s order).2 := by
  rcases hfind : (List.range' order (maxOrder + 1 - order)).find?
      (fun o => 0 < s.freeCounts o) with _ | o
  · have hfail : buddyAlloc s order = (s, pmmAllocFail) := by
      simp [buddyAlloc, hfind]
    rw [hfail, if_pos rfl]
    exact .inl ⟨rfl, rfl⟩
  have hmem := mem_of_find?_eq_some hfind
  have hpos := find?_some hfind
  rw [mem_range'_1] at hmem
  have ho : o ≤ maxOrder := by omega
  obtain ⟨a, m, heads, counts, ha, hpop, hlists⟩ :=
    freeListPop_ok h.lists ho (of_decide_eq_true hpos)
  have hb : (⟨a, o⟩ : Block) ∈ freeBlocks fl := ha
  have hdetached := h.detach_free hb hlists
  obtain ⟨fl', hinv⟩ := takeBlock_ok hmem.1 hdetached
  have hrun : buddyAlloc s order = (takeBlock
        { s with mem := m, freeLists := heads, freeCounts := counts }
        a o order, a) := by
    simp [buddyAlloc, hfind, hpop]
  -- a block address is a multiple of the page size, the error code is not
  have hne : a ≠ pmmAllocFail := by
    obtain ⟨q, hq⟩ := (h.tiling.aligned _ (.inl hb)).page
    change a = pageSize * q at hq
    rw [hq]
    unfold pmmAllocFail wordModulus pageSize
    omega
  rw [hrun, if_neg hne]
  exact .inr ⟨order, fl', horder, hdetached.addr_ne_zero, ⟨_, hb, rfl, hmem.1⟩, hinv⟩

variable {s' : BuddyState} {r : Nat}

section

variable (h : Invariant s fl out pub)
include h

theorem pmmAllocPages_ok (hrun : pmmAllocPages s count = some (s', r)) :
    AllocSpec fl out pub s count s' r := by
  unfold pmmAllocPages at hrun
  rw [h.initialized] at hrun
  by_cases hzero : count = 0
  · rw [if_neg (by simp), if_pos hzero] at hrun
    obtain ⟨rfl, rfl⟩ := mk.inj (Option.some.inj hrun)
    exact .inl ⟨rfl, rfl⟩
  rw [if_neg (by simp), if_neg hzero, map_eq_some_iff] at hrun
  obtain ⟨order, horder, hresult⟩ := hrun
  split at hresult
  · obtain ⟨rfl, rfl⟩ := mk.inj hresult
    exact .inl ⟨rfl, rfl⟩
  have hok := buddyAlloc_ok h horder
  rw [hresult] at hok
  exact hok

theorem pmmAllocPagesLow_ok (hrun : pmmAllocPagesLow s count = some (s', r)) :
    AllocSpec fl out pub s count s' r := by
  unfold pmmAllocPagesLow at hrun
  rw [h.initialized] at hrun
  by_cases hzero : count = 0
  · rw [if_neg (by simp), if_pos hzero] at hrun
    obtain ⟨rfl, rfl⟩ := mk.inj (Option.some.inj hrun)
    exact .inl ⟨rfl, rfl⟩
  rw [if_neg (by simp), if_neg hzero] at hrun
  obtain ⟨order, horder, hrun⟩ := bind_eq_some_iff.mp hrun
  split at hrun
  · obtain ⟨rfl, rfl⟩ := mk.inj (Option.some.inj hrun)
    exact .inl ⟨rfl, rfl⟩
  obtain ⟨best, hscan, hsound⟩ := scan_ok h order
  rw [hscan, bind_eq_bind, bind_some] at hrun
  split at hrun
  · obtain ⟨rfl, rfl⟩ := mk.inj (Option.some.inj hrun)
    exact .inl ⟨rfl, rfl⟩
  rename_i hfound
  obtain ⟨hb, ho, ho'⟩ := hsound (by simpa using hfound)
  have hb : (⟨best.addr, best.order⟩ : Block) ∈ freeBlocks fl := hb
  have hdetached := h.detach_free hb (freeListRemove_ok h.lists ho' hb)
  obtain ⟨fl', hinv⟩ := takeBlock_ok ho hdetached
  obtain ⟨rfl, rfl⟩ := mk.inj (Option.some.inj hrun)
  exact .inr ⟨order, fl', horder, hdetached.addr_ne_zero, ⟨_, hb, rfl, ho⟩, hinv⟩

theorem pmmFreePages_eq (hb : b ∈ out) (hcount : count ≠ 0)
    (horder : log2Ceil count = some b.order) :
    pmmFreePages s b.addr count = some (buddyFree s b.addr b.order b.order) := by
  have hdetached := h.detach_out hb
  have haligned := hdetached.aligned
  have hrange := h.tiling.inHeap b (.inr hb) b.addr_mem_bytes
  have hpage : b.addr % pageSize = 0 := mod_eq_zero_of_dvd haligned.page
  have halignedBool : isAlignedToOrder b.addr b.order = true := by
    unfold isAlignedToOrder
    rw [beq_iff_eq]
    exact mod_eq_zero_of_dvd haligned
  have hstate : getBlockState s b.addr ≠ .free := by
    intro hfree
    have hindex := (pageAddr_mem_bytes h.startAligned haligned hrange.1
      (addrToBlockIndex s b.addr)).mpr
      ⟨Nat.le_refl _, Nat.lt_add_of_pos_right (Nat.two_pow_pos _)⟩
    obtain ⟨c, hc, hmem⟩ := (h.state _).mp hfree
    have heq := h.tiling.eq_of_mem (.inl hc) (.inr hb) hmem hindex
    exact Set.disjoint_left.mp h.apart hc (heq ▸ hb)
  have horder' : ¬b.order > maxOrder := not_lt.mpr hdetached.order_le
  have hrange' : ¬(b.addr < s.heapStart ∨ b.addr ≥ s.heapEnd) := by
    have := hrange.1
    have := hrange.2
    omega
  simp only [pmmFreePages, h.initialized, horder, hcount, hpage,
    hdetached.addr_ne_zero, halignedBool, hstate, horder', hrange',
    Bool.not_true, Bool.false_eq_true, if_false, or_false, ne_eq,
    not_true_eq_false, map_some]

theorem pmmFreePages_ok (hb : b ∈ out) (hcount : count ≠ 0) (horder : log2Ceil count = some b.order)
    (hrun : pmmFreePages s b.addr count = some s') : ∃ fl', Invariant s' fl' (out \ {b}) pub := by
  rw [pmmFreePages_eq h hb hcount horder] at hrun
  obtain rfl := Option.some.inj hrun
  exact buddyFree_ok (h.detach_out hb)

theorem call_isSome (c : Call) (hcount : c.count ≤ 2 ^ 63) : (c.run s).isSome := by
  obtain ⟨order, hlog⟩ : ∃ order, log2Ceil c.count = some order := ⟨_, log2Ceil_eq_clog hcount⟩
  cases c with
  | allocPages n =>
    change log2Ceil n = some order at hlog
    change (pmmAllocPages s n).isSome
    unfold pmmAllocPages
    rw [hlog]
    split
    · rfl
    split <;> rfl
  | allocPagesLow n =>
    change log2Ceil n = some order at hlog
    change (pmmAllocPagesLow s n).isSome
    obtain ⟨best, hscan, -⟩ := scan_ok h order
    unfold pmmAllocPagesLow
    rw [hlog]
    split
    · rfl
    split
    · rfl
    rw [bind_eq_bind, bind_some, hscan]
    split
    · rfl
    rw [bind_eq_bind, bind_some]
    split <;> rfl
  | freePages p n =>
    change log2Ceil n = some order at hlog
    change ((pmmFreePages s p n).map _).isSome
    rw [isSome_map]
    unfold pmmFreePages
    rw [hlog]
    repeat' split
    all_goals rfl

end

theorem requested_eq (h : log2Ceil count = some order) :
    requested addr count = {⟨addr, order⟩} := by
  ext b
  rw [Set.mem_singleton_iff, Block.ext_iff]
  change b.addr = addr ∧ log2Ceil count = some b.order ↔ _
  rw [h, some_inj, eq_comm (a := order)]

section

variable (h : Invariant s fl out pub)
include h

theorem AllocSpec.invariant (hspec : AllocSpec fl out pub s count s' r) :
    ∃ fl', Invariant s' fl' (if r = 0 then out else out ∪ requested r count) pub := by
  rcases hspec with ⟨rfl, rfl⟩ | ⟨order, fl', horder, hr, -, hinv⟩
  · exact ⟨fl, h⟩
  rw [if_neg hr, requested_eq horder, Set.union_singleton]
  exact ⟨fl', hinv⟩

theorem AllocSpec.fresh (hspec : AllocSpec fl out pub s count s' r) (hr : r ≠ 0) :
    ∃ b ∈ requested r count, b.Aligned ∧ b.bytes ⊆ Set.Ico s.heapStart s.heapEnd ∧
      ∀ c ∈ out, Disjoint b.bytes c.bytes := by
  rcases hspec with ⟨hr', -⟩ | ⟨order, fl', horder, -, ⟨b, hb, rfl, hle⟩, hinv⟩
  · exact absurd hr' hr
  have haligned : (⟨b.addr, order⟩ : Block).Aligned :=
    hinv.tiling.aligned _ (.inr (Set.mem_insert _ _))
  have hbAligned := h.tiling.aligned b (.inl hb)
  have hsub : (⟨b.addr, order⟩ : Block).bytes ⊆ b.bytes :=
    Block.bytes_subset_of_mem haligned hbAligned (Block.addr_mem_bytes _) b.addr_mem_bytes hle
  refine ⟨⟨b.addr, order⟩, ⟨rfl, horder⟩, haligned,
    hsub.trans (h.tiling.inHeap b (.inl hb)), fun c hc => ?_⟩
  have hne : b ≠ c := by
    rintro rfl
    exact Set.disjoint_left.mp h.apart hb hc
  exact (h.tiling.disjoint (.inl hb) (.inr hc) hne).mono_left hsub

theorem call_invariant {c : Call} (hc : c.Valid out) (hrun : c.run s = some (s', r)) :
    ∃ fl', Invariant s' fl' (c.outstanding out r) pub := by
  cases c with
  | allocPages n => exact (pmmAllocPages_ok h hrun).invariant h
  | allocPagesLow n => exact (pmmAllocPagesLow_ok h hrun).invariant h
  | freePages p n =>
    obtain ⟨b, ⟨rfl, horder⟩, hb⟩ := hc
    obtain ⟨s'', hfree, heq⟩ := map_eq_some_iff.mp hrun
    obtain ⟨rfl, rfl⟩ := mk.inj heq
    change ∃ fl', Invariant s'' fl' (if n = 0 then out else out \ requested b.addr n) pub
    by_cases hn : n = 0
    · rw [if_pos hn]
      unfold pmmFreePages at hfree
      rw [h.initialized, if_neg (by simp), if_pos (.inl hn)] at hfree
      obtain rfl := Option.some.inj hfree
      exact ⟨fl, h⟩
    rw [if_neg hn, requested_eq horder]
    exact pmmFreePages_ok h hb hn horder hfree

end

/-- The invariant, and the freshness of what is handed out, over one call. -/
theorem buddy_invariant_preserved (h : Invariant s fl out pub) (c : Call) (hc : c.Valid out) :
    (c.count ≤ 2 ^ 63 → (c.run s).isSome) ∧
    ∀ s' r, c.run s = some (s', r) → (∃ fl', Invariant s' fl' (c.outstanding out r) pub) ∧
      (r ≠ 0 → ∃ b ∈ requested r c.count, b.Aligned ∧ b.bytes ⊆ Set.Ico s.heapStart s.heapEnd ∧
        ∀ b' ∈ out, Disjoint b.bytes b'.bytes) := by
  refine ⟨call_isSome h c, fun s' r hrun => ⟨call_invariant h hc hrun, ?_⟩⟩
  intro hr
  cases c with
  | allocPages n => exact (pmmAllocPages_ok h hrun).fresh h hr
  | allocPagesLow n => exact (pmmAllocPagesLow_ok h hrun).fresh h hr
  | freePages p n =>
    obtain ⟨s'', -, heq⟩ := map_eq_some_iff.mp hrun
    exact absurd (mk.inj heq).2.symm hr

/-! ## A two-page heap -/

def twoPages : BuddyState where
  mem := fun _ => ⟨0, 0⟩
  freeLists := fun o => if o = 0 then 8192 else 0
  freeCounts := fun o => if o = 0 then 1 else 0
  heapStart := 8192
  heapEnd := 16384
  freePages := 1
  allocCount := 1
  freeCount := 0
  splitCount := 1
  mergeCount := 0
  initialized := true
  blockState := fun i => if i = 0 then .free else .allocated

def twoPagesFree : Nat → List Nat := fun o => if o = 0 then [8192] else []

theorem freeBlocks_twoPagesFree : freeBlocks twoPagesFree = {⟨8192, 0⟩} := by
  ext b
  change b.addr ∈ twoPagesFree b.order ↔ b = _
  rw [Block.ext_iff]
  unfold twoPagesFree
  split <;> simp_all

theorem listsOk_single {s : BuddyState} {order head : Nat} {l : List Nat} (ho : order ≤ maxOrder)
    (hlist : Link.IsList 0 s.mem head l) (hnodup : l.Nodup)
    (hlists : s.freeLists = fun o => if o = order then head else 0)
    (hcounts : s.freeCounts = fun o => if o = order then l.length else 0) :
    ListsOk s fun o => if o = order then l else [] where
  lists := by
    intro o _
    simp only [hlists]
    split
    · exact hlist
    · exact ⟨0, rfl, rfl⟩
  nodup := by
    intro o
    split
    · exact hnodup
    · exact nodup_nil
  counts := by
    intro o _
    simp only [hcounts]
    split <;> rfl
  above := by
    intro o habove
    exact if_neg (by omega)
  apart := by
    intro o o' a h h'
    split at h <;> split at h' <;> simp_all

theorem tiling_pair {a order hi : Nat} (ho : order ≤ maxOrder) (ha : orderToSize order ∣ a)
    (hhi : a + orderToSize order + orderToSize order = hi) :
    Tiling {⟨a, order⟩, ⟨a + orderToSize order, order⟩} a hi (Set.Ico a hi) where
  order_le := by rintro b (rfl | rfl) <;> exact ho
  aligned := by
    rintro b (rfl | rfl)
    · exact ha
    · exact dvd_add ha (dvd_refl _)
  inHeap := by
    rintro b (rfl | rfl) x ⟨hx, hx'⟩
    all_goals
      dsimp only at hx hx'
      exact ⟨by omega, by omega⟩
  disjoint := by
    have hdisj : Disjoint (⟨a, order⟩ : Block).bytes
        (⟨a + orderToSize order, order⟩ : Block).bytes :=
      Set.disjoint_left.mpr fun x hx hy => absurd hx.2 (not_lt.mpr hy.1)
    rintro b (rfl | rfl) c (rfl | rfl) hne
    · exact absurd rfl hne
    · exact hdisj
    · exact hdisj.symm
    · exact absurd rfl hne
  union := by
    rw [Set.biUnion_pair, ← hhi]
    exact Set.Ico_union_Ico_eq_Ico (le_add_right _ _) (le_add_right _ _)

theorem twoPages_invariant : Invariant twoPages twoPagesFree {⟨12288, 0⟩} (Set.Ico 8192 16384) where
  initialized := rfl
  startAligned := by decide
  null := by simp
  lists := listsOk_single (zero_le _) ⟨8192, rfl, by decide, rfl, rfl, rfl⟩ (nodup_singleton _)
    rfl rfl
  apart := by
    rw [freeBlocks_twoPagesFree]
    simp
  tiling := by
    rw [freeBlocks_twoPagesFree, Set.singleton_union]
    exact tiling_pair (zero_le _) ⟨2, rfl⟩ rfl
  state := by
    intro i
    rw [freeBlocks_twoPagesFree]
    have hmem : pageAddr twoPages i ∈ (⟨8192, 0⟩ : Block).bytes ↔ i = 0 := by
      change 8192 ≤ 8192 + i * 4096 ∧ 8192 + i * 4096 < 8192 + 4096 ↔ i = 0
      omega
    change (if i = 0 then BlockStatus.free else .allocated) = .free ↔ _
    simp only [Set.mem_singleton_iff, exists_eq_left, hmem]
    split <;> simp_all
  pages := by decide
  coalesced := by
    rw [freeBlocks_twoPagesFree]
    rintro b rfl _
    decide

theorem twoPages_release : ∃ s' r fl', (Call.freePages 12288 1).run twoPages = some (s', r) ∧
      Invariant s' fl' ({⟨12288, 0⟩} \ requested 12288 1) (Set.Ico 8192 16384) := by
  have hvalid : (Call.freePages 12288 1).Valid {⟨12288, 0⟩} := ⟨⟨12288, 0⟩, ⟨rfl, rfl⟩, rfl⟩
  obtain ⟨hreturns, hresult⟩ := buddy_invariant_preserved twoPages_invariant _ hvalid
  obtain ⟨⟨s', r⟩, hrun⟩ := isSome_iff_exists.mp (hreturns (by decide))
  obtain ⟨⟨fl', hinv⟩, -⟩ := hresult s' r hrun
  exact ⟨s', r, fl', hrun, hinv⟩

/-! ## Runs -/

inductive CallStep : BuddyState × Set Block → BuddyState × Set Block → Prop
  | call {s s' : BuddyState} {out : Set Block} {r : Nat} (c : Call)
      (hc : c.Valid out) (hrun : c.run s = some (s', r)) :
      CallStep (s, out) (s', c.outstanding out r)

end SlmOs.Pmm
