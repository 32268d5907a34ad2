import SlmOs.Pmm.Calls

/-!
# The order of releases

A coalesced family of free blocks is determined by the bytes that it covers.  So the
allocator is back in the state it was in, up to the order of its free lists, once
everything that was allocated has been released, whatever the order.
-/

namespace SlmOs.Pmm

open Foundation Call Block Option Prod Set

variable {s s' : BuddyState} {fl fl' : Nat → List Nat} {out : Set Block} {pub : Set Nat}

/-! ## Two coalesced families -/

section

variable (h : Invariant s fl out pub)
include h

theorem Invariant.covered_iff :
    (∃ b ∈ freeBlocks fl, y ∈ b.bytes) ↔ y ∈ pub ∧ ∀ c ∈ out, y ∉ c.bytes := by
  constructor
  · rintro ⟨b, hb, hy⟩
    refine ⟨h.tiling.subset_pub (.inl hb) hy, fun c hc hyc => ?_⟩
    obtain rfl := h.tiling.eq_of_mem (.inl hb) (.inr hc) hy hyc
    exact disjoint_left.mp h.apart hb hc
  rintro ⟨hy, hout⟩
  rw [← h.tiling.union] at hy
  obtain ⟨b, hb | hb, hyb⟩ := mem_iUnion₂.mp hy
  · exact ⟨b, hb, hyb⟩
  · exact absurd hyb (hout b hb)

section

variable (h' : Invariant s' fl' out pub)
include h'

theorem Invariant.exists_superset
    (hb : b ∈ freeBlocks fl) : ∃ c ∈ freeBlocks fl', b.bytes ⊆ c.bytes :=
  Block.exists_superset (fun c hc => h'.tiling.aligned c (.inl hc)) h'.coalesced
    (h.tiling.aligned b (.inl hb)) (h.tiling.order_le b (.inl hb))
    fun _ hy => h'.covered_iff.mpr (h.covered_iff.mp ⟨b, hb, hy⟩)

theorem Invariant.freeBlocks_subset : freeBlocks fl ⊆ freeBlocks fl' := by
  intro b hb
  obtain ⟨c, hc, hbc⟩ := h.exists_superset h' hb
  obtain ⟨d, hd, hcd⟩ := h'.exists_superset h hc
  -- the block around `c` shares a byte with `b`, so the three are one
  obtain rfl := h.tiling.eq_of_mem (.inl hb) (.inl hd) b.addr_mem_bytes (hcd (hbc b.addr_mem_bytes))
  have hbAligned := h.tiling.aligned b (.inl hb)
  have hcAligned := h'.tiling.aligned c (.inl hc)
  have horder : b.order = c.order := le_antisymm (order_le_of_subset hbAligned hcAligned hbc)
      (order_le_of_subset hcAligned hbAligned hcd)
  obtain rfl := eq_of_mem hbAligned hcAligned b.addr_mem_bytes (hbc b.addr_mem_bytes) horder
  exact hc

theorem Invariant.lists_perm (o : Nat) : (fl' o).Perm (fl o) := by
  refine (List.perm_ext_iff_of_nodup (h'.lists.nodup o) (h.lists.nodup o)).mpr fun a => ?_
  exact Set.ext_iff.mp ((h'.freeBlocks_subset h).antisymm (h.freeBlocks_subset h')) ⟨a, o⟩

end

end

theorem freeTotal_perm (h : ∀ o, (fl' o).Perm (fl o)) : freeTotal fl' = freeTotal fl := by
  exact Finset.sum_congr rfl fun o _ => by rw [(h o).length_eq]

/-! ## Pages that a call does not touch -/

structure Touches (X : Set Nat) (s s' : BuddyState) : Prop where
  start : s'.heapStart = s.heapStart
  state : ∀ i, pageAddr s i ∉ X → s'.blockState i = s.blockState i

theorem Touches.refl (X : Set Nat) (s : BuddyState) : Touches X s s := ⟨rfl, fun _ _ => rfl⟩

variable {X : Set Nat}

theorem Touches.trans (h : Touches X s t) (h' : Touches X t s') : Touches X s s' where
  start := h'.start.trans h.start
  state i hi := by
    rw [h'.state i (by rwa [pageAddr, h.start]), h.state i hi]

theorem Touches.of_same (h : Touches X t s') (hstart : t.heapStart = s.heapStart)
    (hstate : t.blockState = s.blockState) : Touches X s s' :=
  Touches.trans ⟨hstart, fun _ _ => by rw [hstate]⟩ h

theorem Touches.mono (h : Touches X s s') (hXY : X ⊆ Y) : Touches Y s s' :=
  ⟨h.start, fun i hi => h.state i fun hX => hi (hXY hX)⟩

theorem setBlockState_touches {b : Block} (hstart : pageSize ∣ s.heapStart) (hb : b.Aligned)
    (hle : s.heapStart ≤ b.addr) (status : BlockStatus) :
    Touches b.bytes s (setBlockState s b.addr b.order status) :=
  ⟨rfl, fun _ hi => setBlockState_of_not_mem hstart hb hle hi⟩

variable {a order : Nat}

theorem splitDown_touches : ∀ (o : Nat) (s : BuddyState), pageSize ∣ s.heapStart → s.heapStart ≤ a →
      (⟨a, o⟩ : Block).Aligned → Touches (⟨a, o⟩ : Block).bytes s (splitDown order a o s) := by
  intro o
  induction o with
  | zero => exact fun s _ _ _ => .refl _ s
  | succ o ih =>
    intro s hstart hle haligned
    rw [splitDown]
    split
    case isFalse => exact .refl _ s
    case isTrue =>
      rw [bytes_halves]
      have hset := setBlockState_touches (s := { s with splitCount := s.splitCount + 1 }) hstart
        haligned.upper (hle.trans (Nat.le_add_right _ _)) .free
      have hupper : Touches (⟨a + orderToSize o, o⟩ : Block).bytes s (splitOnce s a o) :=
        ⟨rfl, hset.state⟩
      exact (hupper.mono subset_union_right).trans
        ((ih (splitOnce s a o) hstart hle haligned.lower).mono subset_union_left)

theorem takeBlock_touches {o : Nat} (ho : order ≤ o) (hstart : pageSize ∣ s.heapStart)
    (hle : s.heapStart ≤ a) (haligned : (⟨a, o⟩ : Block).Aligned) :
    Touches (⟨a, o⟩ : Block).bytes s (takeBlock s a o order) := by
  have hsplit : Touches (⟨a, o⟩ : Block).bytes s (splitDown order a o s) :=
    splitDown_touches o s hstart hle haligned
  have hpart : (⟨a, order⟩ : Block).Aligned := (orderToSize_dvd ho).trans haligned
  have hsub : (⟨a, order⟩ : Block).bytes ⊆ (⟨a, o⟩ : Block).bytes :=
    bytes_subset_of_mem hpart haligned (addr_mem_bytes _) (addr_mem_bytes _) ho
  have hset := setBlockState_touches (s := splitDown order a o s) (by rwa [hsplit.start]) hpart
    (by rwa [hsplit.start]) .allocated
  exact hsplit.trans ⟨rfl, (hset.mono hsub).state⟩

theorem coalesce_touches (X : Set Nat) :
    ∀ (n : Nat) (s : BuddyState) (a o : Nat), Touches X s (coalesce n s a o).1 := by
  intro n
  induction n with
  | zero => exact fun s _ _ => .refl X s
  | succ n ih =>
    intro s a o
    rw [coalesce]
    split
    · exact .refl X s
    generalize (if a < getBuddyAddr a o then a else getBuddyAddr a o) = merged
    dsimp only
    split
    · exact .refl X s
    · exact (ih ..).of_same rfl rfl

/-! ## Calls -/

def freeBytes (fl : Nat → List Nat) : Set Nat := {y | ∃ b ∈ freeBlocks fl, y ∈ b.bytes}

theorem Invariant.takeBlock_touches (h : Invariant s fl out pub)
    (ha : a ∈ fl o) (ho : order ≤ o) {m : Nat → Link Nat} {heads counts : Nat → Nat} :
    Touches (freeBytes fl) s (takeBlock
      { s with mem := m, freeLists := heads, freeCounts := counts } a o order) := by
  have hb : (⟨a, o⟩ : Block) ∈ freeBlocks fl := ha
  have hle := (h.tiling.inHeap _ (.inl hb) (addr_mem_bytes _)).1
  have htake := Pmm.takeBlock_touches (s := { s with
    mem := m, freeLists := heads, freeCounts := counts }) ho h.startAligned hle
    (h.tiling.aligned _ (.inl hb))
  have hsub : (⟨a, o⟩ : Block).bytes ⊆ freeBytes fl := fun y hy => ⟨_, hb, hy⟩
  exact (htake.mono hsub).of_same rfl rfl

theorem buddyAlloc_touches (h : Invariant s fl out pub) (order : Nat) :
    Touches (freeBytes fl) s (buddyAlloc s order).1 := by
  rcases hfind : (List.range' order (maxOrder + 1 - order)).find?
      (fun o => 0 < s.freeCounts o) with _ | o
  · simp only [buddyAlloc, hfind]
    exact .refl _ s
  have hmem := List.mem_of_find?_eq_some hfind
  have hpos := List.find?_some hfind
  rw [List.mem_range'_1] at hmem
  obtain ⟨a, m, heads, counts, ha, hpop, -⟩ :=
    freeListPop_ok h.lists (show o ≤ maxOrder by omega) (of_decide_eq_true hpos)
  simp only [buddyAlloc, hfind, hpop]
  exact h.takeBlock_touches ha hmem.1

variable {r : Nat}

section

variable (h : Invariant s fl out pub)
include h

theorem pmmAllocPages_touches {count : Nat}
    (hrun : pmmAllocPages s count = some (s', r)) : Touches (freeBytes fl) s s' := by
  unfold pmmAllocPages at hrun
  split_ifs at hrun
  · obtain ⟨rfl, -⟩ := mk.inj (some.inj hrun)
    exact .refl _ _
  · obtain ⟨rfl, -⟩ := mk.inj (some.inj hrun)
    exact .refl _ _
  obtain ⟨order, -, hresult⟩ := map_eq_some_iff.mp hrun
  have halloc := buddyAlloc_touches h order
  split at hresult
  · obtain ⟨rfl, -⟩ := mk.inj hresult
    exact .refl _ _
  dsimp only at hresult
  split at hresult
  · obtain ⟨rfl, -⟩ := mk.inj hresult
    exact halloc
  · rwa [hresult] at halloc

theorem pmmAllocPagesLow_touches {count : Nat}
    (hrun : pmmAllocPagesLow s count = some (s', r)) : Touches (freeBytes fl) s s' := by
  unfold pmmAllocPagesLow at hrun
  split_ifs at hrun
  · obtain ⟨rfl, -⟩ := mk.inj (some.inj hrun)
    exact .refl _ _
  · obtain ⟨rfl, -⟩ := mk.inj (some.inj hrun)
    exact .refl _ _
  obtain ⟨order, -, hrun⟩ := bind_eq_some_iff.mp hrun
  obtain ⟨best, hscan, hsound⟩ := scan_ok h order
  rw [hscan, bind_eq_bind, bind_some] at hrun
  split_ifs at hrun with hlarge hfound
  · obtain ⟨rfl, -⟩ := mk.inj (some.inj hrun)
    exact .refl _ _
  · obtain ⟨rfl, -⟩ := mk.inj (some.inj hrun)
    exact .refl _ _
  obtain ⟨hb, ho, -⟩ := hsound (by simpa using hfound)
  obtain ⟨rfl, -⟩ := mk.inj (some.inj hrun)
  exact h.takeBlock_touches hb ho

theorem buddyFree_touches (hb : b ∈ out) :
    Touches (freeBytes fl ∪ b.bytes) s (buddyFree s b.addr b.order b.order) := by
  have hdetached := h.detach_out hb
  have horder := hdetached.order_le
  obtain ⟨t, fl', x, hrun, h', -⟩ :=
    coalesce_detached (maxOrder - b.order) s fl b (by omega) hdetached
  have hmerge := coalesce_touches x.bytes (maxOrder - b.order) s b.addr b.order
  rw [hrun] at hmerge
  have hset := setBlockState_touches h'.startAligned h'.aligned h'.start_le .free
  have hall : Touches x.bytes s (buddyFree s b.addr b.order b.order) := by
    unfold buddyFree
    rw [hrun]
    exact hmerge.trans ⟨rfl, hset.state⟩
  refine hall.mono fun y hy => ?_
  by_cases hyb : y ∈ b.bytes
  · exact .inr hyb
  refine .inl (h.covered_iff.mpr ⟨?_, fun c hc hyc => ?_⟩)
  · exact h'.tiling.subset_pub (mem_insert _ _) hy
  have hne : c ≠ b := by
    rintro rfl
    exact hyb hyc
  exact h'.not_mem_bytes (.inr ⟨hc, hne⟩) hy hyc

end

/-! ## Runs -/

variable {mine : Set Block} {c : Call}

/-- A call touches nothing outside the published memory and nothing in the blocks of `out`. -/
theorem call_touches (h : Invariant s fl (out ∪ mine) pub) (hapart : Disjoint out mine)
    (hc : c.Valid mine) (hrun : c.run s = some (s', r)) :
    Touches {y | y ∈ pub ∧ ∀ b ∈ out, y ∉ b.bytes} s s' := by
  have hfree : freeBytes fl ⊆ {y | y ∈ pub ∧ ∀ b ∈ out, y ∉ b.bytes} := fun y hy =>
    ⟨(h.covered_iff.mp hy).1, fun b hb => (h.covered_iff.mp hy).2 b (.inl hb)⟩
  cases c with
  | allocPages n => exact (pmmAllocPages_touches h hrun).mono hfree
  | allocPagesLow n => exact (pmmAllocPagesLow_touches h hrun).mono hfree
  | freePages p n =>
    obtain ⟨b, ⟨rfl, horder⟩, hb⟩ := hc
    obtain ⟨t, hfreed, heq⟩ := map_eq_some_iff.mp hrun
    obtain ⟨rfl, -⟩ := mk.inj heq
    by_cases hn : n = 0
    · obtain rfl : s = t := by simpa [pmmFreePages, hn] using hfreed
      exact .refl _ _
    rw [pmmFreePages_eq h (.inr hb) hn horder] at hfreed
    obtain rfl := some.inj hfreed
    refine (buddyFree_touches h (.inr hb)).mono (union_subset hfree fun y hy => ?_)
    refine ⟨h.tiling.subset_pub (.inr (.inr hb)) hy, fun c hc hyc => ?_⟩
    obtain rfl := h.tiling.eq_of_mem (.inr (.inr hb)) (.inr (.inl hc)) hy hyc
    exact disjoint_left.mp hapart hc hb

theorem Call.Valid.mono (hsub : mine ⊆ mine') (hc : c.Valid mine) : c.Valid mine' := by
  cases c with
  | allocPages n | allocPagesLow n => trivial
  | freePages p n => exact Set.Nonempty.mono (inter_subset_inter_right _ hsub) hc

/-- The blocks of `out` stay outstanding, whatever becomes of those in `mine`. -/
theorem outstanding_union (hapart : Disjoint out mine) (hc : c.Valid mine) (r : Nat) :
    c.outstanding (out ∪ mine) r = out ∪ c.outstanding mine r := by
  have halloc (n : Nat) : (if r = 0 then out ∪ mine else out ∪ mine ∪ requested r n) =
      out ∪ if r = 0 then mine else mine ∪ requested r n := by
    split
    · rfl
    · exact union_assoc ..
  cases c with
  | allocPages n | allocPagesLow n => exact halloc n
  | freePages p n =>
    obtain ⟨b, ⟨rfl, horder⟩, hb⟩ := hc
    have hout : b ∉ out := fun hmem => disjoint_left.mp hapart hmem hb
    simp only [outstanding, requested_eq horder]
    split
    · rfl
    · rw [union_sdiff_distrib, sdiff_singleton_eq_self hout]

theorem outstanding_apart (h : Invariant s fl (out ∪ mine) pub) (hapart : Disjoint out mine)
    (hrun : c.run s = some (s', r)) : Disjoint out (c.outstanding mine r) := by
  have halloc {n : Nat} (hspec : AllocSpec fl (out ∪ mine) pub s n s' r) :
      Disjoint out (if r = 0 then mine else mine ∪ requested r n) := by
    split
    case isTrue => exact hapart
    case isFalse hr =>
      obtain ⟨b, ⟨rfl, horder⟩, -, -, hdisj⟩ := hspec.fresh h hr
      rw [requested_eq horder, disjoint_union_right, disjoint_singleton_right]
      refine ⟨hapart, fun hmem => ?_⟩
      exact disjoint_left.mp (hdisj b (.inl hmem)) b.addr_mem_bytes b.addr_mem_bytes
  cases c with
  | allocPages n => exact halloc (pmmAllocPages_ok h hrun)
  | allocPagesLow n => exact halloc (pmmAllocPagesLow_ok h hrun)
  | freePages p n =>
    simp only [outstanding]
    split
    · exact hapart
    · exact hapart.mono_right sdiff_subset

/--
Calls that release only what they have allocated themselves, from nothing to the
blocks in `mine`.
-/
theorem run_touches (h : Invariant s fl out pub)
    (hrun : Relation.ReflTransGen CallStep (s, ∅) finish) :
    (∃ fl', Invariant finish.1 fl' (out ∪ finish.2) pub) ∧ Disjoint out finish.2 ∧
      Touches {y | y ∈ pub ∧ ∀ b ∈ out, y ∉ b.bytes} s finish.1 := by
  induction hrun with
  | refl => exact ⟨⟨fl, by simpa using h⟩, disjoint_empty out, .refl _ s⟩
  | tail _ hstep ih =>
    obtain ⟨⟨fl₁, hinv⟩, hapart, htouches⟩ := ih
    cases hstep with
    | call c hc hcall =>
      obtain ⟨fl₂, hinv₂⟩ := call_invariant hinv (hc.mono subset_union_right) hcall
      rw [outstanding_union hapart hc] at hinv₂
      exact ⟨⟨fl₂, hinv₂⟩, outstanding_apart hinv hapart hcall,
        htouches.trans (call_touches hinv hapart hc hcall)⟩

/--
After any calls that release in the end everything they have allocated, in whatever
order, the free lists have the same blocks as before, and the counters and the page
states are the same.
-/
theorem released_in_any_order (h : Invariant s fl out pub)
    (hrun : Relation.ReflTransGen CallStep (s, ∅) (s', ∅)) :
    ∃ fl', Invariant s' fl' out pub ∧ (∀ o, (fl' o).Perm (fl o)) ∧
      (∀ o ≤ maxOrder, s'.freeCounts o = s.freeCounts o) ∧
      s'.freePages = s.freePages ∧ s'.blockState = s.blockState := by
  obtain ⟨⟨fl', h'⟩, -, htouches⟩ := run_touches h hrun
  rw [union_empty] at h'
  have hperm := h.lists_perm h'
  refine ⟨fl', h', hperm, fun o ho => ?_, ?_, funext fun i => ?_⟩
  · rw [h'.lists.counts o ho, h.lists.counts o ho, (hperm o).length_eq]
  · rw [h'.pages, h.pages, freeTotal_perm hperm]
  by_cases hi : pageAddr s i ∈ {y | y ∈ pub ∧ ∀ b ∈ out, y ∉ b.bytes}
  · have hi' : pageAddr s' i ∈ {y | y ∈ pub ∧ ∀ b ∈ out, y ∉ b.bytes} := by
      rwa [pageAddr, htouches.start]
    rw [(h.state i).mpr (h.covered_iff.mpr hi), (h'.state i).mpr (h'.covered_iff.mpr hi')]
  · exact htouches.state i hi

theorem released_in_any_order_page :
    ∃ s' fl', Relation.ReflTransGen CallStep (twoPages, ∅) (s', ∅) ∧
      Invariant s' fl' {⟨12288, 0⟩} (Set.Ico 8192 16384) ∧
      s'.blockState = twoPages.blockState := by
  obtain ⟨s₁, hrun₁⟩ : ∃ s₁, (allocPages 1).run twoPages = some (s₁, 8192) := ⟨_, rfl⟩
  have hstep₁ : CallStep (twoPages, ∅) (s₁, {⟨8192, 0⟩}) := by
    have hmine : (allocPages 1).outstanding ∅ 8192 = {⟨8192, 0⟩} := by
      simp [outstanding, count, requested_eq (show log2Ceil 1 = some 0 from rfl)]
    exact hmine ▸ CallStep.call (allocPages 1) trivial hrun₁
  obtain ⟨⟨fl₁, hinv⟩, -, -⟩ := run_touches twoPages_invariant (.single hstep₁)
  obtain ⟨s₂, hrun₂⟩ : ∃ s₂, (freePages 8192 1).run s₁ = some (s₂, 0) := by
    have hfree := pmmFreePages_eq (b := ⟨8192, 0⟩) hinv (.inr rfl) Nat.one_ne_zero rfl
    exact ⟨_, by rw [Call.run, hfree, map_some]⟩
  have hstep₂ : CallStep (s₁, {⟨8192, 0⟩}) (s₂, ∅) := by
    have hmine : (freePages 8192 1).outstanding {⟨8192, 0⟩} 0 = ∅ := by
      simp [outstanding, requested_eq (show log2Ceil 1 = some 0 from rfl)]
    exact hmine ▸ CallStep.call (freePages 8192 1) ⟨⟨8192, 0⟩, ⟨rfl, rfl⟩, rfl⟩ hrun₂
  have hrun := Relation.ReflTransGen.single hstep₁ |>.tail hstep₂
  obtain ⟨fl₂, hinv₂, -, -, -, hstate⟩ := released_in_any_order twoPages_invariant hrun
  exact ⟨s₂, fl₂, hrun, hinv₂, hstate⟩

end SlmOs.Pmm
