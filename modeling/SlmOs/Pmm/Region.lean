import SlmOs.Pmm.Invariant
import SlmOs.Pmm.Reserve

/-!
# Publishing a region

`pmm_add_region` cuts a segment into the largest aligned blocks and puts them
on the free lists; `pmm_add_region_split` does so for every segment the carving
leaves.  The pages that end up on a free list are exactly the pages whose first
byte lies in the region and is not reserved, which decides when reserved memory
is safe: only the first byte of a page is ever looked at.
-/

namespace SlmOs.Pmm

open Foundation List Nat

/-- `PAGE_ALIGN_UP`, in the word arithmetic of the code. -/
def pageAlignUp (addr : Nat) : Nat :=
  (addr + (pageSize - 1)) % wordModulus / pageSize * pageSize

/-- The order search: the largest aligned block that ends in the segment. -/
def regionOrder (current limit : Nat) : Nat → Nat
  | 0 => 0
  | o + 1 =>
    if (current + orderToSize (o + 1)) % wordModulus ≤ limit ∧
        isAlignedToOrder current (o + 1) then o + 1
    else regionOrder current limit o

def publish (s : BuddyState) (current order : Nat) : BuddyState :=
  let s := freeListAdd (setBlockState s current order .free) current order
  { s with freePages := s.freePages + orderToPages order }

def addRegionLoop (limit : Nat) : Nat → Nat → BuddyState → Option BuddyState
  | 0, _, _ => none
  | fuel + 1, current, s =>
    if current < limit then
      let order := regionOrder current limit maxOrder
      addRegionLoop limit fuel ((current + orderToSize order) % wordModulus)
        (publish s current order)
    else some s

def pmmAddRegion (s : BuddyState) (start limit : Nat) : Option BuddyState :=
  addRegionLoop limit ((limit - start) / pageSize + 2) (pageAlignUp start) s

def addRegions (s : BuddyState) : List (Nat × Nat) → Option BuddyState
  | [] => some s
  | seg :: segs => do
      let s ← pmmAddRegion s seg.1 seg.2
      addRegions s segs

def pmmAddRegionSplit (t : ReserveTables) (s : BuddyState)
    (start limit : Nat) : Option BuddyState := do
  let segs ← pmmCarveReserves start limit t.reserves (pmmSplitRsvMax + 1)
  addRegions s segs

/-! ## Pages placed on the free lists -/

def placed (fl fl' : Nat → List Nat) : Set Nat :=
  {p | pageSize ∣ p ∧ ∃ b ∈ freeBlocks fl', b ∉ freeBlocks fl ∧ p ∈ b.bytes}

/-- The step from `fl` to `fl'` published exactly the pages in `P`. -/
structure Publishes (s : BuddyState) (fl fl' : Nat → List Nat)
    (P : Set Nat) : Prop where
  lists : ListsOk s fl'
  mono : freeBlocks fl ⊆ freeBlocks fl'
  pages : placed fl fl' = P
  starts : ∀ b ∈ freeBlocks fl', b ∉ freeBlocks fl → b.addr ∈ P

variable {fl : Nat → List Nat}

theorem Publishes.refl (h : ListsOk s fl) : Publishes s fl fl ∅ where
  lists := h
  mono := Set.Subset.rfl
  pages := by
    ext p
    refine iff_of_false ?_ (Set.notMem_empty p)
    rintro ⟨-, b, hb, hb', -⟩
    exact hb' hb
  starts := fun b hb hb' => absurd hb hb'

theorem Publishes.trans {fl₁ fl₂ : Nat → List Nat} (h₁ : Publishes s fl fl₁ P)
    (h₂ : Publishes s' fl₁ fl₂ Q) : Publishes s' fl fl₂ (P ∪ Q) where
  lists := h₂.lists
  mono := h₁.mono.trans h₂.mono
  pages := by
    rw [← h₁.pages, ← h₂.pages]
    ext p
    constructor
    · rintro ⟨hp, b, hb, hb', hmem⟩
      by_cases hmid : b ∈ freeBlocks fl₁
      · exact .inl ⟨hp, b, hmid, hb', hmem⟩
      · exact .inr ⟨hp, b, hb, hmid, hmem⟩
    rintro (⟨hp, b, hb, hb', hmem⟩ | ⟨hp, b, hb, hb', hmem⟩)
    · exact ⟨hp, b, h₂.mono hb, hb', hmem⟩
    · exact ⟨hp, b, hb, fun hold => hb' (h₁.mono hold), hmem⟩
  starts := by
    intro b hb hb'
    by_cases hmid : b ∈ freeBlocks fl₁
    · exact .inl (h₁.starts b hmid hb')
    · exact .inr (h₂.starts b hb hmid)

def Fresh (fl : Nat → List Nat) (lo hi : Nat) : Prop :=
  ∀ b ∈ freeBlocks fl, b.addr < lo ∨ hi ≤ b.addr

theorem Publishes.fresh {fl' : Nat → List Nat} (h : Publishes s fl fl' P) (hfresh : Fresh fl lo hi)
    (hle : lo ≤ mid) (hP : ∀ p ∈ P, p < mid) : Fresh fl' mid hi := by
  intro b hb
  by_cases hold : b ∈ freeBlocks fl
  · rcases hfresh b hold with hlt | hge
    · exact .inl (hlt.trans_le hle)
    · exact .inr hge
  · exact .inl (hP _ (h.starts b hb hold))

def pagesFrom (lo hi : Nat) : Set Nat := {p | pageSize ∣ p ∧ lo ≤ p ∧ p < hi}

/-! ## One segment -/

theorem regionOrder_spec (current limit : Nat) (hlimit : limit + orderToSize maxOrder ≤ wordModulus)
    (hlt : current < limit) :
    ∀ n, n ≤ maxOrder → regionOrder current limit n ≤ n ∧ (regionOrder current limit n = 0 ∨
        (current + orderToSize (regionOrder current limit n) ≤ limit ∧
          orderToSize (regionOrder current limit n) ∣ current)) := by
  intro n
  induction n with
  | zero =>
    intro _
    exact ⟨le_refl 0, .inl rfl⟩
  | succ n ih =>
    intro hn
    rw [regionOrder]
    split
    · rename_i h
      have hsize : orderToSize (n + 1) ≤ orderToSize maxOrder :=
        le_of_dvd (orderToSize_pos _) (orderToSize_dvd hn)
      rw [mod_eq_of_lt (by omega)] at h
      refine ⟨le_refl _, .inr ⟨h.1, ?_⟩⟩
      have haligned := h.2
      unfold isAlignedToOrder at haligned
      rw [beq_iff_eq] at haligned
      exact dvd_of_mod_eq_zero haligned
    obtain ⟨hle, hspec⟩ := ih (by omega)
    exact ⟨hle.trans (le_succ n), hspec⟩

theorem publish_publishes (h : ListsOk s fl) (horder : order ≤ maxOrder) (hcurrent : current ≠ 0)
    (hpage : pageSize ∣ current) (hlt : current < hi) (hfresh : Fresh fl current hi) :
    Publishes (publish s current order) fl (addTo fl current order)
      (pagesFrom current (current + orderToSize order)) := by
  have hset : freeBlocks (addTo fl current order) = insert ⟨current, order⟩ (freeBlocks fl) :=
    freeBlocks_addTo fl ⟨current, order⟩
  have hnew : ∀ o, current ∉ fl o := by
    intro o hmem
    have hstart := hfresh ⟨current, o⟩ hmem
    change current < current ∨ hi ≤ current at hstart
    omega
  have hnotin : (⟨current, order⟩ : Block) ∉ freeBlocks fl := hnew order
  refine ⟨?_, ?_, ?_, ?_⟩
  · have hlists : ListsOk (setBlockState s current order .free) fl :=
      { h with }
    exact { freeListAdd_ok hlists horder hcurrent hnew with }
  · rw [hset]
    exact Set.subset_insert _ _
  · ext p
    constructor
    · rintro ⟨hp, b, hb, hb', hmem⟩
      rw [hset] at hb
      rcases hb with rfl | hb
      · exact ⟨hp, hmem⟩
      · exact absurd hb hb'
    rintro ⟨hp, hmem⟩
    refine ⟨hp, ⟨current, order⟩, ?_, hnotin, hmem⟩
    rw [hset]
    exact Set.mem_insert _ _
  intro b hb hb'
  rw [hset] at hb
  rcases hb with rfl | hb
  · exact ⟨hpage, Block.addr_mem_bytes ⟨current, order⟩⟩
  · exact absurd hb hb'

theorem pagesFrom_split (hle : lo ≤ mid) (hlast : ∀ p ∈ pagesFrom lo mid, p < hi) :
    pagesFrom lo hi = pagesFrom lo mid ∪ pagesFrom mid hi := by
  ext p
  constructor
  · rintro ⟨hp, h₁, h₂⟩
    by_cases h : p < mid
    · exact .inl ⟨hp, h₁, h⟩
    · exact .inr ⟨hp, by omega, h₂⟩
  rintro (hp | ⟨hp, h₁, h₂⟩)
  · exact ⟨hp.1, hp.2.1, hlast p hp⟩
  · exact ⟨hp, hle.trans h₁, h₂⟩

theorem addRegionLoop_spec (hlimit : limit + orderToSize maxOrder ≤ wordModulus) :
    ∀ (n current : Nat) (s : BuddyState) (fl : Nat → List Nat),
      limit ≤ current + n * pageSize → pageSize ∣ current →
      current ≠ 0 → ListsOk s fl → Fresh fl current limit →
      ∃ s' fl', addRegionLoop limit (n + 1) current s = some s' ∧
        Publishes s' fl fl' (pagesFrom current limit) := by
  have hdone : ∀ (n current : Nat) (s : BuddyState) (fl : Nat → List Nat),
      limit ≤ current → ListsOk s fl →
      ∃ s' fl', addRegionLoop limit (n + 1) current s = some s' ∧
        Publishes s' fl fl' (pagesFrom current limit) := by
    intro n current s fl hle h
    have hempty : pagesFrom current limit = ∅ := by
      ext p
      refine iff_of_false ?_ (Set.notMem_empty p)
      rintro ⟨-, h₁, h₂⟩
      omega
    rw [addRegionLoop, if_neg (by omega), hempty]
    exact ⟨s, fl, rfl, Publishes.refl h⟩
  intro n
  induction n with
  | zero =>
    intro current s fl hfuel _ _ h _
    exact hdone 0 current s fl (by omega) h
  | succ n ih =>
    intro current s fl hfuel hpage hcurrent h hfresh
    by_cases hlt : current < limit
    swap
    · exact hdone (n + 1) current s fl (by omega) h
    obtain ⟨horder, hspec⟩ := regionOrder_spec current limit hlimit hlt maxOrder (le_refl _)
    rw [addRegionLoop, if_pos hlt]
    dsimp only
    generalize regionOrder current limit maxOrder = order at *
    have hsize := le_of_dvd (orderToSize_pos order) (pageSize_dvd_orderToSize order)
    have hmax : orderToSize 0 ≤ orderToSize maxOrder :=
      le_of_dvd (orderToSize_pos _) (orderToSize_dvd (zero_le _))
    have hword : current + orderToSize order < wordModulus := by
      rcases hspec with rfl | ⟨hle, -⟩
      · omega
      have := orderToSize_pos maxOrder
      omega
    -- only a single page can reach past the end of the segment
    have hlast : ∀ p ∈ pagesFrom current (current + orderToSize order), p < limit := by
      rintro p ⟨⟨q, hq⟩, h₁, h₂⟩
      rcases hspec with rfl | ⟨hle, -⟩
      · obtain ⟨r, hr⟩ := hpage
        have hzero : orderToSize 0 = 4096 := by decide
        unfold pageSize at hq hr
        omega
      · omega
    have hpublish := publish_publishes (s := s) h horder hcurrent hpage hlt hfresh
    have hfresh' := hpublish.fresh hfresh
      (le_add_right current (orderToSize order)) fun p hp => hp.2.2
    obtain ⟨s', fl', hrun, hrest⟩ := ih (current + orderToSize order) _ _
      (by rw [succ_mul] at hfuel; omega)
      (dvd_add hpage (pageSize_dvd_orderToSize order)) (by omega)
      hpublish.lists hfresh'
    rw [mod_eq_of_lt hword]
    refine ⟨s', fl', hrun, ?_⟩
    rw [pagesFrom_split (le_add_right _ _) hlast]
    exact hpublish.trans hrest

theorem pageAlignUp_spec (addr : Nat) (h : addr + pageSize ≤ wordModulus) :
    pageSize ∣ pageAlignUp addr ∧ addr ≤ pageAlignUp addr ∧ pageAlignUp addr < addr + pageSize := by
  unfold pageAlignUp
  rw [mod_eq_of_lt (by unfold pageSize at *; omega)]
  refine ⟨Dvd.intro_left _ rfl, ?_⟩
  unfold pageSize
  omega

theorem Fresh.mono (h : Fresh fl lo hi) (hlo : lo ≤ lo') (hhi : hi' ≤ hi) : Fresh fl lo' hi' := by
  intro b hb
  rcases h b hb with hlt | hge
  · exact .inl (hlt.trans_le hlo)
  · exact .inr (hhi.trans hge)

theorem pmmAddRegion_spec (start limit : Nat) (hlimit : limit + orderToSize maxOrder ≤ wordModulus)
    (hstart : 0 < start) (hlt : start < limit) (h : ListsOk s fl) (hfresh : Fresh fl start limit) :
    ∃ s' fl', pmmAddRegion s start limit = some s' ∧
      Publishes s' fl fl' (pagesFrom start limit) := by
  have hmax : pageSize ≤ orderToSize maxOrder :=
    le_of_dvd (orderToSize_pos _) (pageSize_dvd_orderToSize _)
  obtain ⟨hpage, hge, hup⟩ := pageAlignUp_spec start (by omega)
  have hpages : pagesFrom (pageAlignUp start) limit = pagesFrom start limit := by
    ext p
    constructor
    · rintro ⟨hp, h₁, h₂⟩
      exact ⟨hp, hge.trans h₁, h₂⟩
    rintro ⟨hp, h₁, h₂⟩
    refine ⟨hp, ?_, h₂⟩
    obtain ⟨q, hq⟩ := hpage
    obtain ⟨r, rfl⟩ := hp
    unfold pageSize at *
    omega
  rw [← hpages]
  refine addRegionLoop_spec hlimit _ _ s fl ?_ hpage (by omega) h (hfresh.mono hge (le_refl _))
  unfold pageSize
  omega

/-! ## All segments -/

theorem addRegions_spec (hlimit : limit + orderToSize maxOrder ≤ wordModulus) :
    ∀ (segs : List (Nat × Nat)) (lo : Nat) (s : BuddyState) (fl : Nat → List Nat), 0 < lo →
      (∀ seg ∈ segs, lo ≤ seg.1 ∧ seg.1 < seg.2 ∧ seg.2 ≤ limit) →
      segs.Pairwise (fun a b => a.2 ≤ b.1) → ListsOk s fl →
      Fresh fl lo limit →
      ∃ s' fl', addRegions s segs = some s' ∧ Publishes s' fl fl'
          {p | pageSize ∣ p ∧ ∃ seg ∈ segs, seg.1 ≤ p ∧ p < seg.2} := by
  intro segs
  induction segs with
  | nil =>
    intro lo s fl _ _ _ h _
    refine ⟨s, fl, rfl, ?_⟩
    have hempty : {p | pageSize ∣ p ∧
        ∃ seg ∈ ([] : List (Nat × Nat)), seg.1 ≤ p ∧ p < seg.2} = ∅ := by
      simp
    rw [hempty]
    exact Publishes.refl h
  | cons seg segs ih =>
    intro lo s fl hlo hbounds hsorted h hfresh
    obtain ⟨hseg, hne, hend⟩ := hbounds seg mem_cons_self
    rw [pairwise_cons] at hsorted
    obtain ⟨s₁, fl₁, hrun₁, h₁⟩ := pmmAddRegion_spec seg.1 seg.2
      (by omega) (by omega) hne h (hfresh.mono hseg hend)
    obtain ⟨s₂, fl₂, hrun₂, h₂⟩ := ih seg.2 s₁ fl₁ (by omega)
      (fun seg' hmem => ⟨hsorted.1 seg' hmem, (hbounds seg' (mem_cons_of_mem _ hmem)).2⟩)
      hsorted.2 h₁.lists
      (h₁.fresh hfresh (by omega) fun p hp => hp.2.2)
    refine ⟨s₂, fl₂, ?_, ?_⟩
    · rw [addRegions, hrun₁]
      exact hrun₂
    have hpages : {p | pageSize ∣ p ∧ ∃ seg' ∈ seg :: segs, seg'.1 ≤ p ∧ p < seg'.2} =
        pagesFrom seg.1 seg.2 ∪ {p | pageSize ∣ p ∧ ∃ seg' ∈ segs, seg'.1 ≤ p ∧ p < seg'.2} := by
      ext p
      simp only [mem_cons, exists_eq_or_imp, Set.mem_ofPred_eq,
        Set.mem_union, pagesFrom, and_or_left]
    rw [hpages]
    exact h₁.trans h₂

theorem pmmAddRegionSplit_spec (t : ReserveTables) (start limit : Nat)
    (hlimit : limit + orderToSize maxOrder ≤ wordModulus)
    (hstart : 0 < start) (h : ListsOk s fl) (hfresh : Fresh fl start limit) :
    ∃ s' fl', pmmAddRegionSplit t s start limit = some s' ∧
      ListsOk s' fl' ∧ freeBlocks fl ⊆ freeBlocks fl' ∧
      placed fl fl' = {p | pageSize ∣ p ∧ start ≤ p ∧ p < limit ∧ ¬Reserved t.reserves p} := by
  obtain ⟨segs, hcarve, hcarved⟩ := pmmCarveReserves_spec start limit
    (lt_succ_of_le t.length_reserves)
  obtain ⟨s', fl', hrun, hpub⟩ := addRegions_spec hlimit segs start s fl
    hstart hcarved.bounds hcarved.sorted h hfresh
  refine ⟨s', fl', ?_, hpub.lists, hpub.mono, ?_⟩
  · unfold pmmAddRegionSplit
    rw [hcarve]
    exact hrun
  rw [hpub.pages]
  ext p
  simp only [Set.mem_ofPred_eq, hcarved.exact_cover]

/-! ## When reserved memory is protected -/

def pageAlignDown (addr : Nat) : Nat := addr / pageSize * pageSize

/-- Where unreserved bytes can end: at the end of the region and at the start
of every non-empty reservation below it. -/
def boundaries (t : ReserveTables) (limit : Nat) : List Nat :=
  limit :: (t.reserves.filter fun r => r.size ≠ 0 ∧ r.addr < limit).map Reserve.addr

/-- A boundary inside a page of the region leaves the page's first byte
reserved. -/
def BoundariesProtected (t : ReserveTables) (start limit : Nat) : Prop :=
  ∀ b ∈ boundaries t limit, start ≤ pageAlignDown b →
    pageAlignDown b = b ∨ Reserved t.reserves (pageAlignDown b)

instance (t : ReserveTables) (start limit : Nat) : Decidable (BoundariesProtected t start limit) :=
  inferInstanceAs (Decidable (∀ b ∈ boundaries t limit, _ → _))

/-- Page `p` ends in the region and holds no byte of a reservation. -/
def PageProtected (t : ReserveTables) (limit p : Nat) : Prop :=
  p + pageSize ≤ limit ∧ ∀ r ∈ t.firmware ++ t.user, ∀ x, r.addr ≤ x → x < r.addr + r.size →
      ¬(p ≤ x ∧ x < p + pageSize)

theorem mem_boundaries : b ∈ boundaries t limit ↔
      b = limit ∨ ∃ r ∈ t.reserves, r.size ≠ 0 ∧ r.addr < limit ∧ r.addr = b := by
  simp [boundaries, and_assoc]

theorem pageAlignDown_eq_of_mem (hp : pageSize ∣ p) (h₁ : p ≤ b)
    (h₂ : b < p + pageSize) : pageAlignDown b = p := by
  obtain ⟨q, rfl⟩ := hp
  unfold pageAlignDown pageSize at *
  omega

theorem pageProtected_of_boundaries
    (hwrap : ∀ r ∈ t.firmware ++ t.user, r.addr + r.size < wordModulus)
    (h : BoundariesProtected t start limit) (hp : pageSize ∣ p) (hstart : start ≤ p)
    (hlt : p < limit) (hfree : ¬Reserved t.reserves p) : PageProtected t limit p := by
  -- a boundary strictly inside the page contradicts the free first byte
  have hinside : ∀ b ∈ boundaries t limit, p < b → ¬b < p + pageSize := by
    intro b hb hpb hbp
    have hdown := pageAlignDown_eq_of_mem hp hpb.le hbp
    rcases h b hb (by rw [hdown]; exact hstart) with heq | hres
    · omega
    · exact hfree (hdown ▸ hres)
  have hlimit := hinside limit (mem_boundaries.mpr (.inl rfl)) hlt
  refine ⟨by omega, ?_⟩
  rintro r hr x h₁ h₂ ⟨h₃, h₄⟩
  have hafter : p < r.addr := by
    by_contra hle
    rw [t.reserves_eq, reserved_iff hwrap] at hfree
    exact hfree ⟨r, hr, by omega, by omega⟩
  refine hinside r.addr (mem_boundaries.mpr (.inr ⟨r, ?_, ?_, ?_, rfl⟩)) hafter (by omega)
  · rw [t.reserves_eq]
    exact hr
  · omega
  · omega

theorem boundaries_of_pageProtected (h : ∀ p, pageSize ∣ p → start ≤ p → p < limit →
      ¬Reserved t.reserves p → PageProtected t limit p) :
    BoundariesProtected t start limit := by
  intro b hb hstart
  by_contra hnot
  rw [not_or] at hnot
  have hpage : pageSize ∣ pageAlignDown b := Dvd.intro_left _ rfl
  have hle : pageAlignDown b ≤ b := div_mul_le_self _ _
  have hlt : b < pageAlignDown b + pageSize := by
    unfold pageAlignDown pageSize
    omega
  have hb' : b ≤ limit := by
    rcases mem_boundaries.mp hb with rfl | ⟨r, -, -, hr, rfl⟩
    · exact le_refl _
    · exact hr.le
  obtain ⟨hend, hbytes⟩ := h _ hpage hstart (by omega) hnot.2
  rcases mem_boundaries.mp hb with rfl | ⟨r, hr, hsize, -, rfl⟩
  · omega
  rw [t.reserves_eq] at hr
  exact hbytes r hr r.addr (le_refl _) (by omega) ⟨hle, hlt⟩

/--
Publishing a region keeps every published page inside the region and off every
reservation exactly when no boundary cuts a page with a free first byte.
-/
theorem published_protected_iff (t : ReserveTables)
    (hwrap : ∀ r ∈ t.firmware ++ t.user, r.addr + r.size < wordModulus) (start limit : Nat)
    (hstart : 0 < start) (hlimit : limit + orderToSize maxOrder ≤ wordModulus) (s : BuddyState)
    (fl : Nat → List Nat) (h : ListsOk s fl) (hfresh : Fresh fl start limit) :
    ∃ s' fl', pmmAddRegionSplit t s start limit = some s' ∧
      ListsOk s' fl' ∧ freeBlocks fl ⊆ freeBlocks fl' ∧
      ((∀ p ∈ placed fl fl', PageProtected t limit p) ↔ BoundariesProtected t start limit) := by
  obtain ⟨s', fl', hrun, hlists, hmono, hplaced⟩ :=
    pmmAddRegionSplit_spec t start limit hlimit hstart h hfresh
  refine ⟨s', fl', hrun, hlists, hmono, ?_⟩
  rw [hplaced]
  constructor
  · intro hpages
    exact boundaries_of_pageProtected fun p h₁ h₂ h₃ h₄ => hpages p ⟨h₁, h₂, h₃, h₄⟩
  rintro hbound p ⟨h₁, h₂, h₃, h₄⟩
  exact pageProtected_of_boundaries hwrap hbound h₁ h₂ h₃ h₄

/-! ### A region with a reservation that starts inside a page -/

/-- The allocator as `pmm_init` leaves it before the first region. -/
def emptyHeap : BuddyState where
  mem := fun _ => ⟨0, 0⟩
  freeLists := fun _ => 0
  freeCounts := fun _ => 0
  heapStart := 0x10000
  heapEnd := 0x20000
  freePages := 0
  allocCount := 0
  freeCount := 0
  splitCount := 0
  mergeCount := 0
  initialized := false
  blockState := fun _ => .allocated

theorem emptyHeap_lists : ListsOk emptyHeap fun _ => [] where
  lists := fun _ _ => ⟨0, rfl, rfl⟩
  nodup := fun _ => nodup_nil
  counts := fun _ _ => rfl
  above := fun _ _ => rfl
  apart := fun _ _ _ h => absurd h not_mem_nil

theorem emptyHeap_fresh (lo hi : Nat) : Fresh (fun _ => []) lo hi :=
  fun _ hb => absurd hb not_mem_nil

def oneReserve (addr size : Nat) : ReserveTables where
  firmware := []
  user := [⟨addr, size⟩]
  firmware_le := zero_le _
  user_le := by
    change 1 ≤ 2048
    omega

theorem aligned_reserve_protected :
    ∃ s' fl', pmmAddRegionSplit (oneReserve 0x12000 0x1000) emptyHeap 0x10000 0x20000 = some s' ∧
      ListsOk s' fl' ∧
      ∀ p ∈ placed (fun _ => []) fl', PageProtected (oneReserve 0x12000 0x1000) 0x20000 p := by
  obtain ⟨s', fl', hrun, hlists, -, hiff⟩ := published_protected_iff (oneReserve 0x12000 0x1000) (by
        intro r hr
        rw [mem_singleton.mp hr]
        decide)
      0x10000 0x20000 (by decide) (by decide) emptyHeap (fun _ => [])
      emptyHeap_lists (emptyHeap_fresh _ _)
  exact ⟨s', fl', hrun, hlists, hiff.mpr (by decide)⟩

/--
The byte range `[0x10800, 0x10900)` is reserved and the region ends at
`0x1f800`, yet the pages `0x10000` and `0x1f000` go on the free lists.
-/
theorem cut_pages_published : ∃ s' fl', pmmAddRegionSplit (oneReserve 0x10800 0x100) emptyHeap
        0x10000 0x1f800 = some s' ∧
      ListsOk s' fl' ∧
      0x10000 ∈ placed (fun _ => []) fl' ∧
      0x1f000 ∈ placed (fun _ => []) fl' ∧
      ¬PageProtected (oneReserve 0x10800 0x100) 0x1f800 0x10000 ∧
      ¬PageProtected (oneReserve 0x10800 0x100) 0x1f800 0x1f000 := by
  obtain ⟨s', fl', hrun, hlists, -, hplaced⟩ :=
    pmmAddRegionSplit_spec (oneReserve 0x10800 0x100) 0x10000 0x1f800
      (by decide) (by decide) emptyHeap_lists (emptyHeap_fresh _ _)
  refine ⟨s', fl', hrun, hlists, ?_, ?_, ?_, ?_⟩
  · rw [hplaced]
    exact ⟨⟨16, rfl⟩, by decide, by decide, by decide⟩
  · rw [hplaced]
    exact ⟨⟨31, rfl⟩, by decide, by decide, by decide⟩
  · rintro ⟨-, hbytes⟩
    exact hbytes ⟨0x10800, 0x100⟩ (by decide) 0x10800 (by decide) (by decide) (by decide)
  rintro ⟨hend, -⟩
  exact absurd hend (by decide)

end SlmOs.Pmm
