import SlmOs.Loader.Registry

/-!
# Who has a block

Every block of the pools that is in use has one owner at most and any number of leases,
and its reference count says how many that are.  The lemmas say what allocating, giving
back, leasing and evicting do to such books; they hold for owners of any kind.
-/

namespace SlmOs.Loader

open Function Foundation ModelMem BlockSlot History Lease

variable {W : Type}

def handleOf (pools : PoolType → History) (k : PoolType) (i : Nat) : ModelHandle :=
  ⟨i, poolId k, ((pools k).pool.blocks i).generation⟩

def Lease.on (l : Lease) (k : PoolType) (i : Nat) : Bool :=
  l.handle.poolId == poolId k && l.handle.blockIndex == i

def leaseCount (leases : List Lease) (k : PoolType) (i : Nat) : Nat :=
  leases.countP fun l => l.on k i

def ownerCount (o : Option W) : Nat := if o.isSome then 1 else 0

structure Books (pools : PoolType → History) (leases : List Lease)
    (Holds : PoolType → W → ModelHandle → Prop) (own : PoolType → Nat → Option W) : Prop where
  sound : ∀ k, (pools k).Sound (poolId k)
  held : ∀ k x h, Holds k x h → h = handleOf pools k h.blockIndex ∧
    h.blockIndex < (pools k).pool.blockCount ∧ own k h.blockIndex = some x
  owner : ∀ k i x, own k i = some x → i < (pools k).pool.blockCount ∧ Holds k x (handleOf pools k i)
  count : ∀ k, ∀ i < (pools k).pool.blockCount,
    ((pools k).pool.blocks i).refcount = ownerCount (own k i) + leaseCount leases k i
  leased : ∀ l ∈ leases, ∃ k, l.handle = handleOf pools k l.handle.blockIndex ∧
    l.handle.blockIndex < (pools k).pool.blockCount ∧
    (pools k).epoch l.handle.blockIndex = l.epoch

theorem poolId_injective (h : poolId k = poolId k') : k = k' := by
  cases k <;> cases k' <;> first | rfl | cases h

@[simp] theorem poolType_poolId (k : PoolType) : poolType (poolId k) = some k := by
  cases k <;> rfl

theorem Lease.on_iff {l : Lease} {k : PoolType} {i : Nat} :
    l.on k i = true ↔ l.handle.poolId = poolId k ∧ l.handle.blockIndex = i := by
  simp [Lease.on]

theorem leaseCount_eq_zero : leaseCount leases k i = 0 ↔ ∀ l ∈ leases, ¬ l.on k i = true :=
  List.countP_eq_zero

section

variable {pools : PoolType → History} 
 {Holds Holds' : PoolType → W → ModelHandle → Prop} {own : PoolType → Nat → Option W}

section

variable (hb : Books pools leases Holds own)
include hb

theorem Books.live_iff (hi : i < (pools k).pool.blockCount) :
    ((pools k).pool.blocks i).state ≠ .free ↔
      (own k i).isSome = true ∨ leaseCount leases k i ≠ 0 := by
  have hnone := ((hb.sound k).blocks i hi).none
  have hcount := hb.count k i hi
  rw [← not_iff_not, not_not, ← hnone, hcount, ownerCount]
  split_ifs with ho <;> simp [ho]

theorem Books.valid (hx : Holds k x h) : h.poolId = poolId k ∧ (pools k).pool.Valid h := by
  obtain ⟨heq, hlt, hown⟩ := hb.held k x h hx
  have hlive := (hb.live_iff hlt).mpr (.inl (by rw [hown]; rfl))
  refine ⟨by rw [heq]; rfl, hlt, hlive, ?_⟩
  rw [heq]
  rfl

theorem Books.lease_valid (hl : l ∈ leases) :
    ∃ k, l.handle.poolId = poolId k ∧ (pools k).pool.Valid l.handle ∧
      (pools k).epoch l.handle.blockIndex = l.epoch := by
  obtain ⟨k, heq, hlt, hepoch⟩ := hb.leased l hl
  have hpool : l.handle.poolId = poolId k := by
    rw [heq]
    rfl
  have hcount : leaseCount leases k l.handle.blockIndex ≠ 0 := fun hz =>
    leaseCount_eq_zero.mp hz l hl (on_iff.mpr ⟨hpool, rfl⟩)
  refine ⟨k, hpool, ⟨hlt, (hb.live_iff hlt).mpr (.inr hcount), ?_⟩, hepoch⟩
  rw [heq]
  rfl

theorem Books.unique
    (hx : Holds k x h) (hy : Holds k y h') (hsame : h.blockIndex = h'.blockIndex) : x = y := by
  have hx' := (hb.held k x h hx).2.2
  have hy' := (hb.held k y h' hy).2.2
  rw [hsame, hy'] at hx'
  exact (Option.some.inj hx').symm

theorem Books.block (hi : i < (pools k).pool.blockCount)
    (hblocks : H.pool.blocks = update (pools k).pool.blocks i b)
    (hn : H.pool.blockCount = (pools k).pool.blockCount)
    (hepoch : ∀ j, j ≠ i → H.epoch j = (pools k).epoch j) (hsound : H.Sound (poolId k))
    (hrest : ∀ k' y h', k' ≠ k ∨ h'.blockIndex ≠ i → (Holds' k' y h' ↔ Holds k' y h'))
    (hheld : ∀ y h', h'.blockIndex = i → Holds' k y h' →
      h' = ⟨i, poolId k, b.generation⟩ ∧ o = some y)
    (howner : ∀ y, o = some y → Holds' k y ⟨i, poolId k, b.generation⟩)
    (hcount : b.refcount = ownerCount o + leaseCount leases' k i)
    (hleases : ∀ k' j, k' ≠ k ∨ j ≠ i → leaseCount leases' k' j = leaseCount leases k' j)
    (hold : ∀ l ∈ leases', ¬ l.on k i = true → l ∈ leases)
    (hon : ∀ l ∈ leases', l.on k i = true →
      l.handle.generation = b.generation ∧ H.epoch i = l.epoch) :
    Books (update pools k H) leases' Holds' (update own k (update (own k) i o)) := by
  have hother : ∀ k' j, k' ≠ k ∨ j ≠ i →
      handleOf (update pools k H) k' j = handleOf pools k' j := by
    intro k' j hne
    by_cases hk : k' = k
    · subst hk
      have hj : j ≠ i := hne.resolve_left (fun hf => hf rfl)
      simp [handleOf, hblocks, hj]
    · simp [handleOf, hk]
  have hcounts : ∀ k', (update pools k H k').pool.blockCount = (pools k').pool.blockCount := by
    intro k'
    by_cases hk : k' = k
    · subst hk
      simp [hn]
    · simp [hk]
  have hself : handleOf (update pools k H) k i = ⟨i, poolId k, b.generation⟩ := by
    simp [handleOf, hblocks]
  have howns : ∀ k' j, k' ≠ k ∨ j ≠ i → update own k (update (own k) i o) k' j = own k' j := by
    intro k' j hne
    by_cases hk : k' = k
    · subst hk
      have hj : j ≠ i := hne.resolve_left (fun hf => hf rfl)
      simp [hj]
    · simp [hk]
  constructor
  · intro k'
    by_cases hk : k' = k
    · subst hk
      simpa using hsound
    · simpa [hk] using hb.sound k'
  · intro k' y h' hh
    rw [hcounts]
    by_cases hat : k' = k ∧ h'.blockIndex = i
    · obtain ⟨rfl, hidx⟩ := hat
      obtain ⟨heq, ho⟩ := hheld y h' hidx hh
      rw [hidx, hself]
      exact ⟨heq, hi, by simp [ho]⟩
    have hne := not_and_or.mp hat
    rw [hother _ _ hne, howns _ _ hne]
    exact hb.held k' y h' ((hrest k' y h' hne).mp hh)
  · intro k' j y hy
    rw [hcounts]
    by_cases hat : k' = k ∧ j = i
    · obtain ⟨rfl, rfl⟩ := hat
      rw [hself]
      exact ⟨hi, howner y (by simpa using hy)⟩
    have hne := not_and_or.mp hat
    rw [howns _ _ hne] at hy
    obtain ⟨hlt, hh⟩ := hb.owner k' j y hy
    rw [hother _ _ hne]
    exact ⟨hlt, (hrest k' y _ hne).mpr hh⟩
  · intro k' j hj
    rw [hcounts] at hj
    by_cases hat : k' = k ∧ j = i
    · obtain ⟨rfl, rfl⟩ := hat
      simpa [hblocks] using hcount
    have hne := not_and_or.mp hat
    rw [howns _ _ hne, hleases _ _ hne, ← hb.count k' j hj]
    by_cases hk : k' = k
    · subst hk
      have hji : j ≠ i := hne.resolve_left (fun hf => hf rfl)
      simp [hblocks, hji]
    · simp [hk]
  intro l hl
  by_cases hat : l.on k i = true
  · obtain ⟨hpool, hidx⟩ := on_iff.mp hat
    obtain ⟨hgen, he⟩ := hon l hl hat
    refine ⟨k, ?_, ?_, ?_⟩
    · rw [hidx, hself]
      cases hlh : l.handle with
      | mk bi pi g => simp_all
    · rw [hcounts, hidx]
      exact hi
    · simpa [hidx] using he
  obtain ⟨k', heq, hlt, he⟩ := hb.leased l (hold l hl hat)
  have hne : k' ≠ k ∨ l.handle.blockIndex ≠ i := by
    refine not_and_or.mp fun hboth => hat (on_iff.mpr ⟨?_, hboth.2⟩)
    rw [heq, ← hboth.1]
    rfl
  refine ⟨k', ?_, by rw [hcounts]; exact hlt, ?_⟩
  · rw [hother _ _ hne]
    exact heq
  by_cases hk : k' = k
  · subst hk
    have hidx : l.handle.blockIndex ≠ i := hne.resolve_left (fun hf => hf rfl)
    rw [update_self, hepoch _ hidx]
    exact he
  rw [update_of_ne hk]
  exact he

theorem Books.own_eq_none
    (hi : i < (pools k).pool.blockCount) (hfree : ((pools k).pool.blocks i).state = .free) :
    own k i = none ∧ leaseCount leases k i = 0 := by
  have hnot := (not_congr (hb.live_iff hi)).mp (not_not.mpr hfree)
  simpa [not_or] using hnot

theorem Books.alloc (halloc : (pools k).pool.alloc (poolId k) now task = .ok (p, h))
    (hHolds : ∀ k' y h', Holds' k' y h' ↔ Holds k' y h' ∨ k' = k ∧ y = x ∧ h' = h) :
    ∃ own', Books (update pools k ((pools k).perform (poolId k) (.alloc now task))) leases Holds'
      own' := by
  obtain ⟨i, hi, hfree, hr⟩ := MemoryPool.alloc_eq_ok halloc
  obtain ⟨hp, hh⟩ := Prod.mk.inj hr
  obtain ⟨hnone, hzero⟩ := hb.own_eq_none hi hfree
  have hperform : (pools k).perform (poolId k) (.alloc now task) =
      { pools k with
        pool := p
        grants := update (pools k).grants h.blockIndex 1
        frees := update (pools k).frees h.blockIndex 0
        issued := (h, (pools k).epoch h.blockIndex) :: (pools k).issued } := by
    simp only [perform, halloc]
  have hnobody : ∀ y h', h'.blockIndex = i → ¬ Holds k y h' := by
    rintro y h' rfl hy
    have hown := (hb.held k y h' hy).2.2
    rw [hnone] at hown
    cases hown
  refine ⟨_, hb.block (o := some x) (b := ((pools k).pool.blocks i).take now task) hi ?_ ?_ ?_
    ((hb.sound k).change (perform_change _ rfl)) ?_ ?_ ?_ ?_ (fun _ _ _ => rfl)
    (fun l hl _ => hl) ?_⟩
  · rw [hperform, hp]
    rfl
  · rw [hperform, hp]
    rfl
  · intro j _
    rw [hperform]
  · intro k' y h' hne
    rw [hHolds]
    refine or_iff_left ?_
    rintro ⟨rfl, -, rfl⟩
    rw [hh] at hne
    exact hne.elim (fun hf => hf rfl) fun hf => hf rfl
  · intro y h' hidx hy
    rcases (hHolds k y h').mp hy with hy | ⟨-, rfl, rfl⟩
    · exact absurd hy (hnobody y h' hidx)
    · exact ⟨hh, rfl⟩
  · intro y hy
    cases hy
    exact (hHolds _ _ _).mpr (.inr ⟨rfl, rfl, hh.symm⟩)
  · simp [take, ownerCount, hzero]
  intro l hl hon
  exact absurd hon (leaseCount_eq_zero.mp hzero l hl)

end

theorem free_unshare (hv : (pools k).pool.Valid h)
    (hmany : 1 < ((pools k).pool.blocks h.blockIndex).refcount) :
    (pools k).perform (poolId k) (.free h) =
      { pools k with
        pool := (pools k).pool.set h.blockIndex ((pools k).pool.blocks h.blockIndex).unshare
        frees := History.bump (pools k).frees h.blockIndex } := by
  have hok := MemoryPool.free_eq_ok.mpr ⟨hv, rfl⟩
  rw [if_pos hmany] at hok
  have hlive := unshare_live hv.live
  simp [perform, hok, MemoryPool.set, hlive]

theorem free_release (hv : (pools k).pool.Valid h)
    (hone : ((pools k).pool.blocks h.blockIndex).refcount ≤ 1) :
    (pools k).perform (poolId k) (.free h) =
      { pools k with
        pool := { (pools k).pool.set h.blockIndex ((pools k).pool.blocks h.blockIndex).release with
          freeCount := (pools k).pool.freeCount + 1 }
        frees := History.bump (pools k).frees h.blockIndex
        epoch := History.bump (pools k).epoch h.blockIndex } := by
  have hok := MemoryPool.free_eq_ok.mpr ⟨hv, rfl⟩
  rw [if_neg (not_lt.mpr hone)] at hok
  simp [perform, hok, MemoryPool.set, release]

section

variable (hb : Books pools leases Holds own)
include hb

theorem Books.free_block (hv : (pools k).pool.Valid h) (hpool : h.poolId = poolId k)
    (hrest : ∀ k' y h', k' ≠ k ∨ h'.blockIndex ≠ h.blockIndex → (Holds' k' y h' ↔ Holds k' y h'))
    (hheld : ∀ y h', h'.blockIndex = h.blockIndex → Holds' k y h' → h' = h ∧ o = some y)
    (howner : ∀ y, o = some y → Holds' k y h)
    (hcount : ((pools k).pool.blocks h.blockIndex).refcount =
      ownerCount o + leaseCount leases' k h.blockIndex + 1)
    (hleases : ∀ k' j, k' ≠ k ∨ j ≠ h.blockIndex → leaseCount leases' k' j = leaseCount leases k' j)
    (hsub : ∀ l ∈ leases', l ∈ leases) :
    Books (update pools k ((pools k).perform (poolId k) (.free h))) leases' Holds'
      (update own k (update (own k) h.blockIndex o)) := by
  have hsound : ((pools k).perform (poolId k) (.free h)).Sound (poolId k) :=
    (hb.sound k).change (perform_change _ (by simp [Op.goesTo, hpool]))
  have hgen : ∀ l ∈ leases', l.on k h.blockIndex = true →
      l.handle.generation = ((pools k).pool.blocks h.blockIndex).generation ∧
        (pools k).epoch h.blockIndex = l.epoch := by
    intro l hl hon
    obtain ⟨hlp, hidx⟩ := on_iff.mp hon
    obtain ⟨k', heq, -, hepoch⟩ := hb.leased l (hsub l hl)
    have hk : k' = k := poolId_injective (by rw [← hlp, heq]; rfl)
    subst hk
    rw [← hidx]
    exact ⟨by rw [heq]; rfl, hepoch⟩
  have hthis : h = ⟨h.blockIndex, poolId k, ((pools k).pool.blocks h.blockIndex).generation⟩ := by
    rw [hv.generation, ← hpool]
  by_cases hmany : 1 < ((pools k).pool.blocks h.blockIndex).refcount
  · refine hb.block (b := ((pools k).pool.blocks h.blockIndex).unshare) hv.lt
      (by rw [free_unshare hv hmany]; rfl) (by rw [free_unshare hv hmany]; rfl)
      (fun j _ => by rw [free_unshare hv hmany]) hsound hrest ?_ ?_ ?_ hleases
      (fun l hl _ => hsub l hl) ?_
    · intro y h' hidx hy
      obtain ⟨rfl, ho⟩ := hheld y h' hidx hy
      exact ⟨hthis, ho⟩
    · intro y hy
      have hy' := howner y hy
      rw [hthis] at hy'
      exact hy'
    · simp only [unshare]
      omega
    · intro l hl hon
      rw [free_unshare hv hmany]
      exact hgen l hl hon
  have hone := not_lt.mp hmany
  have hzero : ownerCount o = 0 ∧ leaseCount leases' k h.blockIndex = 0 := by omega
  have hnone : o = none := by
    cases o with
    | none => rfl
    | some y => simp [ownerCount] at hzero
  refine hb.block (b := ((pools k).pool.blocks h.blockIndex).release) hv.lt
    (by rw [free_release hv hone]; rfl) (by rw [free_release hv hone]; rfl)
    (fun j hj => by rw [free_release hv hone]; exact bump_of_ne hj) hsound hrest
    ?_ ?_ ?_ hleases (fun l hl _ => hsub l hl) ?_
  · intro y h' hidx hy
    obtain ⟨-, ho⟩ := hheld y h' hidx hy
    rw [hnone] at ho
    cases ho
  · intro y hy
    rw [hnone] at hy
    cases hy
  · simp [release, hzero]
  intro l hl hon
  exact absurd hon (leaseCount_eq_zero.mp hzero.2 l hl)

theorem Books.free (hx : Holds k x h)
    (hHolds : ∀ k' y h', Holds' k' y h' ↔ Holds k' y h' ∧ ¬ (k' = k ∧ y = x ∧ h' = h)) :
    ∃ own', Books (update pools k ((pools k).perform (poolId k) (.free h))) leases Holds' own' := by
  obtain ⟨hpool, hv⟩ := hb.valid hx
  obtain ⟨heq, hlt, hown⟩ := hb.held k x h hx
  refine ⟨_, hb.free_block (o := none) hv hpool ?_ ?_ nofun ?_ (fun _ _ _ => rfl) fun l hl => hl⟩
  · intro k' y h' hne
    rw [hHolds]
    refine and_iff_left ?_
    rintro ⟨rfl, -, rfl⟩
    exact hne.elim (fun hf => hf rfl) fun hf => hf rfl
  · intro y h' hidx hy
    obtain ⟨hy, hnot⟩ := (hHolds k y h').mp hy
    have hsame : h' = h := by
      rw [heq, (hb.held k y h' hy).1, hidx]
    exact absurd ⟨rfl, (hb.unique hx hy hidx.symm).symm, hsame⟩ hnot
  rw [hb.count k _ hlt, hown]
  simp [ownerCount]
  omega

theorem Books.unshare (hperm : leases.Perm (l :: leases')) (hpool : l.handle.poolId = poolId k) :
    ∃ own', Books (update pools k ((pools k).perform (poolId k) (.free l.handle)))
      leases' Holds own' := by
  have hl : l ∈ leases := hperm.mem_iff.mpr List.mem_cons_self
  obtain ⟨k', hpool', hv, -⟩ := hb.lease_valid hl
  have hk : k' = k := poolId_injective (hpool'.symm.trans hpool)
  subst hk
  have hthis : l.handle = handleOf pools k' l.handle.blockIndex := by
    rw [handleOf, hv.generation, ← hpool]
  have hcounts : ∀ k₁ j, leaseCount leases k₁ j =
      leaseCount leases' k₁ j + if l.on k₁ j = true then 1 else 0 := by
    intro k₁ j
    rw [leaseCount, hperm.countP_eq, List.countP_cons]
    rfl
  refine ⟨_, hb.free_block (o := own k' l.handle.blockIndex) hv hpool (fun _ _ _ _ => Iff.rfl)
    ?_ ?_ ?_ ?_ fun l' hl' => hperm.mem_iff.mpr (List.mem_cons_of_mem _ hl')⟩
  · intro y h' hidx hy
    obtain ⟨heq, -, hown⟩ := hb.held k' y h' hy
    rw [hidx] at heq hown
    exact ⟨heq.trans hthis.symm, hown⟩
  · intro y hy
    rw [hthis]
    exact (hb.owner k' _ y hy).2
  · rw [hb.count k' _ hv.lt, hcounts, if_pos (on_iff.mpr ⟨hpool, rfl⟩)]
    omega
  intro k₁ j hne
  rw [hcounts, if_neg, Nat.add_zero]
  intro hon
  obtain ⟨hp, hj⟩ := on_iff.mp hon
  have hk := poolId_injective (hpool.symm.trans hp)
  exact hne.elim (fun hf => hf hk.symm) fun hf => hf hj.symm

theorem Books.share (hx : Holds k x h)
    (hroom : ((pools k).pool.blocks h.blockIndex).refcount < maxU16) :
    ∃ own', Books (update pools k ((pools k).perform (poolId k) (.share h)))
      (⟨h, (pools k).epoch h.blockIndex⟩ :: leases) Holds own' := by
  obtain ⟨hpool, hv⟩ := hb.valid hx
  obtain ⟨heq, hlt, hown⟩ := hb.held k x h hx
  have hperform : (pools k).perform (poolId k) (.share h) =
      { pools k with
        pool := (pools k).pool.set h.blockIndex ((pools k).pool.blocks h.blockIndex).retain
        grants := History.bump (pools k).grants h.blockIndex
        issued := (h, (pools k).epoch h.blockIndex) :: (pools k).issued } := by
    have hok := MemoryPool.share_eq_ok.mpr ⟨hv, rfl⟩
    simp only [History.perform, hok]
  have hcounts : ∀ k' j, leaseCount (⟨h, (pools k).epoch h.blockIndex⟩ :: leases) k' j =
      leaseCount leases k' j + if (⟨h, (pools k).epoch h.blockIndex⟩ : Lease).on k' j = true
        then 1 else 0 := by
    intro k' j
    rw [leaseCount, List.countP_cons]
    rfl
  refine ⟨_, hb.block (o := own k h.blockIndex)
    (b := ((pools k).pool.blocks h.blockIndex).retain) hlt (by rw [hperform]; rfl)
    (by rw [hperform]; rfl) (fun j _ => by rw [hperform])
    ((hb.sound k).change (perform_change _ (by simp [Op.goesTo, hpool])))
    (fun _ _ _ _ => Iff.rfl) ?_ ?_ ?_ ?_ ?_ ?_⟩
  · intro y h' hidx hy
    obtain ⟨heq', -, hown'⟩ := hb.held k y h' hy
    rw [hidx] at heq' hown'
    exact ⟨heq', hown'⟩
  · intro y hy
    exact (hb.owner k _ y hy).2
  · have hcount := hb.count k _ hlt
    rw [hcounts, if_pos (Lease.on_iff.mpr ⟨hpool, rfl⟩)]
    simp only [BlockSlot.retain]
    omega
  · intro k' j hne
    rw [hcounts, if_neg, Nat.add_zero]
    intro hon
    obtain ⟨hp, hj⟩ := Lease.on_iff.mp hon
    have hk := poolId_injective (hpool.symm.trans hp)
    exact hne.elim (fun hf => hf hk.symm) fun hf => hf hj.symm
  · intro l hl hnot
    rcases List.mem_cons.mp hl with rfl | hl
    · exact absurd (Lease.on_iff.mpr ⟨hpool, rfl⟩) hnot
    · exact hl
  intro l hl hon
  rw [hperform]
  rcases List.mem_cons.mp hl with rfl | hl
  · exact ⟨hv.generation.symm, rfl⟩
  obtain ⟨hlp, hidx⟩ := Lease.on_iff.mp hon
  obtain ⟨k', heq', -, hepoch⟩ := hb.leased l hl
  have hk : k' = k := poolId_injective (by rw [← hlp, heq']; rfl)
  subst hk
  rw [← hidx]
  exact ⟨by rw [heq']; rfl, hepoch⟩

theorem Books.evict (hreclaim : ((pools k).pool.reclaim (poolId k) i g).2 = true)
    (hzero : leaseCount leases k i = 0)
    (hHolds : ∀ k' y h', Holds' k' y h' ↔ Holds k' y h' ∧ ¬ (k' = k ∧ h'.blockIndex = i)) :
    ∃ own', Books (update pools k ((pools k).perform (poolId k) (.evict i g))) leases
      Holds' own' := by
  have hpair : (pools k).pool.reclaim (poolId k) i g =
      (((pools k).pool.reclaim (poolId k) i g).1, true) := by
    rw [← hreclaim]
  obtain ⟨hv, hone, hp⟩ := MemoryPool.reclaim_eq_true.mp hpair
  have hperform : (pools k).perform (poolId k) (.evict i g) =
      { pools k with
        pool := ((pools k).pool.reclaim (poolId k) i g).1
        epoch := bump (pools k).epoch i
        reclaimed := (pools k).reclaimed + 1 } := by
    simp only [perform]
    rw [hpair]
  refine ⟨_, hb.block (o := none) (b := ((pools k).pool.blocks i).release) hv.lt ?_ ?_ ?_
    ((hb.sound k).change (perform_change _ rfl)) ?_ ?_ (fun y hy => by cases hy) ?_
    (fun _ _ _ => rfl) (fun l hl _ => hl) ?_⟩
  · rw [hperform, hp]
    rfl
  · rw [hperform, hp]
    rfl
  · intro j hj
    rw [hperform]
    exact bump_of_ne hj
  · intro k' y h' hne
    rw [hHolds]
    refine and_iff_left fun hat => ?_
    exact hne.elim (fun hf => hf hat.1) fun hf => hf hat.2
  · intro y h' hidx hy
    exact absurd ⟨rfl, hidx⟩ ((hHolds k y h').mp hy).2
  · simp [release, ownerCount, hzero]
  intro l hl hon
  exact absurd hon (leaseCount_eq_zero.mp hzero l hl)

theorem Books.rename (ρ : W ≃ W) (hHolds : ∀ k' y h', Holds' k' y h' ↔ Holds k' (ρ y) h') :
    ∃ own', Books pools leases Holds' own' := by
  refine ⟨fun k' j => (own k' j).map ρ.symm, hb.sound, ?_, ?_, ?_, hb.leased⟩
  · intro k' y h' hy
    obtain ⟨heq, hlt, hown⟩ := hb.held k' _ h' ((hHolds k' y h').mp hy)
    exact ⟨heq, hlt, by simp [hown]⟩
  · intro k' j y hy
    obtain ⟨z, hz, rfl⟩ := Option.map_eq_some_iff.mp hy
    obtain ⟨hlt, hh⟩ := hb.owner k' j z hz
    exact ⟨hlt, (hHolds k' _ _).mpr (by simpa using hh)⟩
  intro k' j hj
  rw [hb.count k' j hj]
  simp [ownerCount]

theorem Books.congr
    (hHolds : ∀ k' y h', Holds' k' y h' ↔ Holds k' y h') : ∃ own', Books pools leases Holds' own' :=
  hb.rename (Equiv.refl W) hHolds

end

end

end SlmOs.Loader
