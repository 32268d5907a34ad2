import SlmOs.Loader.Moves

/-!
# Models own their memory

The owners of blocks are the slots of the registry, the calls that are building a
payload or giving one back, and others.  The books stay in order as long as the eviction
policy takes blocks from others only.
-/

namespace SlmOs.Loader

open Function Foundation ModelMem World List

inductive Who where
  | slot (i : Nat)
  | call (t : Nat)
  | other
  deriving DecidableEq, Repr

namespace World

def Holds (s : World) (k : PoolType) : Who → ModelHandle → Prop
  | .slot i, h => i < maxModels ∧ (s.entries i).active = true ∧ (s.entries i).handle k = h
  | .call t, h => (s.calls t).pc.holds k = some h
  | .other, h => s.others k h.blockIndex = some h

def leaseList (s : World) : List Lease := s.leases.map Prod.snd

def Owned (s : World) : Prop := ∃ own, Books s.pools s.leaseList s.Holds own

structure Listed (s : World) : Prop where
  mem : ∀ t l, (s.calls t).pc.lease = some l ↔ (t, l) ∈ s.leases
  nodup : s.leases.Nodup

end World

/-- A reclaim takes a block from others, and a lease finds room in the count. -/
def Spares (s : World) : Act → Prop
  | .go t _ =>
    match (s.calls t).pc with
    | .reclaim r candidates _ victim =>
      ∀ c, candidates[victim]? = some c →
        ((s.pools r.pool).pool.reclaim (poolId r.pool) (slotOfBlockId c.1.blockId) c.2).2 = true →
        s.others r.pool (slotOfBlockId c.1.blockId) =
          some ⟨slotOfBlockId c.1.blockId, poolId r.pool, c.2⟩
    | .acquire index =>
      ∀ k, ((s.pools k).pool.blocks (s.entries index).weights.blockIndex).refcount < maxU16
    | _ => True
  | _ => True

section

variable {s s' : World} {t : Nat} {inp : Input}

section

variable (s : World)

@[simp] theorem goto_pc (t u : Nat) (pc : Pc) :
    ((s.goto t pc).calls u).pc = if u = t then pc else (s.calls u).pc := by
  by_cases h : u = t <;> simp [goto, h]

@[simp] theorem free_calls (h : ModelHandle) : (s.free h).calls = s.calls := by
  unfold free
  split <;> rfl

@[simp] theorem free_leases (h : ModelHandle) : (s.free h).leases = s.leases := by
  unfold free
  split <;> rfl

@[simp] theorem free_entries (h : ModelHandle) : (s.free h).entries = s.entries := by
  unfold free
  split <;> rfl

@[simp] theorem free_others (h : ModelHandle) : (s.free h).others = s.others := by
  unfold free
  split <;> rfl

theorem free_pools (hpool : h.poolId = poolId k) :
    (s.free h).pools = update s.pools k ((s.pools k).perform (poolId k) (.free h)) := by
  simp [free, hpool, perform]

@[simp] theorem give_pools (r : Request) (h : ModelHandle) : (s.give r h).pools = s.pools := by
  cases r <;> rfl

@[simp] theorem give_calls (r : Request) (h : ModelHandle) : (s.give r h).calls = s.calls := by
  cases r <;> rfl

@[simp] theorem give_leases (r : Request) (h : ModelHandle) : (s.give r h).leases = s.leases := by
  cases r <;> rfl

@[simp] theorem give_entries (r : Request) (h : ModelHandle) :
    (s.give r h).entries = s.entries := by
  cases r <;> rfl

end

/-! ## Leases -/

theorem World.Listed.keep (h : s.Listed) (t : Nat) (pc' : Pc)
    (hcalls : ∀ u, (s'.calls u).pc = if u = t then pc' else (s.calls u).pc)
    (hleases : s'.leases = s.leases) (hlease : pc'.lease = (s.calls t).pc.lease) : s'.Listed := by
  refine ⟨fun u l => ?_, hleases ▸ h.nodup⟩
  rw [hcalls, hleases, ← h.mem]
  split_ifs with hu
  · rw [hu, hlease]
  · rfl

theorem request_lease {pc : Pc} {r : Request} (h : pc.request = some r) : pc.lease = none := by
  cases pc <;> first | rfl | cases h

theorem granted_lease (r : Request) (h : ModelHandle) : (r.granted h).lease = none := by
  cases r with
  | workspace job version w => cases job <;> rfl
  | _ => rfl

theorem World.Listed.move (h : s.Listed) (hm : Move s t s') : s'.Listed := by
  cases hm with
  | quiet pc' hholds hlease hbuilt => exact h.keep t pc' (goto_pc s t · pc') rfl hlease
  | grant r now owner p k hpc halloc =>
    refine h.keep t (r.granted k) (fun u => ?_) ?_ ?_
    · simp [World.perform]
    · simp [World.goto, World.perform]
    · rw [granted_lease, request_lease hpc]
  | evict r candidates stale victim c hpc hc hreclaim | install p i now hpc hi
  | replace i p now hpc hactive =>
    exact h.keep t _ (goto_pc _ t · _) rfl (by rw [hpc]; rfl)
  | displace p i now hpc hfull hi =>
    refine h.keep t (.returned (.loaded i)) (fun u => ?_) ?_ (by rw [hpc]; rfl)
    · simp [World.setEntry]
    · simp [World.goto, World.setEntry]
  | freeWeights w ws r pc' hpc hpc' =>
    refine h.keep t pc' (fun u => ?_) ?_ ?_
    · simp
    · simp [World.goto]
    subst hpc'
    cases ws <;> rw [hpc] <;> rfl
  | freeWorkspace ws r hpc =>
    refine h.keep t (.returned r) (fun u => ?_) ?_ (by rw [hpc]; rfl)
    · simp
    · simp [World.goto]
  | acquire index k hpc hlt hactive hpool hok =>
    have hnone : (s.calls t).pc.lease = none := by rw [hpc]; rfl
    constructor
    · intro u l
      by_cases hu : u = t
      · subst hu
        have hno : (u, l) ∉ s.leases := fun hm => by
          rw [← h.mem, hnone] at hm
          cases hm
        simp [World.goto, Pc.lease, hno, eq_comm]
      have hmem := h.mem u l
      simp [World.goto, World.perform, hu, hmem]
    refine nodup_cons.mpr ⟨fun hm => ?_, h.nodup⟩
    rw [← h.mem, hnone] at hm
    cases hm
  | unshare l r hpc =>
    have hsome : (s.calls t).pc.lease = some l := by rw [hpc]; rfl
    constructor
    · intro u l'
      by_cases hu : u = t
      · subst hu
        simp only [World.goto, update_self, Pc.lease, reduceCtorEq, false_iff]
        intro hm
        obtain ⟨hne, hm⟩ := (h.nodup.mem_erase_iff).mp hm
        rw [← h.mem, hsome] at hm
        cases hm
        exact hne rfl
      have hmem := h.mem u l'
      have hne : (u, l') ≠ (t, l) := fun heq => hu (Prod.mk.inj heq).1
      simp [World.goto, hu, hmem, mem_erase_of_ne hne]
    · exact h.nodup.erase _

/-! ## Owners -/

section

variable {k : PoolType} {x : Who} {h : ModelHandle}

section

variable (ho : s.Owned)
include ho

theorem World.Owned.congr (hpools : s'.pools = s.pools) (hleases : s'.leases = s.leases)
    (hHolds : ∀ k x m, s'.Holds k x m ↔ s.Holds k x m) : s'.Owned := by
  obtain ⟨own, hb⟩ := ho
  rw [World.Owned, leaseList, hpools, hleases]
  exact hb.congr hHolds

theorem World.Owned.alloc (halloc : (s.pools k).pool.alloc (poolId k) now owner = .ok (p, h))
    (hpools : s'.pools = update s.pools k ((s.pools k).perform (poolId k) (.alloc now owner)))
    (hleases : s'.leases = s.leases)
    (hHolds : ∀ k' y m, s'.Holds k' y m ↔ s.Holds k' y m ∨ k' = k ∧ y = x ∧ m = h) : s'.Owned := by
  obtain ⟨own, hb⟩ := ho
  rw [World.Owned, leaseList, hpools, hleases]
  exact hb.alloc halloc hHolds

theorem World.Owned.free (hx : s.Holds k x h)
    (hpools : s'.pools = (s.free h).pools) (hleases : s'.leases = s.leases)
    (hHolds : ∀ k' y m, s'.Holds k' y m ↔ s.Holds k' y m ∧ ¬ (k' = k ∧ y = x ∧ m = h)) :
    s'.Owned := by
  obtain ⟨own, hb⟩ := ho
  rw [World.Owned, leaseList, hpools, hleases, free_pools s (hb.valid hx).1]
  exact hb.free hx hHolds

theorem World.Owned.evict (hreclaim : ((s.pools k).pool.reclaim (poolId k) i g).2 = true)
    (hx : s.Holds k x h) (hi : h.blockIndex = i)
    (hpools : s'.pools = update s.pools k ((s.pools k).perform (poolId k) (.evict i g)))
    (hleases : s'.leases = s.leases)
    (hHolds : ∀ k' y m, s'.Holds k' y m ↔ s.Holds k' y m ∧ ¬ (k' = k ∧ m.blockIndex = i)) :
    s'.Owned := by
  obtain ⟨own, hb⟩ := ho
  have hpair : (s.pools k).pool.reclaim (poolId k) i g =
      (((s.pools k).pool.reclaim (poolId k) i g).1, true) := by rw [← hreclaim]
  obtain ⟨hv, hone, -⟩ := MemoryPool.reclaim_eq_true.mp hpair
  -- the owner's is the only reference
  have hzero : leaseCount s.leaseList k i = 0 := by
    have hcount := hb.count k i hv.lt
    obtain ⟨-, -, hown⟩ := hb.held k x h hx
    rw [hi] at hown
    rw [hown] at hcount
    simp only [ownerCount, Option.isSome_some, if_true] at hcount
    omega
  rw [World.Owned, leaseList, hpools, hleases]
  exact hb.evict hreclaim hzero hHolds

theorem World.Owned.rename (ρ : Who ≃ Who) (hpools : s'.pools = s.pools)
    (hleases : s'.leases = s.leases)
    (hHolds : ∀ k' y m, s'.Holds k' y m ↔ s.Holds k' (ρ y) m) : s'.Owned := by
  obtain ⟨own, hb⟩ := ho
  rw [World.Owned, leaseList, hpools, hleases]
  exact hb.rename ρ hHolds

end

end

theorem holds_call (s s' : World) (t : Nat) (pc' : Pc) (hentries : s'.entries = s.entries)
    (hothers : s'.others = s.others)
    (hcalls : ∀ u, (s'.calls u).pc = if u = t then pc' else (s.calls u).pc)
    (k : PoolType) (x : Who) (m : ModelHandle) :
    s'.Holds k x m ↔ if x = .call t then pc'.holds k = some m else s.Holds k x m := by
  cases x with
  | slot i => simp [World.Holds, hentries]
  | other => simp [World.Holds, hothers]
  | call u =>
    by_cases hu : u = t <;> simp [World.Holds, hcalls, hu]

theorem setOther_others (s : World) (k : PoolType) (i : Nat) (o : Option ModelHandle)
    (k' : PoolType) (j : Nat) :
    (s.setOther k i o).others k' j = if k' = k ∧ j = i then o else s.others k' j := by
  by_cases hk : k' = k
  · subst hk
    by_cases hj : j = i <;> simp [setOther, hj]
  · simp [setOther, hk]

theorem request_holds {pc : Pc} {r : Request} (h : pc.request = some r) (k : PoolType) :
    pc.holds k = r.holds k := by
  cases pc <;> first | cases h; rfl | cases h

theorem granted_holds {r : Request} (hr : ∀ k, r ≠ .bare k) (h : ModelHandle) (k : PoolType) :
    (r.granted h).holds k = if k = r.pool then some h else r.holds k := by
  cases r with
  | weights job version => cases k <;> rfl
  | workspace job version w => cases job <;> cases k <;> rfl
  | bare pool => exact absurd rfl (hr pool)

theorem request_holds_pool {r : Request} : r.holds r.pool = none := by
  cases r <;> rfl

section

variable {r : Request} {now owner : Nat} {p : MemoryPool} {h : ModelHandle}

theorem World.Owned.grant_call (ho : s.Owned) (hpc : (s.calls t).pc.request = some r)
    (hr : ∀ k, r ≠ .bare k)
    (halloc : (s.pools r.pool).pool.alloc (poolId r.pool) now owner = .ok (p, h)) :
    (((s.perform r.pool (.alloc now owner)).give r h).goto t (r.granted h)).Owned := by
  have hothers : (((s.perform r.pool (.alloc now owner)).give r h).goto t
      (r.granted h)).others = s.others := by
    cases r with
    | bare k => exact absurd rfl (hr k)
    | _ => rfl
  refine ho.alloc (x := .call t) halloc (by simp [World.goto, World.perform])
    (by simp [World.goto, World.perform]) fun k x m => ?_
  rw [holds_call s _ t (r.granted h) (by simp [World.goto, World.perform]) hothers
    (fun u => by simp [World.perform])]
  split_ifs with hx
  · subst hx
    rw [granted_holds hr]
    simp only [World.Holds, request_holds hpc]
    split_ifs with hk
    · subst hk
      simp [request_holds_pool, eq_comm]
    · simp [hk]
  · simp [hx]

theorem World.Owned.grant_other (ho : s.Owned) (hpc : (s.calls t).pc.request = some (.bare pool))
    (halloc : (s.pools pool).pool.alloc (poolId pool) now owner = .ok (p, h)) :
    (((s.perform pool (.alloc now owner)).give (.bare pool) h).goto t
      (.returned (.handle h))).Owned := by
  have hnone : ∀ m, m.blockIndex = h.blockIndex → ¬ s.Holds pool .other m := by
    intro m hm hx
    obtain ⟨own, hb⟩ := ho
    obtain ⟨i, hi, hfree, hr⟩ := MemoryPool.alloc_eq_ok halloc
    have hlive := (hb.valid hx).2.live
    rw [hm, (Prod.mk.inj hr).2] at hlive
    exact hlive hfree
  refine ho.alloc (x := .other) halloc rfl rfl fun k x m => ?_
  cases x with
  | slot i => simp [World.Holds, goto, give, setOther, setGiven, perform]
  | call u =>
    by_cases hu : u = t
    · have hno : (s.calls t).pc.holds k = none := by
        rw [request_holds hpc]
        rfl
      simp only [World.Holds, goto_pc, hu, if_true, hno]
      simp [Pc.holds]
    · simp [World.Holds, hu, give, setOther, setGiven, perform]
  | other =>
    have hothers : (((s.perform pool (.alloc now owner)).give (.bare pool) h).goto t
        (.returned (.handle h))).others k m.blockIndex =
        if k = pool ∧ m.blockIndex = h.blockIndex then some h
          else s.others k m.blockIndex :=
      setOther_others _ _ _ _ _ _
    simp only [World.Holds, hothers, true_and]
    split_ifs with hat
    · obtain ⟨rfl, hm⟩ := hat
      have hno : ¬ s.others k m.blockIndex = some m := hnone m hm
      simp [hno, eq_comm]
    refine (or_iff_left ?_).symm
    rintro ⟨rfl, rfl⟩
    exact hat ⟨rfl, rfl⟩

theorem World.Owned.free_call (ho : s.Owned) (hheld : (s.calls t).pc.holds k = some h)
    (hpc' : ∀ k', pc'.holds k' = if k' = k then none else (s.calls t).pc.holds k') :
    ((s.free h).goto t pc').Owned := by
  refine ho.free (x := .call t) (k := k) hheld rfl (by simp [goto]) fun k' x m => ?_
  rw [holds_call s _ t pc' (by simp [goto]) (by simp [goto]) (fun u => by simp)]
  split_ifs with hx
  · subst hx
    rw [hpc']
    split_ifs with hk
    · subst hk
      simp only [World.Holds, hheld, Option.some.injEq, true_and, false_iff]
      rintro ⟨rfl, hne⟩
      exact hne rfl
    · simp [World.Holds, hk]
  · simp [hx]

variable {i : Nat}

theorem World.Owned.evict_other (ho : s.Owned) (hholds : ∀ k, r.holds k = (s.calls t).pc.holds k)
    (hreclaim : ((s.pools r.pool).pool.reclaim (poolId r.pool) i g).2 = true)
    (hother : s.others r.pool i = some ⟨i, poolId r.pool, g⟩) :
    (((s.perform r.pool (.evict i g)).setOther r.pool i none).goto t (.retry r)).Owned := by
  refine ho.evict (x := .other) (h := ⟨i, poolId r.pool, g⟩) hreclaim hother rfl rfl rfl
    fun k x m => ?_
  have hrest : x ≠ .other →
      (s.Holds k x m ↔ s.Holds k x m ∧ ¬ (k = r.pool ∧ m.blockIndex = i)) := by
    refine fun hx => (and_iff_left_of_imp ?_).symm
    rintro hold ⟨rfl, hm⟩
    obtain ⟨own, hb⟩ := ho
    have hthis : s.Holds r.pool .other ⟨i, poolId r.pool, g⟩ := hother
    exact hx (hb.unique hold hthis hm)
  cases x with
  | slot j => exact hrest nofun
  | call u =>
    refine Iff.trans ?_ (hrest nofun)
    by_cases hu : u = t
    · simp only [World.Holds, goto_pc, hu, if_true]
      rw [← hholds]
      rfl
    · simp [World.Holds, hu, setOther, perform]
  | other =>
    have hothers : (((s.perform r.pool (.evict i g)).setOther r.pool i none).goto t
        (.retry r)).others k m.blockIndex =
        if k = r.pool ∧ m.blockIndex = i then none else s.others k m.blockIndex :=
      setOther_others _ _ _ _ _ _
    simp only [World.Holds, hothers]
    split_ifs with hat <;> simp [hat]

/-! ## Changes of the registry -/

theorem find?_free {entries : Nat → Entry} (h : freeIdx entries = some i) :
    i < maxModels ∧ (entries i).active = false := by
  obtain ⟨hi, hfree⟩ := find?_range_some h
  exact ⟨hi, by simpa using hfree⟩

theorem World.Owned.exchange (ho : s.Owned) (hi : i < maxModels) (hactive : e.active = true)
    (hslot : ∀ k, (s.calls t).pc.holds k = some (e.handle k))
    (hcall : ∀ k m, pc'.holds k = some m ↔
      (s.entries i).active = true ∧ (s.entries i).handle k = m) :
    ((s.setEntry i e).goto t pc').Owned := by
  refine ho.rename (Equiv.swap (.slot i) (.call t)) rfl rfl fun k x m => ?_
  cases x with
  | slot j =>
    by_cases hj : j = i
    · subst hj
      simp [World.Holds, goto, setEntry, hi, hactive, hslot]
    rw [Equiv.swap_apply_of_ne_of_ne (by simpa using hj) (by simp)]
    simp [World.Holds, goto, setEntry, hj]
  | call u =>
    by_cases hu : u = t
    · subst hu
      simp only [World.Holds, goto_pc, if_true, Equiv.swap_apply_right]
      rw [hcall]
      simp [hi]
    rw [Equiv.swap_apply_of_ne_of_ne (by simp) (by simpa using hu)]
    simp [World.Holds, goto, setEntry, hu]
  | other =>
    rw [Equiv.swap_apply_of_ne_of_ne (by simp) (by simp)]
    rfl

theorem World.Owned.vacate (ho : s.Owned) (hi : i < maxModels)
    (hactive : (s.entries i).active = true)
    (hpools : s'.pools = ((s.free (s.entries i).weights).free (s.entries i).workspace).pools)
    (hentries : s'.entries = update s.entries i .empty) (hcalls : s'.calls = s.calls)
    (hothers : s'.others = s.others) (hleases : s'.leases = s.leases) : s'.Owned := by
  obtain ⟨own, hb⟩ := ho
  have hw : s.Holds .weight (.slot i) (s.entries i).weights := ⟨hi, hactive, rfl⟩
  have hws : s.Holds .workspace (.slot i) (s.entries i).workspace := ⟨hi, hactive, rfl⟩
  have hfirst : ∃ own', Books (update s.pools .weight
      ((s.pools .weight).perform (poolId .weight) (.free (s.entries i).weights))) s.leaseList
      (fun k y m => s.Holds k y m ∧ ¬ (k = .weight ∧ y = .slot i ∧ m = (s.entries i).weights))
      own' := hb.free hw fun _ _ _ => Iff.rfl
  obtain ⟨own₁, hb₁⟩ := hfirst
  have hlast : ∀ k y m, s'.Holds k y m ↔
      (s.Holds k y m ∧ ¬ (k = .weight ∧ y = .slot i ∧ m = (s.entries i).weights)) ∧
        ¬ (k = .workspace ∧ y = .slot i ∧ m = (s.entries i).workspace) := by
    intro k y m
    cases y with
    | slot j =>
      by_cases hj : j = i
      · subst hj
        simp only [World.Holds, hentries, update_self]
        constructor
        · rintro ⟨-, hempty, -⟩
          cases hempty
        rintro ⟨⟨⟨-, -, rfl⟩, hnw⟩, hnws⟩
        cases k with
        | weight => exact absurd ⟨rfl, trivial, rfl⟩ hnw
        | workspace => exact absurd ⟨rfl, trivial, rfl⟩ hnws
      · simp [World.Holds, hentries, hj]
    | call u => simp [World.Holds, hcalls]
    | other => simp [World.Holds, hothers]
  obtain ⟨own₂, hb₂⟩ := hb₁.free (k := .workspace) (x := .slot i)
    (h := (s.entries i).workspace) ⟨hws, by simp⟩ hlast
  refine ⟨own₂, ?_⟩
  rw [leaseList, hleases, hpools, free_pools _ (hb.valid hws).1, free_pools _ (hb.valid hw).1]
  exact hb₂

end

/-! ## Steps and runs -/

theorem lruIdx_some {entries : Nat → Entry} (h : lruIdx entries = some i) :
    i < maxModels ∧ (entries i).active = true ∧ (entries i).pinned = false := by
  have hfold : ∀ (l : List Nat) (acc : Option Nat × Nat),
      (∀ j, acc.1 = some j → j < maxModels ∧ (entries j).active = true ∧
        (entries j).pinned = false) → (∀ j ∈ l, j < maxModels) →
      ∀ j, (l.foldl (fun (acc : Option Nat × Nat) i =>
        if (entries i).active && !(entries i).pinned && decide ((entries i).lastUsed < acc.2)
        then (some i, (entries i).lastUsed) else acc) acc).1 = some j →
        j < maxModels ∧ (entries j).active = true ∧ (entries j).pinned = false := by
    intro l
    induction l with
    | nil =>
      intro acc hacc _ j hj
      exact hacc j hj
    | cons x l ih =>
      intro acc hacc hl
      refine ih _ ?_ fun j hj => hl j (mem_cons_of_mem _ hj)
      intro j hj
      beta_reduce at hj
      split_ifs at hj with hcond
      · cases hj
        simp only [Bool.and_eq_true, Bool.not_eq_true'] at hcond
        exact ⟨hl x mem_cons_self, hcond.1.1, hcond.1.2⟩
      · exact hacc j hj
  exact hfold _ (none, maxU64) (by simp) (fun j hj => mem_range.mp hj) i h

theorem World.Owned.lease (ho : s.Owned) (hpc : (s.calls t).pc = .acquire index)
    (hlt : index < maxModels) (hactive : (s.entries index).active = true)
    (hpool : (s.entries index).weights.poolId = poolId k)
    (hroom : ((s.pools k).pool.blocks (s.entries index).weights.blockIndex).refcount < maxU16) :
    ({ s.perform k (.share (s.entries index).weights) with
      leases := (t, ⟨(s.entries index).weights, s.epochOf (s.entries index).weights⟩) ::
        s.leases }.goto t
      (.copyGraph index ⟨(s.entries index).weights,
        s.epochOf (s.entries index).weights⟩)).Owned := by
  obtain ⟨own, hb⟩ := ho
  have hw : s.Holds .weight (.slot index) (s.entries index).weights := ⟨hlt, hactive, rfl⟩
  have hk : k = .weight := poolId_injective (hpool.symm.trans (hb.valid hw).1)
  subst hk
  have hepoch : s.epochOf (s.entries index).weights =
      (s.pools .weight).epoch (s.entries index).weights.blockIndex := by
    rw [epochOf, hpool, poolType_poolId]
  obtain ⟨own₁, hb₁⟩ := hb.share hw hroom
  rw [hepoch]
  refine hb₁.congr fun k x m => ?_
  rw [holds_call s _ t (.copyGraph index _) (by rfl) (by rfl) fun u => by apply goto_pc]
  split_ifs with hx
  · subst hx
    simp only [World.Holds, hpc]
    rfl
  · rfl

theorem World.Listed.perm (hl : s.Listed) (hpc : (s.calls t).pc = .unshare l r) :
    s.leaseList.Perm (l :: (s.leases.erase (t, l)).map Prod.snd) := by
  have hmem : (t, l) ∈ s.leases := (hl.mem t l).mp (by rw [hpc]; rfl)
  exact (perm_cons_erase hmem).map Prod.snd

theorem World.Owned.unlease (ho : s.Owned) (hl : s.Listed) (hpc : (s.calls t).pc = .unshare l r) :
    ({ s.free l.handle with leases := s.leases.erase (t, l) }.goto t (.returned r)).Owned := by
  obtain ⟨own, hb⟩ := ho
  have hperm := hl.perm hpc
  obtain ⟨k, hpool, -⟩ := hb.lease_valid (hperm.mem_iff.mpr mem_cons_self)
  obtain ⟨own₁, hb₁⟩ := hb.unshare hperm hpool
  rw [← free_pools s hpool] at hb₁
  refine hb₁.congr fun k x m => ?_
  rw [holds_call s _ t (.returned r) (by simp [goto]) (by simp [goto]) (fun u => by simp)]
  split_ifs with hx
  · subst hx
    simp only [World.Holds, hpc]
    rfl
  · rfl

theorem World.Owned.move (ho : s.Owned) (hl : s.Listed) (hok : Spares s (.go t inp))
    (hm : Move s t s') : s'.Owned := by
  cases hm with
  | quiet pc' hholds hlease hbuilt =>
    refine ho.congr rfl rfl fun k x m => ?_
    rw [holds_call s (s.goto t pc') t pc' rfl rfl (goto_pc s t · pc')]
    split_ifs with hx
    · subst hx
      rw [hholds]
      rfl
    · rfl
  | grant r now owner p h hpc halloc =>
    by_cases hbare : ∃ k, r = .bare k
    · obtain ⟨pool, rfl⟩ := hbare
      exact ho.grant_other hpc halloc
    · exact ho.grant_call hpc (fun k hk => hbare ⟨k, hk⟩) halloc
  | evict r candidates stale victim c hpc hc hreclaim =>
    refine ho.evict_other (fun k => by rw [hpc]; rfl) hreclaim ?_
    simp only [Spares, hpc] at hok
    exact hok c hc hreclaim
  | install p i now hpc hi =>
    obtain ⟨hlt, hinactive⟩ := find?_free hi
    refine ho.exchange hlt rfl (fun k => ?_) fun k m => ?_
    · rw [hpc]
      cases k <;> rfl
    · simp [hinactive, Pc.holds]
  | displace p i now hpc hfull hi =>
    obtain ⟨hlt, hactive, -⟩ := lruIdx_some hi
    have hvacant : (((s.free (s.entries i).weights).free (s.entries i).workspace).setEntry i
        .empty).Owned :=
      ho.vacate hlt hactive rfl (by simp [setEntry]) (by simp [setEntry])
        (by simp [setEntry]) (by simp [setEntry])
    refine hvacant.exchange (e := p.install now) hlt rfl (fun k => ?_) fun k m => ?_
    · simp only [setEntry, free_calls, hpc]
      cases k <;> rfl
    · simp [setEntry, Entry.empty, Pc.holds]
  | replace i p now hpc hactive =>
    refine ho.exchange i.isLt (by simpa [Payload.replace] using hactive) (fun k => ?_) fun k m => ?_
    · rw [hpc]
      cases k <;> rfl
    · cases k <;> simp [Pc.holds, Entry.handle, hactive]
  | freeWeights w ws r pc' hpc hpc' =>
    refine ho.free_call (k := .weight) (by rw [hpc]; rfl) fun k => ?_
    subst hpc'
    cases ws <;> cases k <;> rw [hpc] <;> rfl
  | freeWorkspace ws r hpc =>
    refine ho.free_call (k := .workspace) (by rw [hpc]; rfl) fun k => ?_
    cases k <;> rw [hpc] <;> rfl
  | acquire index k hpc hlt hactive hpool hok' =>
    simp only [Spares, hpc] at hok
    exact ho.lease hpc hlt hactive hpool (hok k)
  | unshare l r hpc => exact ho.unlease hl hpc

@[simp] theorem noteWrites_pc (s : World) (t : Nat) (s' : World) (u : Nat) :
    ((s.noteWrites t s').calls u).pc = (s'.calls u).pc := by
  by_cases h : u = t <;> simp [noteWrites, h]

theorem holds_noteWrites (k : PoolType) (x : Who) (m : ModelHandle) :
    (s.noteWrites t s').Holds k x m ↔ s'.Holds k x m := by
  cases x with
  | call u => simp [World.Holds]
  | _ => rfl

theorem World.Listed.noteWrites (h : s'.Listed) : (s.noteWrites t s').Listed := by
  refine ⟨fun u l => ?_, h.nodup⟩
  rw [noteWrites_pc]
  exact h.mem u l

/-- What the books say about the registry and the calls, and about the leases. -/
structure Kept (s : World) : Prop where
  owned : s.Owned
  listed : s.Listed

theorem update_pc (s : World) (t : Nat) (c : Call) (u : Nat) :
    (update s.calls t c u).pc = if u = t then c.pc else (s.calls u).pc := by
  by_cases hu : u = t <;> simp [hu]

theorem Kept.call {c : Call} (h : Kept s) (hold : (s.calls t).pc.Outside) (hnew : c.pc.Outside) :
    Kept { s with calls := update s.calls t c, versions := v } := by
  constructor
  · refine h.owned.congr rfl rfl fun k x m => ?_
    rw [holds_call s _ t c.pc (by rfl) (by rfl) (by exact update_pc s t c)]
    split_ifs with hx
    · subst hx
      simp only [World.Holds, hnew.holds, hold.holds]
    · rfl
  · exact h.listed.keep t c.pc (update_pc s t c) rfl (by rw [hnew.lease, hold.lease])

theorem Kept.mark (h : Kept s) :
    Kept (s.setEntry i { s.entries i with pinned := pinned, lastUsed := lastUsed }) := by
  refine ⟨h.owned.congr rfl rfl fun k x m => ?_, h.listed.mem, h.listed.nodup⟩
  cases x with
  | slot j =>
    by_cases hj : j = i
    · subst hj
      cases k <;> simp [World.Holds, setEntry, Entry.handle]
    · simp [World.Holds, setEntry, hj]
  | _ => rfl

theorem Kept.step {a : Act} (h : Kept s) (hok : Spares s a) (hstep : step s a = some s') :
    Kept s' := by
  cases step_effect hstep with
  | call t c v hold hnew => exact h.call hold hnew
  | go hcall =>
    have hm := callStep_move rfl hcall
    have ho := h.owned.move h.listed hok hm
    exact ⟨ho.congr rfl rfl holds_noteWrites, (h.listed.move hm).noteWrites⟩
  | unload i hi hactive =>
    refine ⟨h.owned.vacate hi hactive ?_ ?_ ?_ ?_ ?_, ?_⟩
    · simp only [free]
      split <;> split <;> rfl
    · simp [setEntry]
    · simp [setEntry]
    · simp [setEntry]
    · simp [setEntry]
    refine ⟨fun u l => ?_, ?_⟩
    · simpa [setEntry] using h.listed.mem u l
    · simpa [setEntry] using h.listed.nodup
  | mark i pinned lastUsed => exact h.mark
  | none => exact h

end

end SlmOs.Loader
