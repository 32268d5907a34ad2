import SlmOs.Loader.Models

/-!
# Leases on weights

A lease is a reference of its own on the block, and eviction spares the blocks with more
than one.  So a lease keeps its block as long as the reference of the owner is there as
well, or the policy takes no block that the registry had.
-/

namespace SlmOs.Loader

open Function Foundation ModelMem World

/-- No block is given back while a lease on it is outstanding, and a lease finds room in
the count. -/
def Undisturbed (s : World) (a : Act) : Prop :=
  (∀ h ∈ s.frees a, ∀ p ∈ s.leases, p.2.handle ≠ h) ∧
    match a with
    | .go t _ =>
      match (s.calls t).pc with
      | .acquire index =>
        ∀ k, ((s.pools k).pool.blocks (s.entries index).weights.blockIndex).refcount < maxU16
      | _ => True
    | _ => True

def Tended (pools : PoolType → History) (leases : List Lease) : Prop :=
  ∃ (Holds : PoolType → Unit → ModelHandle → Prop) (own : PoolType → Nat → Option Unit),
    Books pools leases Holds own ∧ ∀ l ∈ leases, ∃ k, Holds k () l.handle

section

variable {pools : PoolType → History} {leases leases' : List Lease} {k : PoolType} {h : ModelHandle}

theorem Tended.holds {Holds : PoolType → Unit → ModelHandle → Prop}
    {own : PoolType → Nat → Option Unit} (hb : Books pools leases Holds own)
    (hleased : ∀ l ∈ leases, ∃ k, Holds k () l.handle) (hpool : h.poolId = poolId k)
    (hv : (pools k).pool.Valid h) : Holds k () h := by
  have hthis : h = handleOf pools k h.blockIndex := by
    rw [handleOf, hv.generation, ← hpool]
  rcases (hb.live_iff hv.lt).mp hv.live with hown | hlease
  · obtain ⟨x, hx⟩ := Option.isSome_iff_exists.mp hown
    rw [hthis]
    exact (hb.owner k _ x hx).2
  rw [Ne, leaseCount_eq_zero] at hlease
  push Not at hlease
  obtain ⟨l, hl, hon⟩ := hlease
  obtain ⟨hlp, hidx⟩ := Lease.on_iff.mp hon
  obtain ⟨k', hk'⟩ := hleased l hl
  have hk : k' = k := poolId_injective ((hb.valid hk').1.symm.trans hlp)
  subst hk
  have heq := (hb.held k' () l.handle hk').1
  rw [hidx, ← hthis] at heq
  rwa [← heq]

theorem Tended.alloc (ht : Tended pools leases)
    (halloc : (pools k).pool.alloc (poolId k) now owner = .ok (p, h)) :
    Tended (update pools k ((pools k).perform (poolId k) (.alloc now owner)))
      leases := by
  obtain ⟨Holds, own, hb, hleased⟩ := ht
  obtain ⟨own₁, hb₁⟩ := hb.alloc (x := ()) halloc fun _ _ _ => Iff.rfl
  refine ⟨_, own₁, hb₁, fun l hl => ?_⟩
  obtain ⟨k', hk'⟩ := hleased l hl
  exact ⟨k', .inl hk'⟩

theorem perform_free_invalid (hv : ¬ (pools k).pool.Valid h) :
    (pools k).perform (poolId k) (.free h) = pools k := by
  simp only [History.perform]
  split
  · rfl
  rename_i p hok
  exact absurd (MemoryPool.free_eq_ok.mp hok).1 hv

section

variable (ht : Tended pools leases)
include ht

theorem Tended.free (hpool : h.poolId = poolId k) (hfree : ∀ l ∈ leases, l.handle ≠ h) :
    Tended (update pools k ((pools k).perform (poolId k) (.free h))) leases := by
  by_cases hv : (pools k).pool.Valid h
  · obtain ⟨Holds, own, hb, hleased⟩ := ht
    have hx := Tended.holds hb hleased hpool hv
    obtain ⟨own₁, hb₁⟩ := hb.free hx fun _ _ _ => Iff.rfl
    refine ⟨_, own₁, hb₁, fun l hl => ?_⟩
    obtain ⟨k', hk'⟩ := hleased l hl
    exact ⟨k', hk', fun heq => hfree l hl heq.2.2⟩
  rw [perform_free_invalid hv, update_eq_self]
  exact ht

theorem Tended.unshare (hperm : leases.Perm (l :: leases')) (hpool : l.handle.poolId = poolId k) :
    Tended (update pools k ((pools k).perform (poolId k) (.free l.handle))) leases' := by
  obtain ⟨Holds, own, hb, hleased⟩ := ht
  obtain ⟨own₁, hb₁⟩ := hb.unshare hperm hpool
  exact ⟨Holds, own₁, hb₁, fun m hm =>
    hleased m (hperm.mem_iff.mpr (List.mem_cons_of_mem _ hm))⟩

theorem Tended.share (hpool : h.poolId = poolId k) (hv : (pools k).pool.Valid h)
    (hroom : ((pools k).pool.blocks h.blockIndex).refcount < maxU16) :
    Tended (update pools k ((pools k).perform (poolId k) (.share h)))
      (⟨h, (pools k).epoch h.blockIndex⟩ :: leases) := by
  obtain ⟨Holds, own, hb, hleased⟩ := ht
  have hx := Tended.holds hb hleased hpool hv
  obtain ⟨own₁, hb₁⟩ := hb.share hx hroom
  refine ⟨Holds, own₁, hb₁, fun l hl => ?_⟩
  rcases List.mem_cons.mp hl with rfl | hl
  · exact ⟨k, hx⟩
  · exact hleased l hl

theorem Tended.evict (hreclaim : ((pools k).pool.reclaim (poolId k) i g).2 = true) :
    Tended (update pools k ((pools k).perform (poolId k) (.evict i g))) leases := by
  obtain ⟨Holds, own, hb, hleased⟩ := ht
  have hpair : (pools k).pool.reclaim (poolId k) i g =
      (((pools k).pool.reclaim (poolId k) i g).1, true) := by
    rw [← hreclaim]
  obtain ⟨hv, hone, -⟩ := MemoryPool.reclaim_eq_true.mp hpair
  have hown := (hb.held k () _ (Tended.holds hb hleased rfl hv)).2.2
  have hcount := hb.count k i hv.lt
  have hzero : leaseCount leases k i = 0 := by
    rw [hown] at hcount
    simp only [ownerCount, Option.isSome_some, if_true] at hcount
    omega
  obtain ⟨own₁, hb₁⟩ := hb.evict hreclaim hzero fun _ _ _ => Iff.rfl
  refine ⟨_, own₁, hb₁, fun l hl => ?_⟩
  obtain ⟨k', hk'⟩ := hleased l hl
  refine ⟨k', hk', ?_⟩
  rintro ⟨rfl, hidx⟩
  exact leaseCount_eq_zero.mp hzero l hl (Lease.on_iff.mpr ⟨(hb.valid hk').1, hidx⟩)

end

end

section

variable {s s' : World} {t : Nat} {inp : Input}

section

variable (ht : Tended s.pools s.leaseList)
include ht

theorem Tended.free_world
    (hfree : ∀ p ∈ s.leases, p.2.handle ≠ h) : Tended (s.free h).pools (s.free h).leaseList := by
  have hlist : (s.free h).leaseList = s.leaseList := by simp [World.leaseList]
  rw [hlist]
  cases hk : poolType h.poolId with
  | none => simpa [World.free, hk] using ht
  | some k =>
    have hpool := poolType_eq_some hk
    rw [free_pools s hpool]
    refine ht.free hpool fun l hl => ?_
    obtain ⟨p, hp, rfl⟩ := List.mem_map.mp hl
    exact hfree p hp

theorem Tended.free_pair (hfree : ∀ m ∈ [h, h'], ∀ p ∈ s.leases, p.2.handle ≠ m) :
    Tended ((s.free h).free h').pools s.leaseList := by
  have hfirst := ht.free_world (hfree h (by simp))
  have hsecond := hfirst.free_world (h := h') (by simpa using hfree h' (by simp))
  simpa [leaseList] using hsecond

theorem Tended.move (hl : s.Listed) (hok : Undisturbed s (.go t inp)) (hm : Move s t s') :
    Tended s'.pools s'.leaseList := by
  cases hm with
  | grant r now owner p h hpc halloc =>
    have hlist : (((s.perform r.pool (.alloc now owner)).give r h).goto t
        (r.granted h)).leaseList = s.leaseList := by
      simp [leaseList, goto, perform]
    rw [hlist]
    simpa [goto, perform] using ht.alloc halloc
  | evict r candidates stale victim c hpc hc hreclaim => exact ht.evict hreclaim
  | displace p i now hpc hfull hi =>
    have hfree : s.frees (.go t inp) = [(s.entries i).weights, (s.entries i).workspace] := by
      simp [frees, hpc, hfull, hi]
    rw [Undisturbed, hfree] at hok
    simpa [leaseList, goto, setEntry] using ht.free_pair hok.1
  | freeWeights w ws r pc' hpc | freeWorkspace w r hpc =>
    have hfree : s.frees (.go t inp) = [w] := by simp [frees, hpc]
    rw [Undisturbed, hfree] at hok
    exact ht.free_world (hok.1 w (by simp))
  | acquire index k hpc hlt hactive hpool hshare =>
    simp only [Undisturbed, hpc] at hok
    obtain ⟨r, hr⟩ := isOk_iff_exists.mp hshare
    have hepoch : s.epochOf (s.entries index).weights =
        (s.pools k).epoch (s.entries index).weights.blockIndex := by
      rw [epochOf, hpool, poolType_poolId]
    have hgo := ht.share hpool (MemoryPool.share_eq_ok.mp hr).1 (hok.2 k)
    rw [← hepoch] at hgo
    exact hgo
  | unshare l r hpc =>
    have hperm := hl.perm hpc
    obtain ⟨Holds, own, hb, -⟩ := id ht
    obtain ⟨k, hpool, -⟩ := hb.lease_valid (hperm.mem_iff.mpr List.mem_cons_self)
    have hgo := ht.unshare hperm hpool
    rw [← free_pools s hpool] at hgo
    exact hgo
  | _ => exact ht

end

structure Guarded (s : World) : Prop where
  tended : Tended s.pools s.leaseList
  listed : s.Listed

theorem Guarded.step {a : Act} (h : Guarded s) (hok : Undisturbed s a)
    (hstep : step s a = some s') : Guarded s' := by
  cases step_effect hstep with
  | call t c v hold hnew =>
    have hlease := hnew.lease.trans hold.lease.symm
    exact ⟨h.tended, h.listed.keep t c.pc (update_pc s t c) rfl hlease⟩
  | go hcall =>
    have hm := callStep_move rfl hcall
    have ht := h.tended.move h.listed hok hm
    exact ⟨ht, (h.listed.move hm).noteWrites⟩
  | unload i hi hactive =>
    have hfree : s.frees (.unload i) = [(s.entries i).weights, (s.entries i).workspace] := by
      rw [frees, if_pos ⟨hi, hactive⟩]
    have hunleased := hok.1
    rw [hfree] at hunleased
    constructor
    · have hgo := Tended.free_pair (s := s.setEntry i .empty) h.tended hunleased
      simpa [leaseList, setEntry] using hgo
    refine ⟨fun u l => ?_, ?_⟩
    · simpa [setEntry] using h.listed.mem u l
    · simpa [setEntry] using h.listed.nodup
  | mark i pinned lastUsed => exact ⟨h.tended, h.listed.mem, h.listed.nodup⟩
  | none => exact h

variable {base count : PoolType → Nat}

theorem guarded_run (hrun : Run step Undisturbed (World.new base count) s) : Guarded s := by
  refine Run.invariant (fun s a s' h hok hstep => Guarded.step h hok hstep) ⟨?_, ?_⟩ hrun
  · exact ⟨fun _ _ _ => False, _, books_new fun _ _ _ hx => hx, nofun⟩
  · exact listed_new

/-- A block under a lease is in use, and it has not been free since the lease was taken:
it was neither reclaimed nor returned by an allocation. -/
theorem lease_keeps_block (hrun : Run step Undisturbed (World.new base count) s ∨
      Run step Spares (World.new base count) s) {t : Nat} {l : Lease}
    (hlease : (s.calls t).pc.lease = some l) :
    ∃ k, l.handle.poolId = poolId k ∧ (s.pools k).pool.Valid l.handle ∧
      (s.pools k).epoch l.handle.blockIndex = l.epoch := by
  have hmem : ∀ h : s.Listed, l ∈ s.leaseList := fun h =>
    List.mem_map_of_mem (f := Prod.snd) ((h.mem t l).mp hlease)
  rcases hrun with hrun | hrun
  · have h := guarded_run hrun
    obtain ⟨Holds, own, hb, -⟩ := h.tended
    exact hb.lease_valid (hmem h.listed)
  have h := (orderly_run hrun).toKept
  obtain ⟨own, hb⟩ := h.owned
  exact hb.lease_valid (hmem h.listed)

end

/-! ## The model is swapped during an inference -/

instance acquire_decidable (P : Nat → Prop) [∀ i, Decidable (P i)] (pc : Pc) :
    Decidable (match pc with
      | .acquire index => P index
      | _ => True) := by
  cases pc <;> infer_instance

instance Undisturbed.decidable (s : World) (a : Act) : Decidable (Undisturbed s a) := by
  refine @instDecidableAnd _ _ inferInstance ?_
  match a with
  | .go t inp => exact acquire_decidable _ (s.calls t).pc
  | .load .. | .swap .. | .bare .. | .infer .. | .resume _ | .unload _ | .pin _ | .unpin _
  | .touch .. => exact .isTrue trivial

def leasing : List Act := loading ++ [.infer 1 0, .go 1 eager]

theorem lease_keeps_block_leased : ∃ s, Run step Undisturbed (World.new (fun _ => 0) fun _ => 1) s ∧
      (s.calls 1).pc.lease = some ⟨⟨0, 0, 0⟩, 0⟩ ∧
      ∃ k, poolId k = 0 ∧ (s.pools k).pool.Valid ⟨0, 0, 0⟩ ∧ (s.pools k).epoch 0 = 0 := by
  have hrun := run_get step Undisturbed leasing cramped (by decide) (by decide)
  have hlease : (((exec step cramped leasing).get (by decide)).calls 1).pc.lease =
      some ⟨⟨0, 0, 0⟩, 0⟩ := by decide
  obtain ⟨k, hpool, hvalid, hepoch⟩ := lease_keeps_block (.inl hrun) hlease
  exact ⟨_, hrun, hlease, k, hpool.symm, hvalid, hepoch⟩

/-- With two blocks in either pool, the model is swapped while an inference has its lease
and the old weights lose the reference of the slot. -/
def swapping : List Act :=
  leasing ++ [.swap 0 0 none, .go 0 eager, .go 0 eager, .go 0 eager, .go 0 eager, .go 0 eager,
    .go 0 eager, .go 0 eager]

/-- The next allocation gets the block that the inference still uses. -/
theorem leased_block_evicted : ∃ s, exec step (World.new (fun _ => 0) fun _ => 2)
        (swapping ++ [.bare 2 .weight, .go 2 eager, .go 2 eager, .go 2 eager, .go 2 eager,
          .go 2 eager]) = some s ∧
      (s.calls 1).pc.lease = some ⟨⟨0, 0, 0⟩, 0⟩ ∧
      ¬ (s.pools .weight).pool.Valid ⟨0, 0, 0⟩ ∧ (s.pools .weight).epoch 0 = 1 ∧
      (s.calls 2).pc = .returned (.handle ⟨0, 0, 1⟩) := by
  refine ⟨_, rfl, rfl, fun hvalid => ?_, rfl, rfl⟩
  cases hvalid.generation

end SlmOs.Loader
