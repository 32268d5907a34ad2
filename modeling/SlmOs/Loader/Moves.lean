import SlmOs.Loader.Books

/-!
# What a step of a call does

A step of a call moves on without touching anything, gets a block, takes one from its
owner, changes a slot of the registry, gives a block back, or takes or drops a lease.
-/

namespace SlmOs.Loader

open Foundation ModelMem

def Entry.handle (e : Entry) : PoolType → ModelHandle
  | .weight => e.weights
  | .workspace => e.workspace

def Payload.handle (p : Payload) : PoolType → ModelHandle
  | .weight => p.weights
  | .workspace => p.workspace

def Request.holds : Request → PoolType → Option ModelHandle
  | .workspace _ _ w, .weight => some w
  | _, _ => none

def Pc.holds : Pc → PoolType → Option ModelHandle
  | .alloc r, k => r.holds k
  | .snapshot r, k => r.holds k
  | .consult r _ _, k => r.holds k
  | .reclaim r _ _ _, k => r.holds k
  | .retry r, k => r.holds k
  | .getPtr _ _ w, .weight => some w
  | .fill _ _ w, .weight => some w
  | .install p, k => some (p.handle k)
  | .replace _ p, k => some (p.handle k)
  | .freeWeights w _ _, .weight => some w
  | .freeWeights _ ws _, .workspace => ws
  | .freeWorkspace ws _, .workspace => some ws
  | _, _ => none

def Pc.lease : Pc → Option Lease
  | .copyGraph _ l => some l
  | .copyWeightTable _ l _ => some l
  | .getWeights _ l _ _ => some l
  | .getWorkspace _ l _ _ _ => some l
  | .weightBase _ l _ => some l
  | .workspacePtr _ l _ => some l
  | .run _ l _ => some l
  | .unshare l _ => some l
  | _ => none

structure Whole (given : PoolType → Nat → Option Nat) (weights workspace : ModelHandle)
    (graph weightTable : Nat) : Prop where
  table : weightTable = graph
  weights : given .weight weights.blockIndex = some graph
  workspace : given .workspace workspace.blockIndex = some graph

def Request.Built (given : PoolType → Nat → Option Nat) : Request → Prop
  | .workspace _ version w => given .weight w.blockIndex = some version
  | _ => True

def Pc.Built (given : PoolType → Nat → Option Nat) : Pc → Prop
  | .alloc r => r.Built given
  | .snapshot r => r.Built given
  | .consult r _ _ => r.Built given
  | .reclaim r _ _ _ => r.Built given
  | .retry r => r.Built given
  | .getPtr _ version w => given .weight w.blockIndex = some version
  | .fill _ version w => given .weight w.blockIndex = some version
  | .install p => Whole given p.weights p.workspace p.graph p.weightTable
  | .replace _ p => Whole given p.weights p.workspace p.graph p.weightTable
  | _ => True

def Pc.request : Pc → Option Request
  | .alloc r => some r
  | .retry r => some r
  | _ => none

inductive Move (s : World) (t : Nat) : World → Prop
  | quiet (pc' : Pc) (hholds : ∀ k, pc'.holds k = (s.calls t).pc.holds k)
      (hlease : pc'.lease = (s.calls t).pc.lease)
      (hbuilt : ∀ given, (s.calls t).pc.Built given → pc'.Built given) :
      Move s t (s.goto t pc')
  | grant (r : Request) (now owner : Nat) (p : MemoryPool) (h : ModelHandle)
      (hpc : (s.calls t).pc.request = some r)
      (halloc : (s.pools r.pool).pool.alloc (poolId r.pool) now owner = .ok (p, h)) :
      Move s t (((s.perform r.pool (.alloc now owner)).give r h).goto t (r.granted h))
  | evict (r : Request) (candidates : List (BlockMeta × Nat)) (stale victim : Nat)
      (c : BlockMeta × Nat) (hpc : (s.calls t).pc = .reclaim r candidates stale victim)
      (hc : candidates[victim]? = some c)
      (hreclaim : ((s.pools r.pool).pool.reclaim (poolId r.pool) (slotOfBlockId c.1.blockId)
        c.2).2 = true) :
      Move s t (((s.perform r.pool (.evict (slotOfBlockId c.1.blockId) c.2)).setOther r.pool
        (slotOfBlockId c.1.blockId) none).goto t (.retry r))
  | install (p : Payload) (i now : Nat) (hpc : (s.calls t).pc = .install p)
      (hi : freeIdx s.entries = some i) :
      Move s t ((s.setEntry i (p.install now)).goto t (.returned (.loaded i)))
  | displace (p : Payload) (i now : Nat) (hpc : (s.calls t).pc = .install p)
      (hfull : freeIdx s.entries = none) (hi : lruIdx s.entries = some i) :
      Move s t (((((s.free (s.entries i).weights).free (s.entries i).workspace).setEntry i
        .empty).setEntry i (p.install now)).goto t (.returned (.loaded i)))
  | replace (i : Fin maxModels) (p : Payload) (now : Nat)
      (hpc : (s.calls t).pc = .replace i p) (hactive : (s.entries i).active = true) :
      Move s t ((s.setEntry i (p.replace (s.entries i) now)).goto t
        (.freeWeights (s.entries i).weights (some (s.entries i).workspace) .swapped))
  | freeWeights (w : ModelHandle) (ws : Option ModelHandle) (r : Outcome) (pc' : Pc)
      (hpc : (s.calls t).pc = .freeWeights w ws r)
      (hpc' : pc' = (ws.map fun ws => .freeWorkspace ws r).getD (.returned r)) :
      Move s t ((s.free w).goto t pc')
  | freeWorkspace (ws : ModelHandle) (r : Outcome)
      (hpc : (s.calls t).pc = .freeWorkspace ws r) :
      Move s t ((s.free ws).goto t (.returned r))
  | acquire (index : Nat) (k : PoolType) (hpc : (s.calls t).pc = .acquire index)
      (hlt : index < maxModels) (hactive : (s.entries index).active = true)
      (hpool : (s.entries index).weights.poolId = poolId k)
      (hok : ((s.pools k).pool.share (s.entries index).weights).isOk = true) :
      Move s t ({ s.perform k (.share (s.entries index).weights) with
        leases := (t, ⟨(s.entries index).weights, s.epochOf (s.entries index).weights⟩) ::
          s.leases }.goto t
        (.copyGraph index ⟨(s.entries index).weights, s.epochOf (s.entries index).weights⟩))
  | unshare (l : Lease) (r : Outcome) (hpc : (s.calls t).pc = .unshare l r) :
      Move s t ({ s.free l.handle with leases := s.leases.erase (t, l) }.goto t (.returned r))

theorem poolType_eq_some (h : poolType n = some k) : n = poolId k := by
  unfold poolType at h
  split at h <;> cases h <;> rfl

theorem refused_holds (r : Request) (e : AllocError) (k : PoolType) :
    (r.refused e).holds k = r.holds k := by
  cases r <;> cases k <;> rfl

theorem refused_lease (r : Request) (e : AllocError) : (r.refused e).lease = none := by
  cases r <;> rfl

theorem refused_built (r : Request) (e : AllocError) (given : PoolType → Nat → Option Nat)
    (_ : r.Built given) : (r.refused e).Built given := by
  cases r <;> trivial

theorem Move.quietly (hpc : (s.calls t).pc = pc) (pc' : Pc) (hholds : ∀ k, pc'.holds k = pc.holds k)
    (hlease : pc'.lease = pc.lease) (hbuilt : ∀ given, pc.Built given → pc'.Built given) :
    Move s t (s.goto t pc') :=
  .quiet pc' (hpc ▸ hholds) (hpc ▸ hlease) (hpc ▸ hbuilt)

theorem allocStep_move (hpc : (s.calls t).pc = pc) (hstep : allocStep s t inp pc = some s') :
    Move s t s' := by
  have hquiet := Move.quietly hpc
  cases pc with
  | alloc r =>
    simp only [allocStep] at hstep
    split at hstep
    · rename_i p h halloc
      cases hstep
      exact .grant r inp.now inp.owner p h (by rw [hpc]; rfl) halloc
    · cases hstep
      exact hquiet _ (fun _ => rfl) rfl fun _ h => h
    cases hstep
    exact hquiet _ (refused_holds r _) (refused_lease r _) (refused_built r _)
  | snapshot r =>
    cases hstep
    exact hquiet _ (fun _ => rfl) rfl fun _ h => h
  | consult r candidates stale =>
    simp only [allocStep] at hstep
    split at hstep
    · cases hstep
      exact hquiet _ (fun _ => rfl) rfl fun _ h => h
    split at hstep
    · cases hstep
      exact hquiet _ (refused_holds r _) (refused_lease r _) (refused_built r _)
    split at hstep <;> cases hstep
    exact hquiet _ (fun _ => rfl) rfl fun _ h => h
  | reclaim r candidates stale victim =>
    simp only [allocStep] at hstep
    split at hstep
    · cases hstep
    rename_i m g hc
    split at hstep
    · cases hstep
      exact hquiet _ (refused_holds r _) (refused_lease r _) (refused_built r _)
    split at hstep
    · rename_i hreclaim
      cases hstep
      exact .evict r candidates stale victim (m, g) hpc hc hreclaim
    cases hstep
    exact hquiet _ (fun _ => rfl) rfl fun _ h => h
  | retry r =>
    simp only [allocStep] at hstep
    split at hstep
    · rename_i p h halloc
      cases hstep
      exact .grant r inp.now inp.owner p h (by rw [hpc]; rfl) halloc
    cases hstep
    exact hquiet _ (refused_holds r _) (refused_lease r _) (refused_built r _)
  | _ => cases hstep

theorem loadStep_move (hpc : (s.calls t).pc = pc) (hstep : loadStep s t inp pc = some s') :
    Move s t s' := by
  have hquiet := Move.quietly hpc
  cases pc with
  | preflight index version parse =>
    simp only [loadStep] at hstep
    split_ifs at hstep
    · cases hstep
      exact hquiet _ (fun _ => rfl) rfl fun _ h => h
    · cases hstep
      exact hquiet _ (fun _ => rfl) rfl fun _ h => h
    · split at hstep <;> cases hstep <;> exact hquiet _ (fun _ => rfl) rfl fun _ h => h
  | getPtr job version w =>
    simp only [loadStep] at hstep
    split_ifs at hstep <;> cases hstep
    · exact hquiet _ (fun k => by cases k <;> rfl) rfl fun _ h => h
    · exact hquiet _ (fun k => by cases k <;> rfl) rfl fun _ _ => trivial
  | fill job version w =>
    simp only [loadStep] at hstep
    split at hstep <;> cases hstep
    · exact hquiet _ (fun k => by cases k <;> rfl) rfl fun _ _ => trivial
    · exact hquiet _ (fun k => by cases k <;> rfl) rfl fun _ h => h
  | install p =>
    simp only [loadStep, World.makeRoom] at hstep
    cases hfree : freeIdx s.entries with
    | some i =>
      simp only [hfree] at hstep
      cases hstep
      exact .install p i inp.now hpc hfree
    | none =>
      cases hlru : lruIdx s.entries with
      | none =>
        simp only [hfree, hlru] at hstep
        cases hstep
        exact hquiet _ (fun k => by cases k <;> rfl) rfl fun _ _ => trivial
      | some i =>
        simp only [hfree, hlru] at hstep
        cases hstep
        exact .displace p i inp.now hpc hfree hlru
  | replace index p =>
    simp only [loadStep] at hstep
    split_ifs at hstep with hinactive hkind
    · cases hstep
      exact hquiet _ (fun k => by cases k <;> rfl) rfl fun _ _ => trivial
    · cases hstep
      exact hquiet _ (fun k => by cases k <;> rfl) rfl fun _ _ => trivial
    cases hstep
    exact .replace index p inp.now hpc (by simpa using hinactive)
  | freeWeights w ws r =>
    simp only [loadStep] at hstep
    split at hstep <;> cases hstep <;> exact .freeWeights w _ r _ hpc rfl
  | freeWorkspace ws r =>
    cases hstep
    exact .freeWorkspace ws r hpc
  | _ =>
    simp only [loadStep] at hstep
    exact allocStep_move hpc hstep

theorem lease_built {pc : Pc} (h : pc.lease = some l)
    (given : PoolType → Nat → Option Nat) : pc.Built given := by
  cases pc <;> trivial

theorem fetch_move {next : Entry → Pc}
    (hholds : ∀ k, (s.calls t).pc.holds k = none) (hlease : (s.calls t).pc.lease = some l)
    (hnext : ∀ e, (∀ k, (next e).holds k = none) ∧ (next e).lease = some l) :
    Move s t (s.fetch t index l next) := by
  unfold World.fetch
  split
  · exact .quiet _ (fun k => by rw [hholds]; rfl) (by rw [hlease]; rfl) fun _ _ => trivial
  exact .quiet _ (fun k => by rw [hholds, (hnext _).1]) (by rw [hlease, (hnext _).2])
    fun given _ => lease_built (hnext _).2 given

theorem callStep_move (hpc : (s.calls t).pc = pc) (hstep : callStep s t inp pc = some s') :
    Move s t s' := by
  have hquiet := Move.quietly hpc
  cases pc with
  | acquire index =>
    simp only [callStep] at hstep
    split_ifs at hstep with hbad
    · cases hstep
      exact hquiet _ (fun _ => rfl) rfl fun _ h => h
    obtain ⟨hlt, hactive⟩ := not_or.mp hbad
    split at hstep
    · cases hstep
      exact hquiet _ (fun _ => rfl) rfl fun _ h => h
    rename_i k hk
    split_ifs at hstep with hok
    · cases hstep
      exact .acquire index k hpc (not_le.mp hlt) (by simpa using hactive) (poolType_eq_some hk) hok
    cases hstep
    exact hquiet _ (fun _ => rfl) rfl fun _ h => h
  | copyGraph index l | copyWeightTable index l graph | getWeights index l graph weightTable
  | getWorkspace index l graph weightTable weights =>
    cases hstep
    exact fetch_move (fun _ => by rw [hpc]; rfl) (by rw [hpc]; rfl) fun _ => ⟨fun _ => rfl, rfl⟩
  | weightBase index l e | workspacePtr index l e =>
    simp only [callStep] at hstep
    split_ifs at hstep <;> cases hstep <;> exact hquiet _ (fun _ => rfl) rfl fun _ h => h
  | run index l e =>
    cases hstep
    exact hquiet _ (fun _ => rfl) rfl fun _ h => h
  | unshare l r =>
    cases hstep
    exact .unshare l r hpc
  | _ =>
    simp only [callStep] at hstep
    exact loadStep_move hpc hstep

/-! ## Actions -/

/-- A call that has not begun, or has ended. -/
structure Pc.Outside (pc : Pc) : Prop where
  holds : ∀ k, pc.holds k = none
  lease : pc.lease = none
  built : ∀ given, pc.Built given

inductive Effect (s : World) : Act → World → Prop
  | call (t : Nat) (c : Call) (v : Nat) (hold : (s.calls t).pc.Outside)
      (hnew : c.pc.Outside) (hwrote : c.pc ≠ .idle → c.wrote = false) :
      Effect s a { s with calls := Function.update s.calls t c, versions := v }
  | go (hcall : callStep s t inp (s.calls t).pc = some s') :
      Effect s (.go t inp) (s.noteWrites t s')
  | unload (i : Nat) (hi : i < maxModels) (hactive : (s.entries i).active = true) :
      Effect s (.unload i)
        (((s.setEntry i .empty).free (s.entries i).weights).free (s.entries i).workspace)
  | mark (i : Nat) (pinned : Bool) (lastUsed : Nat)
      (hpinned : a ≠ .unpin i → (s.entries i).pinned = true → pinned = true) :
      Effect s a (s.setEntry i { s.entries i with pinned, lastUsed })
  | none : Effect s a s

theorem step_effect {a : Act} (hstep : step s a = some s') : Effect s a s' := by
  have hstart : ∀ {t pc}, s.start t pc = some s' → pc.Outside → Effect s a s' := by
    intro t pc h hpc
    unfold World.start at h
    split_ifs at h with hidle
    cases h
    refine .call t _ _ ?_ hpc fun _ => rfl
    rw [hidle]
    exact ⟨fun _ => rfl, rfl, fun _ => trivial⟩
  cases a with
  | load t parse =>
    cases parse with
    | none | some e => exact hstart hstep ⟨fun _ => rfl, rfl, fun _ => trivial⟩
  | swap t index parse =>
    refine hstart hstep ?_
    split <;> exact ⟨fun _ => rfl, rfl, fun _ => trivial⟩
  | bare t pool | infer t index => exact hstart hstep ⟨fun _ => rfl, rfl, fun _ => trivial⟩
  | go t inp =>
    obtain ⟨s₁, hs₁, rfl⟩ := Option.map_eq_some_iff.mp hstep
    exact .go hs₁
  | resume t =>
    simp only [step] at hstep
    split at hstep
    · rename_i r hpc
      cases hstep
      refine .call t _ _ ?_ ⟨fun _ => rfl, rfl, fun _ => trivial⟩ fun h => absurd rfl h
      rw [hpc]
      exact ⟨fun _ => rfl, rfl, fun _ => trivial⟩
    · cases hstep
  | unload index =>
    simp only [step] at hstep
    split_ifs at hstep with hactive <;> cases hstep
    · exact .unload index hactive.1 hactive.2
    · exact .none
  | pin index | unpin index | touch index now =>
    cases hstep
    unfold World.onActive
    split_ifs
    · exact .mark index _ _ (by simp)
    · exact .none

end SlmOs.Loader
