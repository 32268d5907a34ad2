import SlmOs.Loader.Leases

/-!
# An inference and the versions of its model

`run_inference` copies the graph, the weight table and the two handles in sections of
their own, and only the weights are leased.  What it reads is one version, and stays in
place, as long as no load, swap or unload changes the slot between the first copy and the
end.
-/

namespace SlmOs.Loader

open Foundation ModelMem World

def Pc.reading : Pc → Option Nat
  | .copyWeightTable index _ _ => some index
  | .getWeights index _ _ _ => some index
  | .getWorkspace index _ _ _ _ => some index
  | .weightBase index _ _ => some index
  | .workspacePtr index _ _ => some index
  | .run index _ _ => some index
  | _ => none

def World.target (s : World) : Act → Option Nat
  | .go t _ =>
    match (s.calls t).pc with
    | .install _ =>
      match freeIdx s.entries with
      | some _ => none
      | none => lruIdx s.entries
    | .replace i _ => some i
    | _ => none
  | .unload i => some i
  | _ => none

/-- The policy takes blocks from others, and no slot changes while an inference reads it. -/
def Steady (s : World) (a : Act) : Prop :=
  Spares s a ∧ ∀ p ∈ s.leases, ∀ i ∈ s.target a, (s.calls p.1).pc.reading ≠ some i

structure World.Consistent (s : World) : Prop where
  slots : ∀ i < maxModels, (s.entries i).active = true →
    Whole s.given (s.entries i).weights (s.entries i).workspace (s.entries i).graph
      (s.entries i).weightTable
  calls : ∀ t, (s.calls t).pc.Built s.given

def Pc.Agrees (epoch : ModelHandle → Nat) (e : Entry) : Pc → Prop
  | .copyWeightTable _ _ graph => graph = e.graph
  | .getWeights _ _ graph weightTable => graph = e.graph ∧ weightTable = e.weightTable
  | .getWorkspace _ _ graph weightTable weights =>
    graph = e.graph ∧ weightTable = e.weightTable ∧ weights = e.weights
  | .weightBase _ _ m => m = ⟨e.graph, e.weightTable, e.weights, e.workspace, 0, 0⟩
  | .workspacePtr _ _ m =>
    m = ⟨e.graph, e.weightTable, e.weights, e.workspace, epoch e.weights, 0⟩
  | .run _ _ m =>
    m = ⟨e.graph, e.weightTable, e.weights, e.workspace, epoch e.weights, epoch e.workspace⟩
  | _ => True

def World.Readers (s : World) : Prop :=
  ∀ t i, (s.calls t).pc.reading = some i → i < maxModels ∧ (s.entries i).active = true ∧
    (s.calls t).pc.Agrees s.epochOf (s.entries i)

section

variable {s s' : World} {t : Nat} {inp : Input}

/-! ## Versions of blocks -/

theorem Whole.congr {given given' : PoolType → Nat → Option Nat} (h : Whole given w ws g wt)
    (hw : given' .weight w.blockIndex = given .weight w.blockIndex)
    (hws : given' .workspace ws.blockIndex = given .workspace ws.blockIndex) :
    Whole given' w ws g wt :=
  ⟨h.table, hw.trans h.weights, hws.trans h.workspace⟩

variable {pc : Pc}

theorem Pc.Built.congr {given given' : PoolType → Nat → Option Nat} (h : pc.Built given)
    (hsame : ∀ k m, pc.holds k = some m → given' k m.blockIndex = given k m.blockIndex) :
    pc.Built given' := by
  have hrequest : ∀ r : Request, r.Built given →
      (∀ k m, r.holds k = some m → given' k m.blockIndex = given k m.blockIndex) →
      r.Built given' := by
    intro r hr hheld
    cases r with
    | workspace job version w => exact (hheld .weight w rfl).trans hr
    | _ => trivial
  cases pc with
  | alloc r | snapshot r | consult r candidates stale | reclaim r candidates stale victim
  | retry r => exact hrequest r h hsame
  | getPtr job version w | fill job version w => exact (hsame .weight w rfl).trans h
  | install p | replace i p => exact Whole.congr h (hsame .weight _ rfl) (hsame .workspace _ rfl)
  | _ => trivial

@[simp] theorem free_given (s : World) (h : ModelHandle) : (s.free h).given = s.given := by
  unfold free
  split <;> rfl

def Request.version : Request → Option Nat
  | .weights _ version => some version
  | .workspace _ version _ => some version
  | .bare _ => none

theorem give_given (s : World) (r : Request) (h : ModelHandle) (k : PoolType) (j : Nat) :
    (s.give r h).given k j =
      if k = r.pool ∧ j = h.blockIndex then r.version else s.given k j := by
  have hset : ∀ (s : World) (k₁ : PoolType) (i : Nat) (v : Option Nat),
      (s.setGiven k₁ i v).given k j = if k = k₁ ∧ j = i then v else s.given k j := by
    intro s k₁ i v
    by_cases hk : k = k₁
    · subst hk
      by_cases hj : j = i <;> simp [setGiven, hj]
    · simp [setGiven, hk]
  cases r <;> exact hset ..

variable {k : PoolType}

theorem Move.given_eq (hm : Move s t s') (ho : s.Owned) (hx : s.Holds k x m) :
    s'.given k m.blockIndex = s.given k m.blockIndex := by
  cases hm with
  | grant r now owner p h hpc halloc =>
    obtain ⟨i, hi, hfree, hr⟩ := MemoryPool.alloc_eq_ok halloc
    obtain ⟨-, rfl⟩ := Prod.mk.inj hr
    have hlive := (ho.valid hx).2.live
    have hne : ¬ (k = r.pool ∧ m.blockIndex = i) := by
      rintro ⟨rfl, rfl⟩
      exact hlive hfree
    simp only [goto]
    rw [give_given, if_neg hne]
    rfl
  | _ => simp [goto, perform, setEntry, setOther]

theorem request_built {given : PoolType → Nat → Option Nat} (h : pc.request = some r)
    (hb : pc.Built given) : r.Built given ∧ ∀ k, pc.holds k = r.holds k := by
  cases pc with
  | alloc r' | retry r' =>
    cases h
    exact ⟨hb, fun _ => rfl⟩
  | _ => cases h

theorem Move.built (hm : Move s t s') (ho : s.Owned) (hb : (s.calls t).pc.Built s.given) :
    (s'.calls t).pc.Built s'.given := by
  cases hm with
  | quiet pc' hholds hlease hbuilt =>
    rw [goto_pc, if_pos rfl]
    exact hbuilt _ hb
  | grant r now owner p h hpc halloc =>
    have hm := Move.grant r now owner p h hpc halloc
    obtain ⟨hr, hholds⟩ := request_built hpc hb
    have hnew : ∀ v, r.version = some v →
        (((s.perform r.pool (.alloc now owner)).give r h).goto t (r.granted h)).given r.pool
          h.blockIndex = some v := by
      intro v hv
      simp only [goto]
      rw [give_given, if_pos ⟨rfl, rfl⟩, hv]
    rw [goto_pc, if_pos rfl]
    cases r with
    | weights job version => exact hnew version rfl
    | bare pool => trivial
    | workspace job version w =>
      have hx : s.Holds .weight (.call t) w := hholds .weight
      have hw := (hm.given_eq ho hx).trans hr
      cases job <;> exact ⟨rfl, hw, hnew version rfl⟩
  | evict r candidates stale victim c hpc =>
    rw [hpc] at hb
    rw [goto_pc, if_pos rfl]
    exact hb
  | freeWeights w ws r pc' hpc hpc' =>
    subst hpc'
    rw [goto_pc, if_pos rfl]
    cases ws <;> trivial
  | _ =>
    rw [goto_pc, if_pos rfl]
    trivial

def World.Backed (s : World) (e : Entry) : Prop :=
  ∃ x, s.Holds .weight x e.weights ∧ s.Holds .workspace x e.workspace ∧
    Whole s.given e.weights e.workspace e.graph e.weightTable

theorem World.Consistent.backed_slot (hc : s.Consistent) (hj : j < maxModels)
    (hactive : (s.entries j).active = true) : s.Backed (s.entries j) :=
  ⟨.slot j, ⟨hj, hactive, rfl⟩, ⟨hj, hactive, rfl⟩, hc.slots j hj hactive⟩

theorem World.Consistent.backed_call (hc : s.Consistent)
    (hpc : (s.calls t).pc = .install p ∨ ∃ i, (s.calls t).pc = .replace i p) (now : Nat) :
    s.Backed (p.install now) := by
  have hb := hc.calls t
  rcases hpc with hpc | ⟨i, hpc⟩
  all_goals
    have hx : ∀ k, s.Holds k (.call t) (p.handle k) := fun k => by
      simp [World.Holds, hpc, Pc.holds]
    rw [hpc] at hb
    exact ⟨.call t, hx .weight, hx .workspace, hb⟩

theorem Move.backed (hm : Move s t s') (hc : s.Consistent) (hj : j < maxModels)
    (hactive : (s'.entries j).active = true) : s.Backed (s'.entries j) := by
  have hsame : s'.entries j = s.entries j → s.Backed (s'.entries j) := fun heq => by
    rw [heq] at hactive ⊢
    exact hc.backed_slot hj hactive
  cases hm with
  | install p i now hpc hi | displace p i now hpc hfull hi =>
    by_cases hji : j = i
    · subst hji
      simpa [goto, setEntry] using hc.backed_call (.inl hpc) now
    · exact hsame (by simp [goto, setEntry, hji])
  | replace i p now hpc hi =>
    by_cases hji : j = i
    · subst hji
      have hbacked : s.Backed (p.replace (s.entries i) now) := hc.backed_call (.inr ⟨i, hpc⟩) now
      simpa [goto, setEntry] using hbacked
    · exact hsame (by simp [goto, setEntry, hji])
  | _ => exact hsame (by simp [goto, perform, setOther])

theorem World.Consistent.move (hc : s.Consistent) (ho : s.Owned) (hm : Move s t s') :
    s'.Consistent where
  slots := by
    intro j hj hactive
    obtain ⟨x, hw, hws, hwhole⟩ := hm.backed hc hj hactive
    exact hwhole.congr (hm.given_eq ho hw) (hm.given_eq ho hws)
  calls := by
    intro u
    by_cases hu : u = t
    · subst hu
      exact hm.built ho (hc.calls u)
    rw [hm.call_ne hu]
    exact (hc.calls u).congr fun k m hx => hm.given_eq ho (x := .call u) hx

/-! ## Epochs -/

theorem epoch_of_change {id i : Nat} {H H' : History} {op : Op} (hc : Change id H op H')
    (hlive : (H'.pool.blocks i).state ≠ .free) : H'.epoch i = H.epoch i := by
  have hbump : ∀ j, i ≠ j → History.bump H.epoch j i = H.epoch i := fun j hij =>
    History.bump_of_ne hij
  cases hc with
  | release h hv hone | evict j g hv hone =>
    refine hbump _ fun hij => hlive ?_
    simp [MemoryPool.set, hij, BlockSlot.release]
  | _ => rfl

theorem live_of_free {id i : Nat} {H H' : History} {h : ModelHandle} (hc : Change id H (.free h) H')
    (hlive : (H'.pool.blocks i).state ≠ .free) : (H.pool.blocks i).state ≠ .free := by
  intro hfree
  apply hlive
  cases hc with
  | same => exact hfree
  | unshare _ hv hmany | release _ hv hone =>
    have hne : i ≠ h.blockIndex := fun heq => hv.live (heq ▸ hfree)
    simpa [MemoryPool.set, hne] using hfree

def SameEpochs (s s' : World) : Prop :=
  ∀ k i, ((s'.pools k).pool.blocks i).state ≠ .free → (s'.pools k).epoch i = (s.pools k).epoch i

theorem SameEpochs.perform {op : Op} (hop : op.goesTo (poolId k) = true) :
    SameEpochs s (s.perform k op) := by
  intro k' i hlive
  by_cases hk : k' = k
  · subst hk
    simp only [World.perform, Function.update_self] at hlive ⊢
    exact epoch_of_change (perform_change _ hop) hlive
  · simp [World.perform, hk]

theorem free_live {i : Nat} {h : ModelHandle}
    (hlive : (((s.free h).pools k).pool.blocks i).state ≠ .free) :
    ((s.pools k).pool.blocks i).state ≠ .free := by
  cases hpool : poolType h.poolId with
  | none => simpa [free, hpool] using hlive
  | some k₁ =>
    rw [free_pools s (poolType_eq_some hpool)] at hlive
    by_cases hk : k = k₁
    · subst hk
      rw [Function.update_self] at hlive
      have hop : (Op.free h).goesTo (poolId k) = true := by
        simp [Op.goesTo, poolType_eq_some hpool]
      exact live_of_free (perform_change _ hop) hlive
    · simpa [hk] using hlive

theorem SameEpochs.free (h : ModelHandle) : SameEpochs s (s.free h) := by
  cases hpool : poolType h.poolId with
  | none =>
    intro k i hlive
    simp [World.free, hpool]
  | some k =>
    have hgo : SameEpochs s (s.perform k (.free h)) :=
      .perform (by simp [Op.goesTo, poolType_eq_some hpool])
    simpa [World.free, hpool] using hgo

theorem SameEpochs.free_pair (h h' : ModelHandle) : SameEpochs s ((s.free h).free h') := by
  intro k i hlive
  have hsecond := SameEpochs.free (s := s.free h) h' k i hlive
  exact hsecond.trans (SameEpochs.free h k i (free_live hlive))

theorem Move.sameEpochs (hm : Move s t s') : SameEpochs s s' := by
  cases hm with
  | quiet pc' | install p _ now | replace _ p now => exact fun k i hlive => rfl
  | grant r now owner p h hpc halloc =>
    have hgo : SameEpochs s (s.perform r.pool (.alloc now owner)) := .perform rfl
    simpa [SameEpochs, goto] using hgo
  | evict r candidates stale victim c hpc hc hreclaim =>
    exact SameEpochs.perform (s := s) rfl
  | displace p i now =>
    exact SameEpochs.free_pair (s := s) (s.entries i).weights (s.entries i).workspace
  | freeWeights w ws r pc' | freeWorkspace w r => exact SameEpochs.free (s := s) w
  | acquire index k hpc hlt hactive hpool hok =>
    exact SameEpochs.perform (s := s) (by simp [Op.goesTo, hpool])
  | unshare l r => exact SameEpochs.free (s := s) l.handle

/-! ## Inferences -/

theorem Pc.Agrees.congr {epoch epoch' : ModelHandle → Nat}
    (h : pc.Agrees epoch e) (hgraph : e'.graph = e.graph)
    (htable : e'.weightTable = e.weightTable) (hw : e'.weights = e.weights)
    (hws : e'.workspace = e.workspace) (hwe : epoch' e.weights = epoch e.weights)
    (hwse : epoch' e.workspace = epoch e.workspace) : pc.Agrees epoch' e' := by
  cases pc <;> simp only [Pc.Agrees] at h ⊢ <;> simp [hgraph, htable, hw, hws, hwe, hwse, h]

theorem lease_of_reading (h : pc.reading = some i) : ∃ l, pc.lease = some l := by
  cases pc <;> first | exact ⟨_, rfl⟩ | cases h

variable {l : Lease}

theorem target_eq_none (h : (s.calls t).pc.lease = some l) : s.target (.go t inp) = none := by
  simp only [target]
  split
  · rename_i p hpc
    rw [hpc] at h
    cases h
  · rename_i j p hpc
    rw [hpc] at h
    cases h
  · rfl

theorem Move.reading_eq_none (hm : Move s t s') (h : (s.calls t).pc.lease = none) :
    (s'.calls t).pc.reading = none := by
  have hnone : ∀ pc : Pc, pc.lease = none → pc.reading = none := fun pc hpc => by
    cases pc <;> first | rfl | cases hpc
  cases hm with
  | quiet pc' hholds hlease =>
    rw [goto_pc, if_pos rfl]
    exact hnone pc' (hlease.trans h)
  | grant r now owner p m =>
    rw [goto_pc, if_pos rfl]
    exact hnone _ (granted_lease r m)
  | freeWeights w ws r pc' hpc hpc' =>
    subst hpc'
    rw [goto_pc, if_pos rfl]
    cases ws <;> rfl
  | _ =>
    rw [goto_pc, if_pos rfl]
    rfl

theorem fetch_reading {next : Entry → Pc}
    (hread : ((s.fetch t index l next).calls t).pc.reading = some i)
    (hnext : (next (s.entries index)).reading = some index)
    (hagrees : (next (s.entries index)).Agrees s.epochOf (s.entries index)) :
    i < maxModels ∧ (s.entries i).active = true ∧
      ((s.fetch t index l next).calls t).pc.Agrees s.epochOf (s.entries i) := by
  unfold fetch at hread ⊢
  split_ifs at hread ⊢ with hbad
  · simp [Pc.reading] at hread
  rw [goto_pc, if_pos rfl, hnext] at hread
  cases hread
  rw [goto_pc, if_pos rfl]
  obtain ⟨hlt, hactive⟩ := not_or.mp hbad
  exact ⟨not_le.mp hlt, by simpa using hactive, hagrees⟩

theorem callStep_reading (hr : s.Readers)
    (hpc : (s.calls t).pc = pc) (hstep : callStep s t inp pc = some s')
    (hl : pc.lease = some l) (hread : (s'.calls t).pc.reading = some i) :
    i < maxModels ∧ (s.entries i).active = true ∧
      (s'.calls t).pc.Agrees s.epochOf (s.entries i) := by
  have hold := hr t
  rw [hpc] at hold
  cases pc with
  | copyGraph index l' =>
    cases hstep
    exact fetch_reading hread rfl rfl
  | copyWeightTable index l' graph =>
    cases hstep
    exact fetch_reading hread rfl ⟨(hold index rfl).2.2, rfl⟩
  | getWeights index l' graph weightTable =>
    cases hstep
    obtain ⟨hgraph, htable⟩ := (hold index rfl).2.2
    exact fetch_reading hread rfl ⟨hgraph, htable, rfl⟩
  | getWorkspace index l' graph weightTable weights =>
    cases hstep
    obtain ⟨rfl, rfl, rfl⟩ := (hold index rfl).2.2
    exact fetch_reading hread rfl rfl
  | weightBase index l' e | workspacePtr index l' e =>
    simp only [callStep] at hstep
    split_ifs at hstep <;> cases hstep
    · rw [goto_pc, if_pos rfl] at hread ⊢
      cases hread
      obtain ⟨hlt, hactive, rfl⟩ := hold _ rfl
      exact ⟨hlt, hactive, rfl⟩
    · simp [Pc.reading] at hread
  | run index l' e | unshare l' r =>
    cases hstep
    simp [Pc.reading] at hread
  | _ => cases hl

theorem Pc.Agrees.later (h : pc.Agrees s.epochOf (s.entries i))
    (hi : i < maxModels) (hactive : (s.entries i).active = true)
    (hentry : s'.entries i = s.entries i) (ho : s'.Owned) (hsame : SameEpochs s s') :
    i < maxModels ∧ (s'.entries i).active = true ∧ pc.Agrees s'.epochOf (s'.entries i) := by
  have hactive' : (s'.entries i).active = true := by rw [hentry, hactive]
  have hepoch : ∀ k, s'.epochOf ((s.entries i).handle k) = s.epochOf ((s.entries i).handle k) := by
    intro k
    have hx : s'.Holds k (.slot i) ((s.entries i).handle k) := ⟨hi, hactive', by rw [hentry]⟩
    obtain ⟨hpool, hv⟩ := ho.valid hx
    simp only [epochOf, hpool, poolType_poolId]
    exact hsame k _ hv.live
  refine ⟨hi, hactive', h.congr ?_ ?_ ?_ ?_ (hepoch .weight) (hepoch .workspace)⟩ <;>
    rw [hentry]

theorem World.Readers.move (hr : s.Readers) (hl : s.Listed) (ho : s'.Owned)
    (hok : Steady s (.go t inp)) (hstep : callStep s t inp (s.calls t).pc = some s') :
    s'.Readers := by
  intro u i hread
  have hm := callStep_move rfl hstep
  have hsource : (i < maxModels ∧ (s.entries i).active = true ∧
      (s'.calls u).pc.Agrees s.epochOf (s.entries i)) ∧ s.target (.go t inp) ≠ some i := by
    by_cases hu : u = t
    · subst hu
      cases hlease : (s.calls u).pc.lease with
      | none => simp [hm.reading_eq_none hlease] at hread
      | some l =>
        refine ⟨callStep_reading hr rfl hstep hlease hread, ?_⟩
        simp [target_eq_none hlease]
    rw [hm.call_ne hu] at hread ⊢
    refine ⟨hr u i hread, fun htarget => ?_⟩
    obtain ⟨l, hlease⟩ := lease_of_reading hread
    exact hok.2 (u, l) ((hl.mem u l).mp hlease) i htarget hread
  obtain ⟨⟨hi, hactive, hagrees⟩, htarget⟩ := hsource
  have hentry := hm.entry_eq hactive
    (fun p hpc hfull hj => htarget (by simp [target, hpc, hfull, hj]))
    fun j p hpc hj => htarget (by simp [target, hpc, hj])
  exact hagrees.later hi hactive hentry ho hm.sameEpochs

/-! ## Whole runs -/

structure Uniform (s : World) : Prop extends Kept s where
  consistent : s.Consistent
  readers : s.Readers

section

variable (h : Uniform s)
include h

theorem Uniform.calls (hk : Kept s') (hentries : s'.entries = s.entries)
    (hgiven : s'.given = s.given) (hpools : s'.pools = s.pools)
    (hcalls : ∀ u, (s'.calls u).pc = if u = t then pc' else (s.calls u).pc)
    (hbuilt : ∀ given, pc'.Built given) (hreading : pc'.reading = none) : Uniform s' := by
  have hepoch : s'.epochOf = s.epochOf := by
    funext m
    simp only [epochOf, hpools]
  refine ⟨hk, ⟨by rw [hentries, hgiven]; exact h.consistent.slots, fun u => ?_⟩,
    fun u i hread => ?_⟩
  · rw [hcalls, hgiven]
    split_ifs
    · exact hbuilt _
    · exact h.consistent.calls u
  rw [hcalls] at hread ⊢
  split_ifs at hread ⊢
  · simp [hreading] at hread
  rw [hentries, hepoch]
  exact h.readers u i hread

theorem Uniform.mark
    (hk : Kept (s.setEntry i { s.entries i with pinned := pinned, lastUsed := lastUsed })) :
    Uniform (s.setEntry i { s.entries i with pinned := pinned, lastUsed := lastUsed }) := by
  have hentries : ∀ j, ∃ p n, (s.setEntry i { s.entries i with pinned, lastUsed }).entries j =
      { s.entries j with pinned := p, lastUsed := n } := by
    intro j
    by_cases hj : j = i
    · subst hj
      exact ⟨pinned, lastUsed, by simp [setEntry]⟩
    · exact ⟨(s.entries j).pinned, (s.entries j).lastUsed, by simp [setEntry, hj]⟩
  refine ⟨hk, ⟨fun j hj hactive => ?_, h.consistent.calls⟩, fun u j hread => ?_⟩
  · obtain ⟨p, n, hentry⟩ := hentries j
    rw [hentry] at hactive ⊢
    exact h.consistent.slots j hj hactive
  obtain ⟨p, n, hentry⟩ := hentries j
  obtain ⟨hj, hactive, hagrees⟩ := h.readers u j hread
  rw [hentry]
  exact ⟨hj, hactive, hagrees.congr rfl rfl rfl rfl rfl rfl⟩

theorem Uniform.unload (hok : Steady s (.unload i))
    (hk : Kept (((s.setEntry i .empty).free (s.entries i).weights).free (s.entries i).workspace)) :
    Uniform (((s.setEntry i .empty).free (s.entries i).weights).free (s.entries i).workspace) := by
  have hepochs := SameEpochs.free_pair (s := s.setEntry i .empty) (s.entries i).weights
    (s.entries i).workspace
  have hne : ∀ j, (((s.setEntry i .empty).entries j)).active = true → j ≠ i := by
    rintro j hactive rfl
    simp [setEntry, Entry.empty] at hactive
  refine ⟨hk, ⟨fun j hj hactive => ?_, fun u => ?_⟩, fun u j hread => ?_⟩
  · simp only [free_entries, free_given] at hactive ⊢
    have hj' := hne j hactive
    simp only [setEntry, Function.update_of_ne hj'] at hactive ⊢
    exact h.consistent.slots j hj hactive
  · simpa [setEntry] using h.consistent.calls u
  simp only [free_calls] at hread
  obtain ⟨hj, hactive, hagrees⟩ := h.readers u j hread
  obtain ⟨l, hlease⟩ := lease_of_reading hread
  have hji : j ≠ i := fun heq =>
    hok.2 (u, l) ((h.listed.mem u l).mp hlease) i rfl (heq ▸ hread)
  simp only [free_calls]
  exact hagrees.later hj hactive (by simp [setEntry, hji]) hk.owned hepochs

theorem Uniform.step {a : Act} (hok : Steady s a) (hstep : step s a = some s') : Uniform s' := by
  have hk := h.toKept.step hok.1 hstep
  cases step_effect hstep with
  | call t c v hold hnew =>
    refine h.calls hk rfl rfl rfl (update_pc s t c) hnew.built ?_
    by_contra hreading
    obtain ⟨i, hi⟩ := Option.ne_none_iff_exists'.mp hreading
    obtain ⟨l, hlease⟩ := lease_of_reading hi
    rw [hnew.lease] at hlease
    cases hlease
  | go hcall =>
    have hm := callStep_move rfl hcall
    have ho := h.owned.move h.listed hok.1 hm
    have hc := h.consistent.move h.owned hm
    have hr := h.readers.move h.listed ho hok hcall
    refine ⟨hk, ⟨hc.slots, fun u => ?_⟩, fun u i => ?_⟩
    · rw [noteWrites_pc]
      exact hc.calls u
    rw [noteWrites_pc]
    exact hr u i
  | unload i => exact h.unload hok hk
  | mark i pinned lastUsed => exact h.mark hk
  | none => exact h

end

variable {base count : PoolType → Nat}

end

/-! ## A swap between two copies -/

instance Steady.decidable (s : World) (a : Act) : Decidable (Steady s a) :=
  inferInstanceAs (Decidable (_ ∧ _))

end SlmOs.Loader
