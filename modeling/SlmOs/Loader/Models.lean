import SlmOs.Loader.Ownership

/-!
# Active models keep their memory

As long as the eviction policy takes blocks from others only, the blocks of an active
slot are its own, a block that is given back was its holder's and is nobody's afterwards,
a load or swap that fails has changed no slot, and a pinned model goes only when it is
asked to.
-/

namespace SlmOs.Loader

open Foundation ModelMem World Function

def World.frees (s : World) : Act → List ModelHandle
  | .go t _ =>
    match (s.calls t).pc with
    | .install _ =>
      match freeIdx s.entries, lruIdx s.entries with
      | none, some i => [(s.entries i).weights, (s.entries i).workspace]
      | _, _ => []
    | .freeWeights w _ _ => [w]
    | .freeWorkspace ws _ => [ws]
    | _ => []
  | .unload i =>
    if i < maxModels ∧ (s.entries i).active = true then
      [(s.entries i).weights, (s.entries i).workspace]
    else []
  | _ => []

def Pc.written : Pc → Bool
  | .idle => true
  | .returned (.loaded _) => true
  | .returned .swapped => true
  | .freeWeights _ _ .swapped => true
  | .freeWorkspace _ .swapped => true
  | _ => false

def World.Clean (s : World) : Prop :=
  ∀ t, (s.calls t).pc.written = false → (s.calls t).wrote = false

section

variable {s s' : World} {t : Nat} {inp : Input}

/-! ## Failed calls -/

theorem Move.entries_eq (hm : Move s t s') (hpc : (s'.calls t).pc.written = false) :
    s'.entries = s.entries := by
  cases hm with
  | quiet pc' | evict r candidates stale victim c | acquire index k => rfl
  | grant r now owner p h => simp [goto, perform]
  | freeWeights w ws r pc' | freeWorkspace ws r | unshare l r => simp [goto]
  | _ => simp [Pc.written] at hpc

theorem callStep_written (hstep : callStep s t inp pc = some s')
    (hpc : pc.written = true) : (s'.calls t).pc.written = true := by
  cases pc with
  | idle | returned r => cases hstep
  | freeWeights w ws r =>
    cases r with
    | swapped =>
      cases ws <;> cases hstep <;> simp [Pc.written]
    | _ => cases hpc
  | freeWorkspace ws r =>
    cases r with
    | swapped =>
      cases hstep
      simp [Pc.written]
    | _ => cases hpc
  | _ => cases hpc

theorem differs_eq_false (h : s'.entries = s.entries) : s.differs s' = false := by
  simp [differs, h]

theorem Move.call_ne (hm : Move s t s') (hu : u ≠ t) : s'.calls u = s.calls u := by
  cases hm <;> simp [goto, perform, setEntry, setOther, hu]

theorem World.Clean.go (h : s.Clean)
    (hstep : callStep s t inp (s.calls t).pc = some s₁) : (s.noteWrites t s₁).Clean := by
  intro u hu
  rw [noteWrites_pc] at hu
  have hm := callStep_move rfl hstep
  by_cases hut : u = t
  · subst hut
    have hbefore : (s.calls u).pc.written = false := by
      by_contra hw
      rw [callStep_written hstep (by simpa using hw)] at hu
      cases hu
    simp [noteWrites, h u hbefore, differs_eq_false (hm.entries_eq hu)]
  rw [hm.call_ne hut] at hu
  simp [noteWrites, hut, hm.call_ne hut, h u hu]

theorem World.Clean.step {a : Act} (h : s.Clean) (hstep : step s a = some s') : s'.Clean := by
  cases step_effect hstep with
  | call t c v hold hnew hwrote =>
    intro u hu
    by_cases hut : u = t
    · subst hut
      simp only [update_self] at hu ⊢
      refine hwrote fun hidle => ?_
      rw [hidle] at hu
      cases hu
    simp only [update_of_ne hut] at hu ⊢
    exact h u hu
  | go hcall => exact h.go hcall
  | unload i => simpa [World.Clean, setEntry] using h
  | mark i pinned lastUsed => exact h
  | none => exact h

/-! ## Pinned models -/

structure Entry.Stays (e e' : Entry) : Prop where
  active : e'.active = true
  pinned : e'.pinned = true
  weights : e'.weights = e.weights
  workspace : e'.workspace = e.workspace
  graph : e'.graph = e.graph
  weightTable : e'.weightTable = e.weightTable

variable {i : Nat}

theorem Move.entry_eq (hm : Move s t s') (hactive : (s.entries i).active = true)
    (hdisplace : ∀ p, (s.calls t).pc = .install p → freeIdx s.entries = none →
      lruIdx s.entries ≠ some i) (hreplace : ∀ j p, (s.calls t).pc = .replace j p → j.val ≠ i) :
    s'.entries i = s.entries i := by
  cases hm with
  | install p j now hpc hj =>
    have hne : i ≠ j := by
      rintro rfl
      rw [(find?_free hj).2] at hactive
      cases hactive
    simp [goto, setEntry, hne]
  | displace p j now hpc hfull hj =>
    have hne : i ≠ j := by
      rintro rfl
      exact hdisplace p hpc hfull hj
    simp [goto, setEntry, hne]
  | replace j p now hpc => simp [goto, setEntry, (hreplace j p hpc).symm]
  | _ => simp [goto, perform, setOther]

theorem Move.pinned (hm : Move s t s') (hactive : (s.entries i).active = true)
    (hpinned : (s.entries i).pinned = true)
    (hreplace : ∀ j p, (s.calls t).pc = .replace j p → j.val ≠ i) : s'.entries i = s.entries i := by
  refine hm.entry_eq hactive (fun p _ _ hj => ?_) hreplace
  rw [(lruIdx_some hj).2.2] at hpinned
  cases hpinned

theorem pinned_stays (hstep : step s a = some s') (hactive : (s.entries i).active = true)
    (hpinned : (s.entries i).pinned = true) (hunload : a ≠ .unload i) (hunpin : a ≠ .unpin i)
    (hreplace : ∀ t inp j p, a = .go t inp → (s.calls t).pc = .replace j p → j.val ≠ i) :
    (s.entries i).Stays (s'.entries i) := by
  have hsame : s'.entries i = s.entries i → (s.entries i).Stays (s'.entries i) := fun heq => by
    rw [heq]
    exact ⟨hactive, hpinned, rfl, rfl, rfl, rfl⟩
  cases step_effect hstep with
  | call t c v => exact hsame rfl
  | go hcall =>
    have hm := callStep_move rfl hcall
    exact hsame (hm.pinned hactive hpinned fun j p => hreplace _ _ j p rfl)
  | unload j =>
    have hne : i ≠ j := fun h => hunload (by rw [h])
    exact hsame (by simp [setEntry, hne])
  | mark j pinned lastUsed hpin =>
    by_cases hij : i = j
    · subst hij
      simpa [setEntry] using ⟨hactive, hpin hunpin hpinned, rfl, rfl, rfl, rfl⟩
    · exact hsame (by simp [setEntry, hij])
  | none => exact hsame rfl

/-! ## Blocks that are given back -/

variable {k : PoolType} {x : Who} {h : ModelHandle}

theorem World.Owned.valid (ho : s.Owned)
    (hx : s.Holds k x h) : h.poolId = poolId k ∧ (s.pools k).pool.Valid h := by
  obtain ⟨own, hb⟩ := ho
  exact hb.valid hx

theorem World.Owned.holder_unique
    (ho : s.Owned) (hx : s.Holds k x h) (hy : s.Holds k' y h) : k = k' ∧ x = y := by
  have hk : k = k' := poolId_injective ((ho.valid hx).1.symm.trans (ho.valid hy).1)
  subst hk
  obtain ⟨own, hb⟩ := ho
  exact ⟨rfl, hb.unique hx hy rfl⟩

theorem World.Owned.gone (ho : s.Owned) (hx : s.Holds k x h) (hself : ∀ k', ¬ s'.Holds k' x h)
    (hrest : ∀ k' y, y ≠ x → s'.Holds k' y h → ∃ z, z ≠ x ∧ s.Holds k' z h) :
    (∃ k x, s.Holds k x h) ∧ ∀ k' y, ¬ s'.Holds k' y h := by
  refine ⟨⟨k, x, hx⟩, fun k' y hy => ?_⟩
  by_cases hyx : y = x
  · exact hself k' (hyx ▸ hy)
  obtain ⟨z, hz, hhz⟩ := hrest k' y hyx hy
  exact hz (ho.holder_unique hhz hx).2

theorem World.Owned.gone_slot (ho : s.Owned) (hi : i < maxModels)
    (hactive : (s.entries i).active = true)
    (hmem : h ∈ [(s.entries i).weights, (s.entries i).workspace])
    (hslot : ∀ k, s'.Holds k (.slot i) h → ∃ z, z ≠ .slot i ∧ s.Holds k z h)
    (hrest : ∀ k y, y ≠ .slot i → s'.Holds k y h → s.Holds k y h) :
    (∃ k x, s.Holds k x h) ∧ ∀ k' y, ¬ s'.Holds k' y h := by
  have hx : ∃ k, s.Holds k (.slot i) h := by
    rcases List.mem_pair.mp hmem with rfl | rfl
    · exact ⟨.weight, hi, hactive, rfl⟩
    · exact ⟨.workspace, hi, hactive, rfl⟩
  obtain ⟨k, hx⟩ := hx
  refine ho.gone hx (fun k' hk' => ?_) fun k' y hy hhy => ⟨y, hy, hrest k' y hy hhy⟩
  obtain ⟨z, hz, hhz⟩ := hslot k' hk'
  exact hz (ho.holder_unique hhz hx).2

theorem World.Owned.gone_call (pc' : Pc) (ho : s.Owned)
    (hx : (s.calls t).pc.holds k = some h) (hpc' : pc'.holds k = none)
    (hkeep : ∀ k', pc'.holds k' = some h → (s.calls t).pc.holds k' = some h) :
    (∃ k x, s.Holds k x h) ∧ ∀ k' y, ¬ ((s.free h).goto t pc').Holds k' y h := by
  have hiff := holds_call s ((s.free h).goto t pc') t pc' (by simp [goto])
    (by simp [goto]) (by simp)
  have hholds : s.Holds k (.call t) h := hx
  refine ho.gone hholds (fun k' hk' => ?_) fun k' y hy hhy => ⟨y, hy, ?_⟩
  · rw [hiff, if_pos rfl] at hk'
    have hold : s.Holds k' (.call t) h := hkeep k' hk'
    obtain ⟨rfl, -⟩ := ho.holder_unique hholds hold
    rw [hpc'] at hk'
    cases hk'
  rw [hiff, if_neg hy] at hhy
  exact hhy

theorem World.Owned.gone_displaced (ho : s.Owned)
    (hpc : (s.calls t).pc = .install p) (hlru : lruIdx s.entries = some i)
    (hmem : h ∈ [(s.entries i).weights, (s.entries i).workspace]) :
    (∃ k x, s.Holds k x h) ∧
      ∀ k y, ¬ (((((s.free (s.entries i).weights).free (s.entries i).workspace).setEntry i
        .empty).setEntry i (p.install now)).goto t (.returned (.loaded i))).Holds k y h := by
  obtain ⟨hi, hactive, -⟩ := lruIdx_some hlru
  refine ho.gone_slot hi hactive hmem (fun k hk => ?_) fun k y hy hhy => ?_
  · refine ⟨.call t, by simp, ?_⟩
    simp only [World.Holds, goto, setEntry, update_self] at hk
    simp only [World.Holds, hpc, Pc.holds, ← hk.2.2]
    cases k <;> rfl
  cases y with
  | slot j =>
    have hj : j ≠ i := fun heq => hy (by rw [heq])
    simpa [World.Holds, goto, setEntry, hj] using hhy
  | call u =>
    by_cases hu : u = t
    · simp [World.Holds, goto, setEntry, hu, Pc.holds] at hhy
    · simpa [World.Holds, goto, setEntry, hu] using hhy
  | other => simpa [World.Holds, goto, setEntry] using hhy

theorem World.Owned.gone_unloaded (ho : s.Owned)
    (hi : i < maxModels) (hactive : (s.entries i).active = true)
    (hmem : h ∈ [(s.entries i).weights, (s.entries i).workspace]) :
    (∃ k x, s.Holds k x h) ∧ ∀ k y, ¬ (((s.setEntry i .empty).free (s.entries i).weights).free
        (s.entries i).workspace).Holds k y h := by
  refine ho.gone_slot hi hactive hmem (fun k hk => ?_) fun k y hy hhy => ?_
  · simp [World.Holds, setEntry, Entry.empty] at hk
  cases y with
  | slot j =>
    have hj : j ≠ i := fun heq => hy (by rw [heq])
    simpa [World.Holds, setEntry, hj] using hhy
  | call u | other => simpa [World.Holds, setEntry] using hhy

theorem freed_gone (ho : s.Owned) (hstep : step s a = some s')
    (hmem : h ∈ s.frees a) : (∃ k x, s.Holds k x h) ∧ ∀ k y, ¬ s'.Holds k y h := by
  cases a with
  | unload i =>
    simp only [frees] at hmem
    simp only [Loader.step] at hstep
    split_ifs at hmem hstep with hactive
    · cases hstep
      exact ho.gone_unloaded hactive.1 hactive.2 hmem
    · cases hmem
  | go t inp =>
    obtain ⟨s₁, hs₁, rfl⟩ := Option.map_eq_some_iff.mp hstep
    simp only [holds_noteWrites]
    simp only [frees] at hmem
    split at hmem
    · rename_i p hpc
      split at hmem
      · rename_i i hfree hlru
        rw [hpc] at hs₁
        simp only [callStep, loadStep, makeRoom, hfree, hlru] at hs₁
        cases hs₁
        exact ho.gone_displaced hpc hlru hmem
      · cases hmem
    · rename_i w ws r hpc
      obtain rfl : h = w := by simpa using hmem
      have hx : (s.calls t).pc.holds .weight = some h := by
        rw [hpc]
        rfl
      rw [hpc] at hs₁
      cases ws with
      | none =>
        cases hs₁
        exact ho.gone_call (.returned r) hx rfl fun k' hk' => by cases hk'
      | some ws =>
        cases hs₁
        refine ho.gone_call (.freeWorkspace ws r) hx rfl fun k' hk' => ?_
        rw [hpc]
        cases k' with
        | weight => cases hk'
        | workspace => exact hk'
    · rename_i ws r hpc
      obtain rfl : h = ws := by simpa using hmem
      have hx : (s.calls t).pc.holds .workspace = some h := by
        rw [hpc]
        rfl
      rw [hpc] at hs₁
      cases hs₁
      exact ho.gone_call (.returned r) hx rfl fun k' hk' => by cases hk'
    · cases hmem
  | _ => cases hmem

/-! ## Whole runs -/

variable {base count : PoolType → Nat}

theorem books_new {W : Type} {Holds : PoolType → W → ModelHandle → Prop}
    (hnone : ∀ k x h, ¬ Holds k x h) :
    Books (World.new base count).pools [] Holds fun _ _ => none where
  sound := fun _ => History.sound_init _ _ _
  held := fun k x h hx => absurd hx (hnone k x h)
  owner := nofun
  count := fun _ _ _ => rfl
  leased := nofun

theorem listed_new : (World.new base count).Listed where
  mem := fun t l => by simp [World.new, Pc.lease]
  nodup := List.nodup_nil

theorem kept_new : Kept (World.new base count) where
  owned := ⟨_, books_new fun k x h hx => by
    cases x <;> simp [World.Holds, World.new, Entry.empty, Pc.holds] at hx⟩
  listed := listed_new

structure Orderly (s : World) : Prop extends Kept s where
  clean : s.Clean

theorem orderly_run (hrun : Run step Spares (World.new base count) s) : Orderly s := by
  refine Run.invariant (I := Orderly) ?_ ?_ hrun
  · intro s a s' h hok hstep
    exact ⟨h.toKept.step hok hstep, h.clean.step hstep⟩
  · exact ⟨kept_new, fun t h => rfl⟩

theorem World.Owned.holder_or_lease (ho : s.Owned)
    (hi : i < (s.pools k).pool.blockCount) (hlive : ((s.pools k).pool.blocks i).state ≠ .free) :
    (∃ x, s.Holds k x (handleOf s.pools k i)) ∨ ∃ t l, (t, l) ∈ s.leases ∧ l.on k i = true := by
  obtain ⟨own, hb⟩ := ho
  rcases (hb.live_iff hi).mp hlive with hown | hlease
  · obtain ⟨x, hx⟩ := Option.isSome_iff_exists.mp hown
    exact .inl ⟨x, (hb.owner k i x hx).2⟩
  rw [Ne, leaseCount_eq_zero] at hlease
  push Not at hlease
  obtain ⟨l, hl, hon⟩ := hlease
  obtain ⟨⟨t, l⟩, htl, rfl⟩ := List.mem_map.mp hl
  exact .inr ⟨t, l, htl, hon⟩

theorem models_keep_memory (hrun : Run step Spares (World.new base count) s) :
    (∀ k x h, s.Holds k x h → h.poolId = poolId k ∧ (s.pools k).pool.Valid h ∧
      ∀ y h', s.Holds k y h' → h'.blockIndex = h.blockIndex → y = x) ∧
    (∀ k, ∀ i < (s.pools k).pool.blockCount, ((s.pools k).pool.blocks i).state ≠ .free →
      (∃ x, s.Holds k x (handleOf s.pools k i)) ∨ ∃ t l, (t, l) ∈ s.leases ∧ l.on k i = true) ∧
    (∀ a s', step s a = some s' → ∀ h ∈ s.frees a,
      (∃ k x, s.Holds k x h) ∧ ∀ k y, ¬ s'.Holds k y h) ∧
    (∀ t e, (s.calls t).pc = .returned (.failed e) → (s.calls t).wrote = false) ∧
    (∀ a s', step s a = some s' → ∀ i, (s.entries i).active = true →
      (s.entries i).pinned = true → a ≠ .unload i → a ≠ .unpin i →
      (∀ t inp j p, a = .go t inp → (s.calls t).pc = .replace j p → j.val ≠ i) →
      (s.entries i).Stays (s'.entries i)) := by
  have h := orderly_run hrun
  refine ⟨fun k x m hx => ?_, fun k i hi hlive => h.owned.holder_or_lease hi hlive,
    fun a s' hstep m hm => freed_gone h.owned hstep hm, fun t e hpc => ?_, ?_⟩
  · obtain ⟨hpool, hvalid⟩ := h.owned.valid hx
    refine ⟨hpool, hvalid, fun y m' hy hsame => ?_⟩
    obtain ⟨own, hb⟩ := h.owned
    exact hb.unique hy hx hsame
  · apply h.clean t
    rw [hpc]
    rfl
  intro a s' hstep i hactive hpinned hunload hunpin hreplace
  exact pinned_stays hstep hactive hpinned hunload hunpin hreplace

end

/-! ## Two models, one block -/

instance : Fintype PoolType where
  elems := {.weight, .workspace}
  complete := fun k => by cases k <;> decide

instance Spares.decidable (s : World) (a : Act) : Decidable (Spares s a) := by
  cases a with
  | go t inp =>
    simp only [Spares]
    split
    · rename_i r candidates stale victim hpc
      exact inferInstanceAs (Decidable (∀ c ∈ candidates[victim]?, _))
    · infer_instance
    · exact .isTrue trivial
  | _ => exact .isTrue trivial

def cramped : World := World.new (fun _ => 0) fun _ => 1

def eager : Input := ⟨0, 0, some 0, none⟩

def loading : List Act :=
  [.load 0 none, .go 0 eager, .go 0 eager, .go 0 eager, .go 0 eager, .go 0 eager, .resume 0]

theorem models_keep_memory_loaded : ∃ s, Run step Spares (World.new (fun _ => 0) fun _ => 1) s ∧
      s.Holds .weight (.slot 0) ⟨0, 0, 0⟩ ∧ (s.pools .weight).pool.Valid ⟨0, 0, 0⟩ := by
  have hrun := run_get step Spares loading cramped (by decide) (by decide)
  have hholds : ((exec step cramped loading).get (by decide)).Holds .weight (.slot 0)
      ⟨0, 0, 0⟩ := ⟨by decide, by decide, by decide⟩
  exact ⟨_, hrun, hholds, ((models_keep_memory hrun).1 _ _ _ hholds).2.1⟩

/-- A model is loaded and pinned, and the policy takes its weights for the next one. -/
theorem pinned_model_evicted : ∃ s, exec step (World.new (fun _ => 0) fun _ => 1)
        (loading ++ [.pin 0, .load 1 none, .go 1 eager, .go 1 eager, .go 1 eager, .go 1 eager,
          .go 1 eager]) = some s ∧
      (s.entries 0).active = true ∧ (s.entries 0).pinned = true ∧
      ¬ (s.pools .weight).pool.Valid (s.entries 0).weights ∧
      (s.calls 1).pc.holds .weight = some ⟨0, 0, 1⟩ := by
  refine ⟨_, rfl, rfl, rfl, fun hvalid => ?_, rfl⟩
  cases hvalid.generation

end SlmOs.Loader
