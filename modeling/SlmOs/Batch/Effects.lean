import SlmOs.Batch.Slots

/-!
# What a step leaves alone

A step of one call changes neither the other calls nor the arguments of its own.  It
writes to slots that it has claimed or that nobody has, to the output of the request it
runs, and to the scratch slabs only when it has locked them.
-/

namespace SlmOs.Batch

open Foundation Sched List

variable {Val : Type} (eng : Engine Val) {s s' : Sched Val} {st : Nat → Status}
  {t : Nat} {env : Env} {pc : Pc}

inductive Yields (st : Nat → Status) (t i : Nat) : Prop
  | free (h : st i = .free)
  | queued (u : Nat) (h : st i = .queued u)
  | served (ok : Bool) (h : st i = .served t ok)
  | claimed (u : Nat) (h : st i = .claimed u t)

def Sched.writes (s : Sched Val) (t : Nat) : Option Request :=
  match (s.calls t).pc with
  | .solo => some (s.calls t).req
  | .fan _ batch _ i => (batch[i]?).map fun idx => (s.slots idx).req
  | .het _ batch i _ => (batch[i]?).map fun idx => (s.slots idx).req
  | _ => none

def Pc.locked : Pc → Bool
  | .check _ _ _ _ _ => true
  | .copy _ _ _ _ _ => true
  | .engine _ _ _ _ => true
  | .fan _ _ _ _ => true
  | .signal _ _ _ _ => true
  | .fail _ _ _ _ => true
  | .finish _ _ => true
  | .unlock _ => true
  | _ => false

structure Effect (s s' : Sched Val) (st : Nat → Status) (t : Nat) : Prop where
  others : ∀ u, u ≠ t → s'.calls u = s.calls u
  req : (s'.calls t).req = (s.calls t).req
  input : (s'.calls t).input = (s.calls t).input
  live : s'.live = s.live
  failed : s.failed ⊆ s'.failed
  slots : ∀ i, ¬ Yields st t i → s'.slots i = s.slots i
  mem : ∀ p, (∀ r, s.writes t = some r → p ≠ r.outputPtr) → s'.mem p = s.mem p
  scratch : (s.calls t).pc.locked = false →
    s'.scratchIn = s.scratchIn ∧ s'.scratchOut = s.scratchOut ∧
      (s'.scratchLock = s.scratchLock ∨ s.scratchLock = none)

theorem Effect.req_all (h : Effect s s' st t) (u : Nat) : (s'.calls u).req = (s.calls u).req := by
  by_cases hu : u = t
  · rw [hu, h.req]
  · rw [h.others u hu]

theorem Effect.input_all (h : Effect s s' st t) (u : Nat) :
    (s'.calls u).input = (s.calls u).input := by
  by_cases hu : u = t
  · rw [hu, h.input]
  · rw [h.others u hu]

theorem Effect.refl (s : Sched Val) (st : Nat → Status) (t : Nat) : Effect s s st t where
  others _ _ := rfl
  req := rfl
  input := rfl
  live := rfl
  failed := List.Subset.refl _
  slots _ _ := rfl
  mem _ _ := rfl
  scratch _ := ⟨rfl, rfl, .inl rfl⟩

variable {pc' : Pc}

theorem Effect.of_goto (hcalls : s'.calls = (s.goto t pc').calls)
    (hlive : s'.live = s.live) (hfailed : s.failed ⊆ s'.failed)
    (hmem : ∀ p, (∀ r, s.writes t = some r → p ≠ r.outputPtr) → s'.mem p = s.mem p)
    (hslots : ∀ i, ¬ Yields st t i → s'.slots i = s.slots i)
    (hscratch : (s.calls t).pc.locked = false →
      s'.scratchIn = s.scratchIn ∧ s'.scratchOut = s.scratchOut ∧
        (s'.scratchLock = s.scratchLock ∨ s.scratchLock = none)) : Effect s s' st t where
  others u hu := by simp [hcalls, goto, hu]
  req := by simp [hcalls, goto]
  input := by simp [hcalls, goto]
  live := hlive
  failed := hfailed
  slots := hslots
  mem := hmem
  scratch := hscratch

theorem Effect.plain {slots : Nat → Slot} {pending : List Nat} {first : Nat}
    (hs : s' = { s.goto t pc' with slots := slots, pending := pending, batchFirstTimeNs := first })
    (hslots : ∀ i, ¬ Yields st t i → slots i = s.slots i) : Effect s s' st t := by
  subst hs
  exact .of_goto rfl rfl (List.Subset.refl _) (fun _ _ => rfl) hslots fun _ => ⟨rfl, rfl, .inl rfl⟩

theorem Effect.inside {rows : Nat → List Val} (hlocked : (s.calls t).pc.locked = true)
    (hs : s' = { s.goto t pc' with scratchIn := rows, scratchLock := lock }) :
    Effect s s' st t := by
  subst hs
  exact .of_goto rfl rfl (List.Subset.refl _) (fun _ _ => rfl) (fun _ _ => rfl)
    fun hfree => absurd (hlocked.symm.trans hfree) (by decide)

theorem write_mem_of_ne (s : Sched Val) (vs : List Val) (h : p ≠ ptr) :
    (s.write ptr vs).mem p = s.mem p := by
  simp [write, h]

theorem Effect.runInference (failure : Option EngineError) (pc' : Pc) (hr : s.writes t = some r) :
    Effect s ((s.runInference eng r failure).1.goto t pc') st t := by
  cases failure with
  | some e =>
    exact .of_goto rfl rfl (subset_cons_self _ _) (fun _ _ => rfl) (fun _ _ => rfl)
      fun _ => ⟨rfl, rfl, .inl rfl⟩
  | none =>
    simp only [Sched.runInference]
    split
    · exact .of_goto rfl rfl (subset_cons_self _ _) (fun _ _ => rfl) (fun _ _ => rfl)
        fun _ => ⟨rfl, rfl, .inl rfl⟩
    exact .of_goto rfl rfl (List.Subset.refl _)
      (fun p hp => write_mem_of_ne s _ (hp r hr)) (fun _ _ => rfl)
      fun _ => ⟨rfl, rfl, .inl rfl⟩

theorem Effect.runInferenceBatched {batch : List Nat} {model : Nat} {failure : Option EngineError}
    {s₁ : Sched Val} {res : Result} (pc' : Pc) (hlocked : (s.calls t).pc.locked = true)
    (hrun : s.runInferenceBatched eng batch model failure = (s₁, res)) :
    Effect s (s₁.goto t pc') st t := by
  have hfree : (s.calls t).pc.locked ≠ false := by simp [hlocked]
  cases failure with
  | some e =>
    cases hrun
    exact .of_goto rfl rfl (subset_cons_self _ _) (fun _ _ => rfl) (fun _ _ => rfl)
      fun h => absurd h hfree
  | none =>
    simp only [Sched.runInferenceBatched] at hrun
    split at hrun <;> cases hrun
    · exact .of_goto rfl rfl (subset_cons_self _ _) (fun _ _ => rfl) (fun _ _ => rfl)
        fun h => absurd h hfree
    exact .of_goto rfl rfl (List.Subset.refl _) (fun _ _ => rfl) (fun _ _ => rfl)
      fun h => absurd h hfree

variable {i : Nat}

theorem Held.yields_of_serves (h : Held s st) (hs : (s.calls t).pc.serves i) : Yields st t i := by
  obtain ⟨-, hserver⟩ := (h.serves t i).mp hs
  cases hst : st i with
  | claimed u v =>
    cases hst ▸ hserver
    exact .claimed u hst
  | _ => simp [hst, Status.server] at hserver

theorem Held.free_of_idle (h : Held s st) (hi : i < maxBatch)
    (hidle : (s.slots i).state = .idle) : st i = .free := by
  rw [h.state i hi] at hidle
  cases hst : st i with
  | free => rfl
  | served u ok => cases ok <;> simp [hst, Status.state] at hidle
  | _ => simp [hst, Status.state] at hidle

theorem reserveSlot_cases (s : Sched Val) (r : Request) (now : Nat) :
    s.reserveSlot r now = (s, none) ∨ ∃ i < maxBatch, (s.slots i).state = .idle ∧
        (s.reserveSlot r now = (s.setSlot i ⟨.idle, r, 0⟩, none) ∨ s.reserveSlot r now =
            ({ s.setSlot i ⟨.pending, r, 0⟩ with
                pending := s.pending ++ [i]
                batchFirstTimeNs := if s.pending = [] then now else s.batchFirstTimeNs },
              some i)) := by
  cases hfind : (range maxBatch).find? fun i => (s.slots i).state == .idle with
  | none => simp [reserveSlot, hfind]
  | some i =>
    have hi : i < maxBatch := mem_range.mp (mem_of_find?_eq_some hfind)
    have hidle : (s.slots i).state = .idle := by simpa using find?_some hfind
    refine .inr ⟨i, hi, hidle, ?_⟩
    by_cases hroom : maxBatch ≤ s.pending.length <;> simp [reserveSlot, hfind, hroom]

theorem Held.dispatchStep_effect (h : Held s st) (hpc : (s.calls t).pc = pc)
    (hstep : Batch.dispatchStep eng s t env pc = some s') : Effect s s' st t := by
  -- a slot that `t` may not write to is none of those it serves
  have hnot : ∀ j, pc.serves j → ∀ i, ¬ Yields st t i → i ≠ j := by
    rintro j hj i hi rfl
    exact hi (h.yields_of_serves (hpc ▸ hj))
  cases pc with
  | scratch slot batch =>
    simp only [Batch.dispatchStep] at hstep
    split at hstep <;> cases hstep
    · exact .refl s st t
    rename_i hlock
    exact .of_goto rfl rfl (List.Subset.refl _) (fun _ _ => rfl) (fun _ _ => rfl)
      fun _ => ⟨rfl, rfl, .inr hlock⟩
  | check slot batch model dim i =>
    simp only [Batch.dispatchStep] at hstep
    split at hstep
    · cases hstep
      exact .plain rfl fun _ _ => rfl
    split at hstep <;> cases hstep <;>
      exact .inside (by rw [hpc]; rfl) rfl
  | copy slot batch model dim i =>
    simp only [Batch.dispatchStep] at hstep
    split at hstep <;> cases hstep <;>
      exact .inside (by rw [hpc]; rfl) rfl
  | engine slot batch model dim =>
    have hlocked : (s.calls t).pc.locked = true := by rw [hpc]; rfl
    simp only [Batch.dispatchStep] at hstep
    split at hstep
    · rename_i hrun
      cases hstep
      exact .runInferenceBatched eng _ hlocked hrun
    rename_i hrun
    split at hstep <;> cases hstep <;> exact .runInferenceBatched eng _ hlocked hrun
  | fan slot batch perOut i =>
    simp only [Batch.dispatchStep] at hstep
    split at hstep <;> cases hstep
    · exact .plain rfl fun _ _ => rfl
    rename_i idx hidx
    have hne := hnot _ (.inl (mem_drop_of_getElem? hidx))
    exact .of_goto rfl rfl (List.Subset.refl _)
      (fun p hp => write_mem_of_ne s _ (hp _ (by simp [Sched.writes, hpc, hidx])))
      (fun j hj => Sched.setResult_of_ne _ _ (hne j hj)) fun _ => ⟨rfl, rfl, .inl rfl⟩
  | signal slot batch perOut i =>
    simp only [Batch.dispatchStep] at hstep
    split at hstep
    · cases hstep
    rename_i idx hidx
    have hne := hnot _ (.inl (mem_drop_of_getElem? hidx))
    split at hstep <;> cases hstep
    · exact .plain rfl fun _ _ => rfl
    exact .plain rfl fun j hj =>
      Sched.setState_of_ne _ _ (hne j hj)
  | fail slot batch e i =>
    simp only [Batch.dispatchStep] at hstep
    split at hstep
    · cases hstep
      exact .plain rfl fun _ _ => rfl
    rename_i idx hidx
    have hne := hnot _ (.inl (mem_drop_of_getElem? hidx))
    split at hstep <;> cases hstep
    · exact .plain rfl fun j hj =>
        Sched.setResult_of_ne _ _ (hne j hj)
    exact .plain rfl fun j hj =>
      (Sched.setState_of_ne _ _ (hne j hj)).trans (Sched.setResult_of_ne _ _ (hne j hj))
  | finish slot e =>
    cases hstep
    exact .plain rfl fun j hj =>
      Sched.setState_of_ne _ _ (hnot slot rfl j hj)
  | unlock r =>
    cases hstep
    exact .inside (by rw [hpc]; rfl) rfl
  | het slot batch i self =>
    simp only [Batch.dispatchStep] at hstep
    split at hstep <;> cases hstep
    · exact .plain rfl fun _ _ => rfl
    rename_i idx hidx
    exact .runInference eng env.failure _ (by simp [Sched.writes, hpc, hidx])
  | hetStore slot batch i self r =>
    simp only [Batch.dispatchStep] at hstep
    split at hstep
    · cases hstep
    rename_i idx hidx
    have hne := hnot _ (mem_drop_of_getElem? hidx)
    split at hstep <;> cases hstep <;>
      exact .plain rfl fun j hj =>
        (Sched.setState_of_ne _ _ (hne j hj)).trans (Sched.setResult_of_ne _ _ (hne j hj))
  | _ => cases hstep

theorem claimAll_slots (hi : i ∉ s.pending) : s.claimAll.slots i = s.slots i := by
  simp [claimAll, hi]

theorem Held.submitStep_effect (h : Held s st) (hpc : (s.calls t).pc = pc)
    (hstep : Batch.submitStep eng s t env pc = some s') : Effect s s' st t := by
  have hpending : ∀ i, ¬ Yields st t i → i ∉ s.pending := by
    intro i hnot hi
    obtain ⟨-, u, hu⟩ := (h.pending i).mp hi
    exact hnot (.queued u hu)
  cases pc with
  | reserve cfgSize =>
    simp only [Batch.submitStep] at hstep
    rcases reserveSlot_cases s (s.calls t).req env.now with hr | ⟨j, hj, hidle, hr⟩
    · rw [hr] at hstep
      cases hstep
      exact .plain rfl fun _ _ => rfl
    have hne : ∀ i, ¬ Yields st t i → i ≠ j := by
      rintro i hnot rfl
      exact hnot (.free (h.free_of_idle hj hidle))
    rcases hr with hr | hr <;> rw [hr] at hstep <;> cases hstep
    all_goals
      exact .plain rfl fun i hi => by
        simp [Sched.setSlot, hne i hi]
  | decide slot cfgSize =>
    simp only [Batch.submitStep] at hstep
    split at hstep <;> cases hstep
    · exact .plain rfl fun _ _ => rfl
    · exact .plain rfl fun i hi => claimAll_slots (hpending i hi)
    · exact .plain rfl fun _ _ => rfl
  | release slot =>
    simp only [Batch.submitStep, Sched.releaseSlotAsSolo] at hstep
    cases hstep
    split
    · rename_i hslot
      refine .plain rfl fun i hi => Sched.setState_of_ne _ _ ?_
      rintro rfl
      exact hpending i hi hslot
    · exact .plain rfl fun _ _ => rfl
  | solo =>
    cases hstep
    exact .runInference eng env.failure _ (by simp [Sched.writes, hpc])
  | wait slot | flush slot =>
    simp only [Batch.submitStep] at hstep
    split at hstep <;> cases hstep <;> exact .plain rfl fun _ _ => rfl
  | take slot ok =>
    cases hstep
    refine .plain rfl fun i hi => Sched.setState_of_ne _ _ ?_
    rintro rfl
    exact hi (.served ok (h.taken t i ok hpc))
  | claim slot timeoutNs =>
    simp only [Batch.submitStep] at hstep
    split at hstep <;> cases hstep
    · exact .plain rfl fun i hi => claimAll_slots (hpending i hi)
    · exact .plain rfl fun _ _ => rfl
  | _ =>
    simp only [Batch.submitStep] at hstep
    exact h.dispatchStep_effect eng hpc hstep

end SlmOs.Batch
