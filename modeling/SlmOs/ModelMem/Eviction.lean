import SlmOs.ModelMem.Handles

/-!
# Evicting a block

`evict_and_retry` of `runtime/src/mm/model_mem.rs`.  The allocator's lock is held while
the candidates are listed, while the victim is taken back and for the last
allocation, but not while the policy decides.  So an evictor is a machine whose steps
interleave with every operation that others perform on the pool, and the policy's
answer is an input.
-/

namespace SlmOs.ModelMem

open Foundation BlockSlot History Option

inductive PoolType where
  | weight
  | workspace
  deriving DecidableEq, Repr

def poolType : Nat → Option PoolType
  | 0 => some .weight
  | 1 => some .workspace
  | _ => none

structure BlockMeta where
  blockId : Nat
  poolType : PoolType
  refCount : Nat
  tracking : Tracking
  deriving DecidableEq, Repr

/-- `block_id`, and how it is taken apart again. -/
def packBlockId (poolId idx : Nat) : Nat := poolId <<< 24 ||| (idx &&& 0x00FFFFFF)
def slotOfBlockId (blockId : Nat) : Nat := blockId &&& 0x00FFFFFF

def MemoryPool.snapshotAt (p : MemoryPool) (idx poolId : Nat) : Option BlockMeta :=
  if p.blockCount ≤ idx then none
  else if (p.blocks idx).state = .free then none
  else
    (poolType poolId).map fun t =>
      ⟨packBlockId poolId idx, t, min (p.blocks idx).refcount 255, (p.blocks idx).tracking⟩

def MemoryPool.snapshotPoolCandidates (p : MemoryPool) (poolId : Nat) : List (BlockMeta × Nat) :=
  (List.range p.blockCount).filterMap fun i =>
    if (p.blocks i).isEvictable then
      (p.snapshotAt i poolId).map fun m => (m, (p.blocks i).generation)
    else none

def maxStaleVictims : Nat := 4

inductive Outcome where
  | handle (h : ModelHandle)
  | error (e : AllocError)
  /-- The policy has named a candidate that does not exist. -/
  | panic
  deriving DecidableEq, Repr

inductive EvictPc where
  | snapshot
  | consult
  | reclaim (victimIdx : Nat)
  | retry
  | done (r : Outcome)
  deriving DecidableEq, Repr

structure Evictor where
  history : History
  pc : EvictPc
  candidates : List (BlockMeta × Nat)
  staleVictims : Nat
  /-- The pool as it was when the candidates were listed. -/
  seen : History

def Evictor.start (h : History) : Evictor := ⟨h, .snapshot, [], 0, h⟩

inductive EvictAct where
  | snapshot
  /-- The answer of `select_victim`: `none` if no policy is installed. -/
  | consult (answer : Option Nat)
  | reclaim
  | retry (now owner : Nat)
  | other (op : Op)
  deriving DecidableEq, Repr

def Evictor.perform (poolId : Nat) (e : Evictor) (op : Op) : Option Evictor :=
  (History.step poolId e.history op).map fun h => { e with history := h }

def evictStep (poolId : Nat) (e : Evictor) : EvictAct → Option Evictor
  | .snapshot =>
    match e.pc with
    | .snapshot =>
      some { e with
        pc := .consult
        candidates := e.history.pool.snapshotPoolCandidates poolId
        seen := e.history }
    | _ => none
  | .consult answer =>
    match e.pc with
    | .consult =>
      if e.candidates = [] ∨ maxStaleVictims ≤ e.staleVictims then
        some { e with pc := .retry }
      else
        match answer with
        | none => some { e with pc := .done (.error .outOfMemory) }
        | some victimIdx =>
          if victimIdx < e.candidates.length then
            some { e with pc := .reclaim victimIdx }
          else some { e with pc := .done .panic }
    | _ => none
  | .reclaim =>
    match e.pc with
    | .reclaim victimIdx =>
      match e.candidates[victimIdx]? with
      | none => none
      | some (m, generation) =>
        let slotIdx := slotOfBlockId m.blockId
        if e.history.pool.blockCount ≤ slotIdx then
          some { e with pc := .done (.error .invalidHandle) }
        else
          (e.perform poolId (.evict slotIdx generation)).map fun e' =>
            if (e.history.pool.reclaim poolId slotIdx generation).2 then
              { e' with pc := .retry }
            else
              { e' with
                pc := .consult
                candidates := e.candidates.eraseIdx victimIdx
                staleVictims := e.staleVictims + 1 }
    | _ => none
  | .retry now owner =>
    match e.pc with
    | .retry =>
      (e.perform poolId (.alloc now owner)).map fun e' =>
        { e' with
          pc := .done (match e.history.pool.alloc poolId now owner with
            | .ok (_, h) => .handle h
            | .error err => .error err) }
    | _ => none
  | .other op => e.perform poolId op

def EvictAct.own : EvictAct → Bool
  | .other _ => false
  | _ => true

/-! ## The candidates -/

theorem slotOfBlockId_pack (poolId : Nat) (h : idx < 2 ^ 24) :
    slotOfBlockId (packBlockId poolId idx) = idx := by
  have hmask : (0x00FFFFFF : Nat) = 2 ^ 24 - 1 := rfl
  rw [slotOfBlockId, packBlockId, hmask, Nat.and_two_pow_sub_one_eq_mod,
    Nat.and_two_pow_sub_one_eq_mod, Nat.mod_eq_of_lt h,
    ← Nat.shiftLeft_add_eq_or_of_lt h, Nat.shiftLeft_eq]
  omega

theorem MemoryPool.mem_snapshot {p : MemoryPool} {poolId : Nat} (hn : p.blockCount ≤ 512)
    {c : BlockMeta × Nat} (hc : c ∈ p.snapshotPoolCandidates poolId) :
    slotOfBlockId c.1.blockId < p.blockCount ∧
      (p.blocks (slotOfBlockId c.1.blockId)).isEvictable = true ∧
      c.2 = (p.blocks (slotOfBlockId c.1.blockId)).generation := by
  obtain ⟨i, hi, hc⟩ := List.mem_filterMap.mp hc
  have hi := List.mem_range.mp hi
  split at hc
  · rename_i hev
    obtain ⟨m, hm, rfl⟩ := map_eq_some_iff.mp hc
    have hid : m.blockId = packBlockId poolId i := by
      simp only [snapshotAt] at hm
      split_ifs at hm
      obtain ⟨t, -, rfl⟩ := map_eq_some_iff.mp hm
      rfl
    rw [hid, slotOfBlockId_pack poolId (by omega)]
    exact ⟨hi, hev, rfl⟩
  · cases hc

/-! ## What every operation keeps -/

section

variable {poolId : Nat} {s s' : History} {op : Op}

structure History.Later (s s' : History) : Prop where
  blockCount : s'.pool.blockCount = s.pool.blockCount
  epoch : ∀ i, s.epoch i ≤ s'.epoch i
  evictions : s.pool.evictionsTotal = min s.reclaimed maxU64 →
    s'.pool.evictionsTotal = min s'.reclaimed maxU64
  reclaimed : s.reclaimed ≤ s'.reclaimed

theorem le_bump (f : Nat → Nat) (i j : Nat) : f j ≤ History.bump f i j := by
  by_cases h : j = i
  · simp [h]
  · rw [bump_of_ne h]

theorem Change.later (hc : Change poolId s op s') : s.Later s' := by
  cases hc with
  | evict i g hv hone =>
    refine ⟨rfl, le_bump _ _, fun hold => ?_, Nat.le_succ _⟩
    simp only [hold]
    omega
  | release k hv hone => exact ⟨rfl, le_bump _ _, id, le_rfl⟩
  | _ => exact ⟨rfl, fun _ => le_rfl, id, le_rfl⟩

theorem step_later (hstep : History.step poolId s op = some s') : s.Later s' := by
  obtain ⟨hop, rfl⟩ := step_eq_some hstep
  obtain ⟨hn, he, hev, hr⟩ := (perform_change s hop).later
  exact ⟨hn, he, hev, hr⟩

theorem Change.evicted (hc : Change poolId s (.evict i g) s') (hj : s'.epoch j ≠ s.epoch j) :
    j = i ∧ s.pool.Valid ⟨i, poolId, g⟩ ∧ (s.pool.blocks i).refcount ≤ 1 ∧
      (s'.pool.blocks i).state = .free := by
  cases hc with
  | same => exact absurd rfl hj
  | evict _ _ hv hone =>
    refine ⟨?_, hv, hone, by simp [MemoryPool.set, BlockSlot.release]⟩
    by_contra hne
    exact hj (bump_of_ne hne)

end

/-! ## The evictor -/

inductive EvictChange (poolId : Nat) (e : Evictor) : EvictAct → Evictor → Prop
  | listed (hpc : e.pc = .snapshot) :
      EvictChange poolId e .snapshot
        { e with
          pc := .consult
          candidates := e.history.pool.snapshotPoolCandidates poolId
          seen := e.history }
  | exhausted (answer : Option Nat) (hpc : e.pc = .consult) :
      EvictChange poolId e (.consult answer) { e with pc := .retry }
  | noPolicy (hpc : e.pc = .consult) :
      EvictChange poolId e (.consult none) { e with pc := .done (.error .outOfMemory) }
  | chosen (v : Nat) (hpc : e.pc = .consult)
      (hstale : e.staleVictims < maxStaleVictims) (hv : v < e.candidates.length) :
      EvictChange poolId e (.consult (some v)) { e with pc := .reclaim v }
  | panic (v : Nat) (hpc : e.pc = .consult) :
      EvictChange poolId e (.consult (some v)) { e with pc := .done .panic }
  | outside (v : Nat) (hpc : e.pc = .reclaim v) :
      EvictChange poolId e .reclaim { e with pc := .done (.error .invalidHandle) }
  | took (v : Nat) (c : BlockMeta × Nat) (h : History) (hpc : e.pc = .reclaim v)
      (hc : c ∈ e.candidates)
      (hstep : History.step poolId e.history (.evict (slotOfBlockId c.1.blockId) c.2) = some h) :
      EvictChange poolId e .reclaim { e with history := h, pc := .retry }
  | stale (v : Nat) (c : BlockMeta × Nat) (h : History) (hpc : e.pc = .reclaim v)
      (hc : c ∈ e.candidates)
      (hstep : History.step poolId e.history (.evict (slotOfBlockId c.1.blockId) c.2) = some h) :
      EvictChange poolId e .reclaim
        { e with
          history := h
          pc := .consult
          candidates := e.candidates.eraseIdx v
          staleVictims := e.staleVictims + 1 }
  | got (now owner : Nat) (h : History) (k : ModelHandle) (hpc : e.pc = .retry)
      (hstep : History.step poolId e.history (.alloc now owner) = some h) :
      EvictChange poolId e (.retry now owner) { e with history := h, pc := .done (.handle k) }
  | failed (now owner : Nat) (h : History) (err : AllocError) (hpc : e.pc = .retry)
      (hstep : History.step poolId e.history (.alloc now owner) = some h)
      (herr : e.history.pool.alloc poolId now owner = .error err) :
      EvictChange poolId e (.retry now owner) { e with history := h, pc := .done (.error err) }
  | other (op : Op) (h : History)
      (hstep : History.step poolId e.history op = some h) :
      EvictChange poolId e (.other op) { e with history := h }

section

variable {poolId : Nat} {e e' : Evictor} {a : EvictAct}

theorem Evictor.perform_eq_some : e.perform poolId op = some e' ↔
      ∃ h, History.step poolId e.history op = some h ∧ { e with history := h } = e' :=
  map_eq_some_iff

theorem evictStep_change (hstep : evictStep poolId e a = some e') : EvictChange poolId e a e' := by
  cases a with
  | snapshot =>
    simp only [evictStep] at hstep
    split at hstep
    · rename_i hpc
      cases hstep
      exact .listed hpc
    · cases hstep
  | consult answer =>
    simp only [evictStep] at hstep
    split at hstep
    · rename_i hpc
      by_cases hend : e.candidates = [] ∨ maxStaleVictims ≤ e.staleVictims
      · rw [if_pos hend] at hstep
        cases hstep
        exact .exhausted answer hpc
      rw [if_neg hend] at hstep
      cases answer with
      | none =>
        cases hstep
        exact .noPolicy hpc
      | some v =>
        by_cases hv : v < e.candidates.length
        · simp only [if_pos hv] at hstep
          cases hstep
          exact .chosen v hpc (not_le.mp (not_or.mp hend).2) hv
        simp only [if_neg hv] at hstep
        cases hstep
        exact .panic v hpc
    · cases hstep
  | reclaim =>
    simp only [evictStep] at hstep
    split at hstep
    · rename_i v hpc
      split at hstep
      · cases hstep
      rename_i m g hget
      have hc := List.mem_of_getElem? hget
      split at hstep
      · cases hstep
        exact .outside v hpc
      obtain ⟨e₁, hop, rfl⟩ := map_eq_some_iff.mp hstep
      obtain ⟨h, hs, rfl⟩ := Evictor.perform_eq_some.mp hop
      split
      · exact .took v (m, g) h hpc hc hs
      · exact .stale v (m, g) h hpc hc hs
    · cases hstep
  | retry now owner =>
    simp only [evictStep] at hstep
    split at hstep
    · rename_i hpc
      obtain ⟨e₁, hop, rfl⟩ := map_eq_some_iff.mp hstep
      obtain ⟨h, hs, rfl⟩ := Evictor.perform_eq_some.mp hop
      cases halloc : e.history.pool.alloc poolId now owner with
      | ok r => exact .got now owner h r.2 hpc hs
      | error err => exact .failed now owner h err hpc hs halloc
    · cases hstep
  | other op =>
    obtain ⟨h, hs, rfl⟩ := Evictor.perform_eq_some.mp hstep
    exact .other op h hs

end

structure Evictor.Sound (poolId : Nat) (e : Evictor) : Prop where
  history : e.history.Sound poolId
  size : e.history.pool.blockCount ≤ maxBlocksPerPool
  evictions : e.history.pool.evictionsTotal = min e.history.reclaimed maxU64
  window : ∀ i, e.seen.epoch i ≤ e.history.epoch i
  candidates : ∀ c ∈ e.candidates, slotOfBlockId c.1.blockId < e.history.pool.blockCount ∧
      (e.seen.pool.blocks (slotOfBlockId c.1.blockId)).isEvictable = true ∧
      c.2 = e.seen.epoch (slotOfBlockId c.1.blockId) % 256
  victim : ∀ v, e.pc = .reclaim v → e.staleVictims < maxStaleVictims ∧ v < e.candidates.length

section

variable {poolId : Nat} {e e' : Evictor} {a : EvictAct}

section

variable (h : e.Sound poolId)
include h

theorem Evictor.Sound.perform (hstep : History.step poolId e.history op = some s) :
    ({ e with history := s } : Evictor).Sound poolId := by
  have hl := step_later hstep
  refine ⟨h.history.step hstep, hl.blockCount ▸ h.size, hl.evictions h.evictions,
    fun i => (h.window i).trans (hl.epoch i), fun c hc => ?_, h.victim⟩
  rw [show ({ e with history := s } : Evictor).history.pool.blockCount =
    e.history.pool.blockCount from hl.blockCount]
  exact h.candidates c hc

theorem Evictor.Sound.goto {pc : EvictPc}
    {l : List (BlockMeta × Nat)} {n : Nat} (hl : ∀ c ∈ l, c ∈ e.candidates)
    (hpc : ∀ v, pc = .reclaim v → n < maxStaleVictims ∧ v < l.length) :
    ({ e with pc := pc, candidates := l, staleVictims := n } : Evictor).Sound poolId :=
  ⟨h.history, h.size, h.evictions, h.window, fun c hc => h.candidates c (hl c hc), hpc⟩

theorem Evictor.Sound.listed : ({ e with
        pc := .consult
        candidates := e.history.pool.snapshotPoolCandidates poolId
        seen := e.history } : Evictor).Sound poolId := by
  refine ⟨h.history, h.size, h.evictions, fun _ => le_rfl, fun c hc => ?_, nofun⟩
  obtain ⟨hlt, hev, hgen⟩ := MemoryPool.mem_snapshot h.size hc
  exact ⟨hlt, hev, hgen.trans (h.history.blocks _ hlt).generation⟩

theorem Evictor.Sound.step (hstep : evictStep poolId e a = some e') : e'.Sound poolId := by
  cases evictStep_change hstep with
  | listed hpc => exact h.listed
  | exhausted answer hpc | noPolicy hpc | panic v hpc | outside v hpc =>
    exact h.goto (fun _ => id) nofun
  | chosen v hpc hstale hv =>
    refine h.goto (fun _ => id) fun w hw => ?_
    cases hw
    exact ⟨hstale, hv⟩
  | took v c s hpc hc hs | got now owner s k hpc hs | failed now owner s err hpc hs herr =>
    exact (h.perform hs).goto (fun _ => id) nofun
  | stale v c s hpc hc hs =>
    exact (h.perform hs).goto (fun _ hc => List.mem_of_mem_eraseIdx hc) nofun
  | other op s hs => exact h.perform hs

end

section

variable (hreach : Run (History.step poolId) (fun _ _ => True) (History.init base count) s)
include hreach

theorem Evictor.sound_start : (Evictor.start s).Sound poolId := by
  have hlater : s.pool.blockCount ≤ maxBlocksPerPool ∧
      s.pool.evictionsTotal = min s.reclaimed maxU64 := by
    refine Run.invariant (I := fun s => s.pool.blockCount ≤ maxBlocksPerPool ∧
      s.pool.evictionsTotal = min s.reclaimed maxU64) (fun s op s' h _ hstep => ?_)
      ⟨min_le_right _ _, rfl⟩ hreach
    have hl := step_later hstep
    exact ⟨hl.blockCount ▸ h.1, hl.evictions h.2⟩
  exact ⟨sound_run hreach, hlater.1, hlater.2, fun _ => le_rfl,
    fun c hc => (List.not_mem_nil hc).elim, nofun⟩

theorem Evictor.sound_run (hrun : Run (evictStep poolId) (fun _ _ => True) (Evictor.start s) e) :
    e.Sound poolId :=
  Run.invariant (fun _ _ _ h _ hstep => Evictor.Sound.step h hstep)
    (Evictor.sound_start hreach) hrun

end

theorem Evictor.reclaimed_le (hrun : Run (evictStep poolId) (fun _ _ => True) (Evictor.start s) e) :
    s.reclaimed ≤ e.history.reclaimed := by
  refine Run.invariant (I := fun e => s.reclaimed ≤ e.history.reclaimed)
    (fun e a e' h _ hstep => ?_) le_rfl hrun
  cases evictStep_change hstep with
  | took v c s' hpc hc hs | stale v c s' hpc hc hs | got now owner s' k hpc hs
  | failed now owner s' err hpc hs herr | other op s' hs => exact h.trans (step_later hs).reclaimed
  | _ => exact h

/-! ## What is taken back -/

/-- The block `i` has been taken back: it is the one that was listed, and nobody else
uses it. -/
structure Judged (e : Evictor) (i : Nat) : Prop where
  listed : (e.seen.pool.blocks i).isEvictable = true
  same : e.history.epoch i = e.seen.epoch i
  allocated : (e.history.pool.blocks i).state = .allocated
  refcount : (e.history.pool.blocks i).refcount = 1

theorem Evictor.Sound.judged (h : e.Sound poolId) (hc : c ∈ e.candidates)
    (hstep : History.step poolId e.history (.evict (slotOfBlockId c.1.blockId) c.2) = some s)
    (hi : s.epoch i ≠ e.history.epoch i)
    (hwindow : e.history.epoch i < e.seen.epoch i + 256) : Judged e i := by
  obtain ⟨hop, rfl⟩ := step_eq_some hstep
  obtain ⟨rfl, hv, hone, -⟩ := (perform_change e.history hop).evicted hi
  obtain ⟨hlt, hlisted, hgen⟩ := h.candidates c hc
  have hb := h.history.blocks _ hlt
  have hepoch := hb.generation.symm.trans (hv.generation.trans hgen)
  have hle := h.window (slotOfBlockId c.1.blockId)
  have hpos : (e.history.pool.blocks (slotOfBlockId c.1.blockId)).refcount ≠ 0 :=
    fun hz => hv.live (hb.none.mp hz)
  refine ⟨hlisted, by omega, ?_, le_antisymm hone (Nat.one_le_iff_ne_zero.mpr hpos)⟩
  cases hstate : (e.history.pool.blocks (slotOfBlockId c.1.blockId)).state with
  | free => exact absurd hstate hv.live
  | allocated => rfl
  | shared =>
    have := hb.many.mp hstate
    omega

def Evictor.left (e : Evictor) : Nat :=
  match e.pc with
  | .snapshot => 2 * (maxStaleVictims - e.staleVictims) + 3
  | .consult => 2 * (maxStaleVictims - e.staleVictims) + 2
  | .reclaim _ => 2 * (maxStaleVictims - e.staleVictims) + 1
  | .retry => 1
  | .done _ => 0

theorem Evictor.Sound.left (h : e.Sound poolId) (hstep : evictStep poolId e a = some e') :
    e'.left + (if a.own then 1 else 0) ≤ e.left := by
  cases evictStep_change hstep with
  | other op s hs => exact le_rfl
  | chosen v hpc hstale hv => simp [Evictor.left, hpc, EvictAct.own]
  | took v c s hpc hc hs | stale v c s hpc hc hs =>
    have := (h.victim v hpc).1
    simp only [Evictor.left, hpc, EvictAct.own, if_true]
    omega
  | _ => simp [Evictor.left, *, EvictAct.own]

theorem Evictor.Sound.countP_own (h : e.Sound poolId)
    (hexec : exec (evictStep poolId) e as = some e') :
    e'.left + as.countP EvictAct.own ≤ e.left := by
  induction as generalizing e with
  | nil =>
    cases hexec
    exact le_rfl
  | cons a as ih =>
    rw [exec] at hexec
    split at hexec
    · cases hexec
    rename_i e₁ hstep
    have hrest := ih (h.step hstep) hexec
    have hleft := h.left hstep
    rw [List.countP_cons]
    omega

theorem Evictor.Sound.enabled (h : e.Sound poolId) (hpc : ∀ r, e.pc ≠ .done r) :
    ∃ a : EvictAct, a.own = true ∧ (evictStep poolId e a).isSome = true := by
  cases hp : e.pc with
  | snapshot => exact ⟨.snapshot, rfl, by simp [evictStep, hp]⟩
  | consult =>
    refine ⟨.consult none, rfl, ?_⟩
    simp only [evictStep, hp]
    split <;> rfl
  | reclaim v =>
    refine ⟨.reclaim, rfl, ?_⟩
    have hv := (h.victim v hp).2
    simp only [evictStep, hp, List.getElem?_eq_getElem hv]
    split
    · rfl
    · simp [Evictor.perform, History.step, Op.goesTo]
  | retry =>
    exact ⟨.retry 0 0, rfl, by
      simp [evictStep, hp, Evictor.perform, History.step, Op.goesTo]⟩
  | done r => exact absurd hp (hpc r)

end

/-- Over every interleaving and for every answer of the policy, an evictor takes back
only a block that was listed, is the same allocation still and has no other
reference, if the block was recycled fewer than 256 times since; `evictions_total`
counts what was taken back until it saturates; the evictor reports that memory is
exhausted only without a policy or when no block is `Free` at the last attempt; and it
takes at most eleven steps, being able to go on until it is done. -/
theorem evictor_takes_judged (poolId base count : Nat) {s : History}
    (hreach : Run (History.step poolId) (fun _ _ => True) (History.init base count) s) {e : Evictor}
    (hrun : Run (evictStep poolId) (fun _ _ => True) (Evictor.start s) e) :
    (∀ e', evictStep poolId e .reclaim = some e' → ∀ i, e'.history.epoch i ≠ e.history.epoch i →
      e.history.epoch i < e.seen.epoch i + 256 → Judged e i) ∧
    e.history.pool.evictionsTotal =
      min (s.pool.evictionsTotal + (e.history.reclaimed - s.reclaimed)) maxU64 ∧
    (∀ a e', evictStep poolId e a = some e' → a.own = true → e'.pc = .done (.error .outOfMemory) →
      a = .consult none ∨
        ∀ i < e.history.pool.blockCount, (e.history.pool.blocks i).state ≠ .free) ∧
    (∀ as e', exec (evictStep poolId) (Evictor.start s) as = some e' →
      as.countP EvictAct.own ≤ 11) ∧
    ((∀ r, e.pc ≠ .done r) →
      ∃ a : EvictAct, a.own = true ∧ (evictStep poolId e a).isSome = true) := by
  have hstart := Evictor.sound_start hreach
  have h := Evictor.sound_run hreach hrun
  refine ⟨fun e' hstep i hi hwindow => ?_, ?_, fun a e' hstep hown hoom => ?_,
    fun as e' hexec => ?_, h.enabled⟩
  · cases evictStep_change hstep with
    | outside v hpc => exact absurd rfl hi
    | took v c s' hpc hc hs | stale v c s' hpc hc hs => exact h.judged hc hs hi hwindow
  · have hle : s.reclaimed ≤ e.history.reclaimed := Evictor.reclaimed_le hrun
    have hnow := h.evictions
    have hthen := hstart.evictions
    simp only [Evictor.start] at hthen
    omega
  · cases evictStep_change hstep with
    | noPolicy hpc => exact Or.inl rfl
    | failed now owner s' err hpc hs herr =>
      cases hoom
      exact Or.inr ((h.history.alloc_eq_error now owner).mp herr)
    | other op s' hs => cases hown
    | _ => cases hoom
  have := hstart.countP_own hexec
  have hleft : (Evictor.start s).left = 11 := rfl
  omega

section

variable {s : History}

theorem step_evict_single (poolId : Nat) (hone : s.pool.blockCount = 1)
    (hlive : (s.pool.blocks 0).state ≠ .free) (hrefs : (s.pool.blocks 0).refcount = 1) :
    ∃ s', History.step poolId s (.evict 0 (s.pool.blocks 0).generation) = some s' ∧
      s'.pool.blockCount = 1 ∧ (s'.pool.blocks 0).state = .free ∧ s'.epoch 0 ≠ s.epoch 0 ∧
      s'.reclaimed = s.reclaimed + 1 := by
  have hv : s.pool.Valid ⟨0, poolId, (s.pool.blocks 0).generation⟩ := ⟨by simp [hone], hlive, rfl⟩
  have htrue := MemoryPool.reclaim_eq_true.mpr ⟨hv, hrefs.le, rfl⟩
  refine ⟨_, if_pos rfl, ?_⟩
  simp only [perform, htrue]
  exact ⟨hone, by simp [MemoryPool.set, release], by simp, trivial⟩

theorem evicted_often (n : Nat) : ∃ s, Run (History.step 0) (fun _ _ => True) (History.init 0 1) s ∧
      s.pool.blockCount = 1 ∧ (s.pool.blocks 0).state = .free ∧ s.reclaimed = n := by
  induction n with
  | zero => exact ⟨_, .refl _, rfl, rfl, rfl⟩
  | succ n ih =>
    obtain ⟨s, hrun, hone, hfree, hn⟩ := ih
    obtain ⟨s₁, hstep₁, hone₁, hblock, -, -, hn₁, -⟩ :=
      step_alloc_single (sound_run hrun) hone hfree
    obtain ⟨s₂, hstep₂, hone₂, hfree₂, -, hn₂⟩ := step_evict_single 0 hone₁
      (by simp [hblock, take]) (by simp [hblock, take])
    exact ⟨s₂, .tail (.tail hrun trivial hstep₁) trivial hstep₂, hone₂, hfree₂,
      by rw [hn₂, hn₁, hn]⟩

theorem evict_single (hone : s.pool.blockCount = 1)
    (hlive : (s.pool.blocks 0).state ≠ .free) (hrefs : (s.pool.blocks 0).refcount = 1) :
    ∃ e e', Run (evictStep 0) (fun _ _ => True) (Evictor.start s) e ∧
      evictStep 0 e .reclaim = some e' ∧ e'.pc = .retry ∧ e'.history.pool.blockCount = 1 ∧
      (e'.history.pool.blocks 0).state = .free ∧ e'.history.epoch 0 ≠ e.history.epoch 0 ∧
      e'.history.reclaimed = s.reclaimed + 1 := by
  have hsnap : s.pool.snapshotPoolCandidates 0 =
      [(⟨packBlockId 0 0, .weight, 1, (s.pool.blocks 0).tracking⟩,
        (s.pool.blocks 0).generation)] := by
    simp [MemoryPool.snapshotPoolCandidates, MemoryPool.snapshotAt, poolType, hone,
      hlive, hrefs, isEvictable]
  obtain ⟨s', hstep, hone', hfree, hepoch, hn⟩ := step_evict_single 0 hone hlive hrefs
  have hv : s.pool.Valid ⟨0, 0, (s.pool.blocks 0).generation⟩ := ⟨by simp [hone], hlive, rfl⟩
  have htrue := MemoryPool.reclaim_eq_true.mpr ⟨hv, hrefs.le, rfl⟩
  have hslot : slotOfBlockId (packBlockId 0 0) = 0 := rfl
  have h₁ : evictStep 0 (Evictor.start s) .snapshot =
      some ⟨s, .consult, s.pool.snapshotPoolCandidates 0, 0, s⟩ := rfl
  have h₂ : evictStep 0 ⟨s, .consult, s.pool.snapshotPoolCandidates 0, 0, s⟩ (.consult (some 0)) =
      some ⟨s, .reclaim 0, s.pool.snapshotPoolCandidates 0, 0, s⟩ := by
    simp [evictStep, hsnap, maxStaleVictims]
  have h₃ : evictStep 0 ⟨s, .reclaim 0, s.pool.snapshotPoolCandidates 0, 0, s⟩
      .reclaim = some ⟨s', .retry, s.pool.snapshotPoolCandidates 0, 0, s⟩ := by
    simp [evictStep, hsnap, hslot, hone, Evictor.perform, hstep, htrue]
  exact ⟨_, _, .tail (.tail (.refl _) trivial h₁) trivial h₂, h₃, rfl, hone', hfree, hepoch, hn⟩

theorem filled_single : ∃ s, Run (History.step 0) (fun _ _ => True) (History.init 0 1) s ∧
    s.pool.blockCount = 1 ∧ (s.pool.blocks 0).state ≠ .free ∧ (s.pool.blocks 0).refcount = 1 :=
  ⟨_, .tail (.refl _) (a := .alloc 0 0) trivial rfl, by decide, by decide, by decide⟩
end

theorem evictor_takes_judged_once : ∃ (s : History) (e : Evictor),
    Run (evictStep 0) (fun _ _ => True) (Evictor.start s) e ∧
      e.history.reclaimed = s.reclaimed + 1 ∧
      e.history.pool.evictionsTotal = min (s.pool.evictionsTotal + 1) maxU64 := by
  obtain ⟨s, hrun, hone, hlive, hrefs⟩ := filled_single
  obtain ⟨e₁, e, he₁, hstep, -, -, -, -, hn⟩ := evict_single hone hlive hrefs
  have he : Run (evictStep 0) (fun _ _ => True) (Evictor.start s) e := .tail he₁ trivial hstep
  refine ⟨s, e, he, hn, ?_⟩
  rw [(evictor_takes_judged 0 0 1 hrun he).2.1, hn]
  congr 2
  omega

/-- A counter that has reached the largest `u64` does not count the next block. -/
theorem eviction_not_counted : ∃ (s : History) (e : Evictor),
    Run (History.step 0) (fun _ _ => True) (History.init 0 1) s ∧
      Run (evictStep 0) (fun _ _ => True) (Evictor.start s) e ∧
      e.history.reclaimed = s.reclaimed + 1 ∧
      e.history.pool.evictionsTotal = s.pool.evictionsTotal := by
  obtain ⟨s, hrun, hone, hfree, hmany⟩ := evicted_often maxU64
  obtain ⟨s₁, hstep, hone₁, hblock, -, -, hn₁, -⟩ := step_alloc_single (sound_run hrun) hone hfree
  have hrun₁ : Run (step 0) (fun _ _ => True) (init 0 1) s₁ := .tail hrun trivial hstep
  obtain ⟨e₁, e, he₁, hlast, -, -, -, -, hn⟩ := evict_single hone₁ (by simp [hblock, take])
    (by simp [hblock, take])
  have he : Run (evictStep 0) (fun _ _ => True) (Evictor.start s₁) e := .tail he₁ trivial hlast
  refine ⟨s₁, e, hrun₁, he, hn, ?_⟩
  have hthen : s₁.pool.evictionsTotal = min s₁.reclaimed maxU64 :=
    (Evictor.sound_start hrun₁).evictions
  rw [(Evictor.sound_run hrun₁ he).evictions, hthen, hn, hn₁, hmany]
  omega

/-! ## The retry -/

section

variable {poolId : Nat} {e e' : Evictor} {a : EvictAct}

def Undisturbed (_ : Evictor) : EvictAct → Prop
  | .other (.alloc _ _) => False
  | _ => True

/-- The evictor has a block, or finds one when it retries. -/
def Evictor.Served (e : Evictor) : Prop :=
  (∃ h, e.pc = .done (.handle h)) ∨
    e.pc = .retry ∧ ∃ i < e.history.pool.blockCount, (e.history.pool.blocks i).state = .free

theorem evictStep_retry (poolId : Nat) (hpc : e.pc = .retry) (now owner : Nat) :
    ∃ e', evictStep poolId e (.retry now owner) = some e' ∧
      e'.pc = .done (match e.history.pool.alloc poolId now owner with
        | .ok (_, h) => .handle h
        | .error err => .error err) := by
  simp only [evictStep, hpc, Evictor.perform, History.step, Op.goesTo, if_true, map_some]
  exact ⟨_, rfl, rfl⟩

theorem Evictor.Served.step (hserved : e.Served) (h : e.Sound poolId)
    (hok : Undisturbed e a) (hstep : evictStep poolId e a = some e') : e'.Served := by
  rcases hserved with ⟨k, hdone⟩ | ⟨hretry, i, hi, hfree⟩
  · cases evictStep_change hstep with
    | other op s hs => exact .inl ⟨k, hdone⟩
    | _ => simp_all
  cases evictStep_change hstep with
  | got now owner s k hpc hs => exact .inl ⟨k, rfl⟩
  | failed now owner s err hpc hs herr =>
    obtain ⟨r, hr⟩ := h.history.alloc_ok hi hfree now owner
    cases herr.symm.trans hr
  | other op s hs =>
    have hn := (step_later hs).blockCount
    obtain ⟨hgoes, rfl⟩ := step_eq_some hs
    refine .inr ⟨hretry, i, hn ▸ hi, ?_⟩
    obtain hsame | ⟨⟨now, owner, rfl⟩, -⟩ | ⟨-, hfree, -⟩ := (perform_change e.history hgoes).block i
    · exact hsame.mpr hfree
    · exact hok.elim
    · exact hfree
  | _ => simp_all

end

/-- The block that an evictor has taken back is not lost to it: as long as nobody else
allocates, its retry returns a block. -/
theorem eviction_not_wasted (poolId base count : Nat) {s : History}
    (hreach : Run (History.step poolId) (fun _ _ => True) (History.init base count) s)
    {e e₁ e₂ : Evictor} (hrun : Run (evictStep poolId) (fun _ _ => True) (Evictor.start s) e)
    (htook : evictStep poolId e .reclaim = some e₁) (hpc : e₁.pc = .retry) {i : Nat}
    (hi : e₁.history.epoch i ≠ e.history.epoch i)
    (hquiet : Run (evictStep poolId) Undisturbed e₁ e₂) :
    (∃ h, e₂.pc = .done (.handle h)) ∨ e₂.pc = .retry ∧ ∀ now owner, ∃ e₃ h,
      evictStep poolId e₂ (.retry now owner) = some e₃ ∧ e₃.pc = .done (.handle h) := by
  have h := Evictor.sound_run hreach hrun
  have hserved : e₁.Served := by
    cases evictStep_change htook with
    | took v c s' _ hc hs =>
      have hlt := (h.candidates c hc).1
      have hn := (step_later hs).blockCount
      obtain ⟨hop, rfl⟩ := step_eq_some hs
      exact .inr ⟨rfl, _, hn ▸ hlt, ((perform_change e.history hop).evicted hi).2.2.2⟩
    | _ => cases hpc
  obtain ⟨h₂, hdone | ⟨hretry, i, hi, hfree⟩⟩ :=
    Run.invariant (I := fun e => e.Sound poolId ∧ e.Served)
      (fun _ _ _ h hok hstep => ⟨h.1.step hstep, h.2.step h.1 hok hstep⟩)
      ⟨h.step htook, hserved⟩ hquiet
  · exact .inl hdone
  refine .inr ⟨hretry, fun now owner => ?_⟩
  obtain ⟨r, hr⟩ := h₂.history.alloc_ok hi hfree now owner
  obtain ⟨e₃, hstep, hdone⟩ := evictStep_retry poolId hretry now owner
  rw [hr] at hdone
  exact ⟨e₃, r.2, hstep, hdone⟩

theorem eviction_not_wasted_alone : ∃ e₁ e₃ h, Evictor.pc e₁ = .retry ∧
    evictStep 0 e₁ (.retry 0 0) = some e₃ ∧ e₃.pc = .done (.handle h) := by
  obtain ⟨s, hreach, hone, hlive, hrefs⟩ := filled_single
  obtain ⟨e, e₁, hrun, htook, hpc, -, -, hepoch, -⟩ := evict_single hone hlive hrefs
  rcases eviction_not_wasted 0 0 1 hreach hrun htook hpc hepoch (.refl _) with ⟨h, hdone⟩ | ⟨-, hnext⟩
  · cases hpc.symm.trans hdone
  obtain ⟨e₃, h, hstep, hdone⟩ := hnext 0 0
  exact ⟨e₁, e₃, h, hpc, hstep, hdone⟩

/-- Somebody else allocates the block between its eviction and the retry. -/
theorem eviction_wasted : ∃ (s : History) (e e₁ e₂ : Evictor),
    Run (History.step 0) (fun _ _ => True) (History.init 0 1) s ∧
      Run (evictStep 0) (fun _ _ => True) (Evictor.start s) e ∧
      evictStep 0 e .reclaim = some e₁ ∧ e₁.history.reclaimed = s.reclaimed + 1 ∧
      Run (evictStep 0) (fun _ _ => True) e₁ e₂ ∧ e₂.pc = .done (.error .outOfMemory) := by
  obtain ⟨s, hreach, hone, hlive, hrefs⟩ := filled_single
  obtain ⟨e, e₁, hrun, htook, hpc, hone₁, hfree, -, hn⟩ := evict_single hone hlive hrefs
  have hsound := (Evictor.sound_run hreach hrun).step htook
  obtain ⟨s₁, hstep, hone₂, hblock, -⟩ := step_alloc_single hsound.history hone₁ hfree
  have hother : evictStep 0 e₁ (.other (.alloc 0 0)) = some { e₁ with history := s₁ } := by
    simp [evictStep, Evictor.perform, hstep]
  have hfull : s₁.pool.alloc 0 0 0 = .error .outOfMemory := by
    refine ((hsound.history.step hstep).alloc_eq_error 0 0).mpr fun i hi => ?_
    obtain rfl : i = 0 := by omega
    simp [hblock, take]
  obtain ⟨e₂, hretry, hdone⟩ := evictStep_retry (e := { e₁ with history := s₁ }) 0 hpc 0 0
  rw [hfull] at hdone
  exact ⟨s, e, e₁, e₂, hreach, hrun, htook, hn,
    .tail (.tail (.refl _) trivial hother) trivial hretry, hdone⟩

end SlmOs.ModelMem
