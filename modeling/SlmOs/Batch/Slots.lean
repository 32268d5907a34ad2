import SlmOs.Batch.Submit

/-!
# Who holds a slot

A slot is free, on the pending list, claimed by a dispatcher or served, and from its
reservation on it belongs to one call.  This is kept by every step as long as a call
that claims the pending list, or takes itself for the only one on it, is on it.
-/

namespace SlmOs.Batch

open Function Foundation List Pc Sched Batch

variable {Val : Type}

def Pc.own : Pc → Option Nat
  | .decide slot _ => some slot
  | .release slot => some slot
  | .wait slot => some slot
  | .take slot _ => some slot
  | .flush slot => some slot
  | .claim slot _ => some slot
  | .scratch slot _ => some slot
  | .check slot _ _ _ _ => some slot
  | .copy slot _ _ _ _ => some slot
  | .engine slot _ _ _ => some slot
  | .fan slot _ _ _ => some slot
  | .signal slot _ _ _ => some slot
  | .fail slot _ _ _ => some slot
  | .finish slot _ => some slot
  | .het slot batch i _ => if slot ∈ batch.drop i then some slot else none
  | .hetStore slot batch i _ _ => if slot ∈ batch.drop i then some slot else none
  | _ => none

def Pc.serves : Pc → Nat → Prop
  | .scratch _ batch, idx => idx ∈ batch
  | .check _ batch _ _ _, idx => idx ∈ batch
  | .copy _ batch _ _ _, idx => idx ∈ batch
  | .engine _ batch _ _, idx => idx ∈ batch
  | .fan slot batch _ i, idx => idx ∈ batch.drop i ∨ idx = slot
  | .signal slot batch _ i, idx => idx ∈ batch.drop i ∨ idx = slot
  | .fail slot batch _ i, idx => idx ∈ batch.drop i ∨ idx = slot
  | .finish slot _, idx => idx = slot
  | .het _ batch i _, idx => idx ∈ batch.drop i
  | .hetStore _ batch i _ _, idx => idx ∈ batch.drop i
  | _, _ => False

def Pc.claimed : Pc → Option (Nat × List Nat)
  | .scratch slot batch => some (slot, batch)
  | .check slot batch _ _ _ => some (slot, batch)
  | .copy slot batch _ _ _ => some (slot, batch)
  | .engine slot batch _ _ => some (slot, batch)
  | .fan slot batch _ _ => some (slot, batch)
  | .signal slot batch _ _ => some (slot, batch)
  | .fail slot batch _ _ => some (slot, batch)
  | .het slot batch _ _ => some (slot, batch)
  | .hetStore slot batch _ _ _ => some (slot, batch)
  | _ => none

inductive Status where
  | free
  | queued (t : Nat)
  | claimed (t u : Nat)
  | served (t : Nat) (ok : Bool)
  deriving DecidableEq, Repr

namespace Status

def owner : Status → Option Nat
  | .free => none
  | .queued t => some t
  | .claimed t _ => some t
  | .served t _ => some t

def server : Status → Option Nat
  | .claimed _ u => some u
  | _ => none

def state : Status → SlotState
  | .free => .idle
  | .queued _ => .pending
  | .claimed _ _ => .dispatching
  | .served _ true => .doneOk
  | .served _ false => .doneErr

end Status

/-- The table of slots and the calls agree on what each slot is used for. -/
structure Held (s : Sched Val) (st : Nat → Status) : Prop where
  state : ∀ i < maxBatch, (s.slots i).state = (st i).state
  own : ∀ t i, (s.calls t).pc.own = some i ↔ i < maxBatch ∧ (st i).owner = some t
  serves : ∀ u i, (s.calls u).pc.serves i ↔ i < maxBatch ∧ (st i).server = some u
  pending : ∀ i, i ∈ s.pending ↔ i < maxBatch ∧ ∃ t, st i = .queued t
  nodup : s.pending.Nodup
  taken : ∀ t i ok, (s.calls t).pc = .take i ok → st i = .served t ok
  claimed : ∀ t slot batch, (s.calls t).pc.claimed = some (slot, batch) → batch.Nodup ∧ slot ∈ batch
  req : ∀ t i, (s.calls t).pc.own = some i → (s.slots i).req = (s.calls t).req

/-- The call is on the pending list when it acts on the length of that list. -/
def OwnPending (s : Sched Val) : Act Val → Prop
  | .go t env =>
    match (s.calls t).pc with
    | .decide slot cfgSize =>
      decideRole s.pending.length cfgSize ≠ .waiter → slot ∈ s.pending
    | .release slot => slot ∈ s.pending
    | .claim slot timeoutNs => s.flushDue env.now timeoutNs = true → slot ∈ s.pending
    | _ => True
  | _ => True

section

variable {s s' : Sched Val} {st : Nat → Status} {t : Nat}

@[simp] theorem Sched.goto_pc (s : Sched Val) (t u : Nat) (pc : Pc) :
    ((s.goto t pc).calls u).pc = if u = t then pc else (s.calls u).pc := by
  by_cases h : u = t <;> simp [goto, h]

@[simp] theorem Sched.goto_req (s : Sched Val) (t u : Nat) (pc : Pc) :
    ((s.goto t pc).calls u).req = (s.calls u).req := by
  by_cases h : u = t <;> simp [goto, h]

/-- What a step does: the call `t` moves to `pc`, and `st` becomes `st'`. -/
structure Moves (s s' : Sched Val) (st st' : Nat → Status) (t : Nat) (pc : Pc) : Prop where
  here : (s'.calls t).pc = pc
  there : ∀ u, u ≠ t → s'.calls u = s.calls u
  own : ∀ i, pc.own = some i ↔ i < maxBatch ∧ (st' i).owner = some t
  serves : ∀ i, pc.serves i ↔ i < maxBatch ∧ (st' i).server = some t
  others : ∀ i u, u ≠ t → ((st' i).owner = some u ↔ (st i).owner = some u) ∧
    ((st' i).server = some u ↔ (st i).server = some u)
  served : ∀ i u ok, u ≠ t → st i = .served u ok → st' i = st i
  state : ∀ i < maxBatch, (s'.slots i).state = (st' i).state
  pending : ∀ i, i ∈ s'.pending ↔ i < maxBatch ∧ ∃ u, st' i = .queued u
  nodup : s'.pending.Nodup
  taken : ∀ i ok, pc = .take i ok → st' i = .served t ok
  claimed : ∀ slot batch, pc.claimed = some (slot, batch) → batch.Nodup ∧ slot ∈ batch
  req : ∀ i, pc.own = some i → (s'.slots i).req = (s'.calls t).req
  otherReq : ∀ i u, u ≠ t → (st i).owner = some u → (s'.slots i).req = (s.slots i).req

theorem Held.moves {st' : Nat → Status} (h : Held s st)
    (hm : Moves s s' st st' t pc) : Held s' st' where
  state := hm.state
  own u i := by
    by_cases hu : u = t
    · rw [hu, hm.here, hm.own]
    · rw [hm.there u hu, h.own, (hm.others i u hu).1]
  serves u i := by
    by_cases hu : u = t
    · rw [hu, hm.here, hm.serves]
    · rw [hm.there u hu, h.serves, (hm.others i u hu).2]
  pending := hm.pending
  nodup := hm.nodup
  taken u i ok hu := by
    by_cases hut : u = t
    · subst hut
      exact hm.taken i ok (hm.here ▸ hu)
    rw [hm.there u hut] at hu
    have hserved := h.taken u i ok hu
    rw [hm.served i u ok hut hserved, hserved]
  claimed u slot batch hu := by
    by_cases hut : u = t
    · subst hut
      exact hm.claimed slot batch (hm.here ▸ hu)
    rw [hm.there u hut] at hu
    exact h.claimed u slot batch hu
  req u i hu := by
    by_cases hut : u = t
    · subst hut
      exact hm.req i (hm.here ▸ hu)
    rw [hm.there u hut] at hu ⊢
    rw [hm.otherReq i u hut ((h.own u i).mp hu).2]
    exact h.req u i hu

theorem Held.stay (h : Held s st) (pc : Pc) (hhere : (s'.calls t).pc = pc)
    (hthere : ∀ u, u ≠ t → s'.calls u = s.calls u)
    (hstate : ∀ i, (s'.slots i).state = (s.slots i).state)
    (hreq : ∀ i, (s'.slots i).req = (s.slots i).req) (hpending : s'.pending = s.pending)
    (hown : pc.own = (s.calls t).pc.own) (hserves : ∀ i, pc.serves i ↔ (s.calls t).pc.serves i)
    (htaken : ∀ i ok, pc = .take i ok → st i = .served t ok)
    (hclaimed : ∀ slot batch, pc.claimed = some (slot, batch) → batch.Nodup ∧ slot ∈ batch)
    (hsame : ∀ i, pc.own = some i → (s'.calls t).req = (s.calls t).req) : Held s' st :=
  h.moves
    { here := hhere
      there := hthere
      own := fun i => by rw [hown, h.own]
      serves := fun i => by rw [hserves, h.serves]
      others := fun _ _ _ => ⟨Iff.rfl, Iff.rfl⟩
      served := fun _ _ _ _ _ => rfl
      state := fun i hi => (hstate i).trans (h.state i hi)
      pending := hpending ▸ h.pending
      nodup := hpending ▸ h.nodup
      taken := htaken
      claimed := hclaimed
      req := fun i hi => by
        rw [hreq, hsame i hi]
        exact h.req t i (hown ▸ hi)
      otherReq := fun i _ _ _ => hreq i }

variable {i : Nat}

theorem Held.put (h : Held s st) (pc : Pc) (hi : i < maxBatch) (hhere : (s'.calls t).pc = pc)
    (hthere : ∀ u, u ≠ t → s'.calls u = s.calls u)
    (howner : ∀ u, u ≠ t → (x.owner = some u ↔ (st i).owner = some u))
    (hserver : ∀ u, u ≠ t → (x.server = some u ↔ (st i).server = some u))
    (hserved : ∀ u ok, u ≠ t → st i ≠ .served u ok)
    (hown : ∀ j, pc.own = some j ↔ if j = i then x.owner = some t else (s.calls t).pc.own = some j)
    (hserves : ∀ j, pc.serves j ↔ if j = i then x.server = some t else (s.calls t).pc.serves j)
    (hstate : (s'.slots i).state = x.state) (hslots : ∀ j, j ≠ i → s'.slots j = s.slots j)
    (hpending : ∀ j, j ∈ s'.pending ↔ if j = i then ∃ u, x = .queued u else j ∈ s.pending)
    (hnodup : s'.pending.Nodup) (htaken : ∀ j ok, pc = .take j ok → False)
    (hclaimed : ∀ slot batch, pc.claimed = some (slot, batch) → batch.Nodup ∧ slot ∈ batch)
    (hsame : (s'.calls t).req = (s.calls t).req)
    (hreq : pc.own = some i → (s'.slots i).req = (s.calls t).req)
    (hkept : ∀ u, u ≠ t → (st i).owner = some u → (s'.slots i).req = (s.slots i).req) :
    Held s' (update st i x) :=
  h.moves
    { here := hhere
      there := hthere
      own := fun j => by
        by_cases hj : j = i
        · simp [hown, hj, hi]
        · simp [hown, hj, h.own]
      serves := fun j => by
        by_cases hj : j = i
        · simp [hserves, hj, hi]
        · simp [hserves, hj, h.serves]
      others := fun j u hu => by
        by_cases hj : j = i
        · subst hj
          simpa using ⟨howner u hu, hserver u hu⟩
        · simp [hj]
      served := fun j u ok hu hst => by
        have hj : j ≠ i := by
          rintro rfl
          exact hserved u ok hu hst
        simp [hj]
      state := fun j hj => by
        by_cases hji : j = i
        · simp [hji, hstate]
        · simp [hji, hslots j hji, h.state j hj]
      pending := fun j => by
        by_cases hj : j = i
        · simp [hpending, hj, hi]
        · simp [hpending, hj, h.pending]
      nodup := hnodup
      taken := fun j ok hpc => (htaken j ok hpc).elim
      claimed := hclaimed
      req := fun j hj => by
        by_cases hji : j = i
        · subst hji
          rw [hsame]
          exact hreq hj
        rw [hslots j hji, hsame]
        have hold : (s.calls t).pc.own = some j := by simpa [hji] using (hown j).mp hj
        exact h.req t j hold
      otherReq := fun j u hu hst => by
        by_cases hji : j = i
        · subst hji
          exact hkept u hu hst
        · rw [hslots j hji] }

theorem Held.claimAll (h : Held s st) (hown : (s.calls t).pc.own = some slot)
    (hidle : ∀ i, ¬ (s.calls t).pc.serves i) (hslot : slot ∈ s.pending) :
    ∃ st', Held (s.claimAll.goto t (.scratch slot s.pending)) st' := by
  let st' : Nat → Status := fun i =>
    if i ∈ s.pending then .claimed (((st i).owner).getD 0) t else st i
  have hqueued : ∀ i, i ∈ s.pending → ∃ u, st i = .queued u := fun i hi =>
    ((h.pending i).mp hi).2
  have howner : ∀ i, (st' i).owner = (st i).owner := by
    intro i
    by_cases hi : i ∈ s.pending
    · obtain ⟨u, hu⟩ := hqueued i hi
      simp [st', hi, hu, Status.owner]
    · simp [st', hi]
  have hm : Moves s (s.claimAll.goto t (.scratch slot s.pending)) st st' t
      (.scratch slot s.pending) :=
    { here := by simp
      there := fun u hu => by simp [Sched.goto, Sched.claimAll, hu]
      own := fun i => by
        rw [howner, ← h.own, hown]
        rfl
      serves := fun i => by
        by_cases hi : i ∈ s.pending
        · simp [Pc.serves, st', hi, Status.server, ((h.pending i).mp hi).1]
        have hnot := hidle i
        rw [h.serves] at hnot
        simpa [Pc.serves, st', hi] using hnot
      others := fun i u hu => by
        refine ⟨by rw [howner], ?_⟩
        by_cases hi : i ∈ s.pending
        · obtain ⟨v, hv⟩ := hqueued i hi
          simp [st', hi, hv, Status.server, Ne.symm hu]
        · simp [st', hi]
      served := fun i u ok _ hst => by
        have hi : i ∉ s.pending := by
          intro hi
          obtain ⟨v, hv⟩ := hqueued i hi
          simp [hst] at hv
        simp [st', hi]
      state := fun i hi => by
        by_cases hp : i ∈ s.pending
        · simp [Sched.goto, Sched.claimAll, st', hp, Status.state]
        · simp [Sched.goto, Sched.claimAll, st', hp, h.state i hi]
      pending := fun i => by
        by_cases hi : i ∈ s.pending
        · simp [Sched.goto, Sched.claimAll, st', hi]
        have hnot := mt (h.pending i).mpr hi
        simpa [Sched.goto, Sched.claimAll, st', hi] using hnot
      nodup := by simp [Sched.goto, Sched.claimAll]
      taken := nofun
      claimed := fun slot' batch hpc => by
        cases hpc
        exact ⟨h.nodup, hslot⟩
      req := fun i hi => by
        have hkept := h.req t i (hown.trans hi)
        by_cases hp : i ∈ s.pending <;> simpa [Sched.goto, Sched.claimAll, hp] using hkept
      otherReq := fun i _ _ _ => by
        by_cases hp : i ∈ s.pending
        · simp [Sched.goto, Sched.claimAll, hp]
        · simp [Sched.goto, Sched.claimAll, hp] }
  exact ⟨st', h.moves hm⟩

section

variable (h : Held s st) (pc : Pc) (hcalls : s'.calls = (s.goto t pc).calls)
  (hstate : ∀ i, (s'.slots i).state = (s.slots i).state)
  (hreq : ∀ i, (s'.slots i).req = (s.slots i).req) (hpending : s'.pending = s.pending)
  (hown : pc.own = (s.calls t).pc.own) (hserves : ∀ i, pc.serves i ↔ (s.calls t).pc.serves i)
include h hcalls hstate hreq hpending hown hserves

theorem Held.goes
    (hclaimed : ∀ slot batch, pc.claimed = some (slot, batch) → batch.Nodup ∧ slot ∈ batch)
    (htaken : ∀ i ok, pc = .take i ok → st i = .served t ok) : Held s' st :=
  h.stay (t := t) pc (by simp [hcalls]) (fun u hu => by simp [hcalls, goto, hu])
    hstate hreq hpending hown hserves htaken hclaimed (fun _ _ => by simp [hcalls])

theorem Held.dispatches {batch : List Nat} (hbatch : (s.calls t).pc.claimed = some (slot, batch))
    (hpc : pc.claimed = some (slot, batch)) : Held s' st := by
  refine h.goes pc hcalls hstate hreq hpending hown hserves (fun slot' batch' hpc' => ?_)
    (fun i ok htake => ?_)
  · rw [hpc] at hpc'
    cases hpc'
    exact h.claimed t slot batch hbatch
  rw [htake] at hpc
  cases hpc

end

variable {batch : List Nat}

theorem Held.signals (h : Held s st) (pc : Pc) (ok : Bool)
    (hbatch : (s.calls t).pc.claimed = some (slot, batch)) (hpc : pc.claimed = some (slot, batch))
    (hcalls : s'.calls = (s.goto t pc).calls) (hserved : (s.calls t).pc.serves i)
    (hforeign : (s.calls t).pc.own ≠ some i)
    (hstate : (s'.slots i).state = (Status.served t ok).state)
    (hreq : (s'.slots i).req = (s.slots i).req) (hslots : ∀ j, j ≠ i → s'.slots j = s.slots j)
    (hpending : s'.pending = s.pending) (hown : pc.own = (s.calls t).pc.own)
    (hserves : ∀ j, pc.serves j ↔ j ≠ i ∧ (s.calls t).pc.serves j) : ∃ st', Held s' st' := by
  obtain ⟨hi, hserver⟩ := (h.serves t i).mp hserved
  obtain ⟨v, hv⟩ : ∃ v, st i = .claimed v t := by
    cases hst : st i with
    | claimed v u =>
      simp only [hst, Status.server, Option.some.injEq] at hserver
      exact ⟨v, by rw [hserver]⟩
    | _ => simp [hst, Status.server] at hserver
  have hvt : v ≠ t := by
    rintro rfl
    exact hforeign ((h.own v i).mpr ⟨hi, by simp [hv, Status.owner]⟩)
  have hqueued : i ∉ s.pending := by
    rw [h.pending]
    simp [hv]
  refine ⟨update st i (.served v ok), h.put (t := t) pc hi (by simp [hcalls])
    (fun u hu => by simp [hcalls, goto, hu]) ?_ ?_ ?_ ?_ ?_ ?_ hslots ?_ ?_ ?_ ?_ ?_ ?_ ?_⟩
  · intro u hu
    simp [hv, Status.owner]
  · intro u hu
    simp [hv, Status.server, Ne.symm hu]
  · intro u ok' hu
    simp [hv]
  · intro j
    by_cases hj : j = i
    · simp [hown, hj, hforeign, Status.owner, hvt]
    · simp [hown, hj]
  · intro j
    by_cases hj : j = i
    · simp [hserves, hj, Status.server]
    · simp [hserves, hj]
  · rw [hstate]
    cases ok <;> rfl
  · intro j
    by_cases hj : j = i
    · simp [hpending, hj, hqueued]
    · simp [hpending, hj]
  · exact hpending ▸ h.nodup
  · intro j ok' htake
    rw [htake] at hpc
    cases hpc
  · intro slot' batch' hpc'
    rw [hpc] at hpc'
    cases hpc'
    exact h.claimed t slot batch hbatch
  · simp [hcalls]
  · intro hi'
    exact absurd (hown ▸ hi') hforeign
  · exact fun _ _ _ => hreq

theorem Held.frees (h : Held s st) (pc : Pc) (hcalls : s'.calls = (s.goto t pc).calls)
    (hown : (s.calls t).pc.own = some i) (hstate : (s'.slots i).state = .idle)
    (hslots : ∀ j, j ≠ i → s'.slots j = s.slots j) (hpending : s'.pending = s.pending.erase i)
    (hnone : pc.own = none) (hserves : ∀ j, pc.serves j ↔ j ≠ i ∧ (s.calls t).pc.serves j)
    (hserver : ∀ u, (st i).server = some u → u = t)
    (hclaimed : ∀ slot batch, pc.claimed = some (slot, batch) → batch.Nodup ∧ slot ∈ batch) :
    ∃ st', Held s' st' := by
  obtain ⟨hi, howner⟩ := (h.own t i).mp hown
  have honly : ∀ u, (s.calls t).pc.own = some u → u = i := fun u hu =>
    Option.some.inj (hu.symm.trans hown)
  refine ⟨update st i .free, h.put (t := t) pc hi (by simp [hcalls])
    (fun u hu => by simp [hcalls, goto, hu]) ?_ ?_ ?_ ?_ ?_ ?_ hslots ?_ ?_ ?_ hclaimed
    ?_ ?_ ?_⟩
  · intro u hu
    rw [howner]
    simp [Status.owner, Ne.symm hu]
  · intro u hu
    simp only [Status.server, reduceCtorEq, false_iff]
    exact fun hsome => hu (hserver u hsome)
  · intro u ok hu hst
    rw [hst] at howner
    exact hu (Option.some.inj howner)
  · intro j
    by_cases hj : j = i
    · simp [hnone, hj, Status.owner]
    simp only [hnone, hj, if_false, reduceCtorEq, false_iff]
    exact fun hsome => hj (honly j hsome)
  · intro j
    by_cases hj : j = i
    · simp [hserves, hj, Status.server]
    · simp [hserves, hj]
  · rw [hstate]
    rfl
  · intro j
    rw [hpending, h.nodup.mem_erase_iff]
    by_cases hj : j = i <;> simp [hj]
  · rw [hpending]
    exact h.nodup.erase i
  · rintro j ok rfl
    cases hnone
  · simp [hcalls]
  · intro hsome
    rw [hnone] at hsome
    cases hsome
  intro u hu hsome
  rw [howner] at hsome
  exact absurd (Option.some.inj hsome).symm hu

/-! ## The steps -/

variable {j : Nat}

section

variable (s : Sched Val)

@[simp] theorem Sched.write_slots (ptr : Nat) (vs : List Val) :
    (s.write ptr vs).slots = s.slots := rfl

@[simp] theorem Sched.write_calls (ptr : Nat) (vs : List Val) :
    (s.write ptr vs).calls = s.calls := rfl

@[simp] theorem Sched.write_pending (ptr : Nat) (vs : List Val) :
    (s.write ptr vs).pending = s.pending := rfl

@[simp] theorem Sched.goto_slots (t : Nat) (pc : Pc) : (s.goto t pc).slots = s.slots := rfl

@[simp] theorem Sched.goto_pending (t : Nat) (pc : Pc) : (s.goto t pc).pending = s.pending := rfl

@[simp] theorem Sched.setResult_state (i v j : Nat) :
    ((s.setResult i v).slots j).state = (s.slots j).state := by
  by_cases h : j = i <;> simp [setResult, setSlot, h]

@[simp] theorem Sched.setResult_req (i v j : Nat) :
    ((s.setResult i v).slots j).req = (s.slots j).req := by
  by_cases h : j = i <;> simp [setResult, setSlot, h]

theorem Sched.setResult_of_ne (v : Nat) (h : j ≠ i) : (s.setResult i v).slots j = s.slots j := by
  simp [setResult, setSlot, h]

@[simp] theorem Sched.setState_self (i : Nat) (x : SlotState) :
    ((s.setState i x).slots i).state = x := by
  simp [setState, setSlot]

theorem Sched.setState_of_ne (x : SlotState) (h : j ≠ i) :
    (s.setState i x).slots j = s.slots j := by
  simp [setState, setSlot, h]

@[simp] theorem Sched.setState_req (i j : Nat) (x : SlotState) :
    ((s.setState i x).slots j).req = (s.slots j).req := by
  by_cases h : j = i <;> simp [setState, setSlot, h]

end

theorem runInference_frame (eng : Engine Val) (s : Sched Val) (r : Request)
    (failure : Option EngineError) :
    (s.runInference eng r failure).1.slots = s.slots ∧
      (s.runInference eng r failure).1.calls = s.calls ∧
      (s.runInference eng r failure).1.pending = s.pending := by
  cases failure with
  | some e => exact ⟨rfl, rfl, rfl⟩
  | none =>
    simp only [runInference]
    split <;> exact ⟨rfl, rfl, rfl⟩

theorem runInferenceBatched_frame (eng : Engine Val) (s : Sched Val) (batch : List Nat)
    (model : Nat) (failure : Option EngineError) :
    (s.runInferenceBatched eng batch model failure).1.slots = s.slots ∧
      (s.runInferenceBatched eng batch model failure).1.calls = s.calls ∧
      (s.runInferenceBatched eng batch model failure).1.pending = s.pending := by
  cases failure with
  | some e => exact ⟨rfl, rfl, rfl⟩
  | none =>
    simp only [runInferenceBatched]
    split <;> exact ⟨rfl, rfl, rfl⟩

theorem goto_calls_congr {s₁ s₂ : Sched Val} (h : s₁.calls = s₂.calls) (t : Nat) (pc : Pc) :
    (s₁.goto t pc).calls = (s₂.goto t pc).calls := by
  simp [goto, h]

theorem mem_drop_succ_iff (hn : batch.Nodup)
    (hi : batch[i]? = some idx) : j ∈ batch.drop (i + 1) ↔ j ≠ idx ∧ j ∈ batch.drop i := by
  have hdrop : batch.drop i = idx :: batch.drop (i + 1) := by
    obtain ⟨hlt, rfl⟩ := List.getElem?_eq_some_iff.mp hi
    exact List.drop_eq_getElem_cons hlt
  have hnot : idx ∉ batch.drop (i + 1) := by
    have := hn.sublist (List.drop_sublist i batch)
    rw [hdrop] at this
    exact (List.nodup_cons.mp this).1
  rw [hdrop, List.mem_cons]
  constructor
  · intro hj
    refine ⟨?_, .inr hj⟩
    rintro rfl
    exact hnot hj
  rintro ⟨hne, rfl | hj⟩
  · exact absurd rfl hne
  · exact hj

theorem drop_of_getElem?_none (hi : batch[i]? = none) : batch.drop i = [] :=
  drop_eq_nil_of_le (getElem?_eq_none_iff.mp hi)

theorem mem_drop_of_getElem? (hi : batch[i]? = some idx) : idx ∈ batch.drop i := by
  obtain ⟨hlt, rfl⟩ := List.getElem?_eq_some_iff.mp hi
  rw [List.drop_eq_getElem_cons hlt]
  exact List.mem_cons_self

theorem Held.erase_claimed (h : Held s st) (hserver : (st i).server = some u) :
    s.pending.erase i = s.pending := by
  refine erase_of_not_mem fun hi => ?_
  obtain ⟨-, v, hv⟩ := (h.pending i).mp hi
  simp [hv, Status.server] at hserver

variable (eng : Engine Val) (env : Env) {pc : Pc}

section

variable (h : Held s st)
include h

theorem Held.dispatchStep (hpc : (s.calls t).pc = pc)
    (hstep : dispatchStep eng s t env pc = some s') : ∃ st', Held s' st' := by
  -- a step that leaves the slots and the pending list alone
  have hkeep : ∀ {r : Sched Val} (pc') {slot batch}, r.slots = s.slots →
      r.calls = (s.goto t pc').calls → r.pending = s.pending → pc.claimed = some (slot, batch) →
      pc'.claimed = some (slot, batch) → pc'.own = pc.own → (∀ j, pc'.serves j ↔ pc.serves j) →
      ∃ st', Held r st' := fun pc' _ _ hslots hcalls hpending hold hnew hown hserves =>
    ⟨st, h.dispatches pc' hcalls (fun _ => by rw [hslots]) (fun _ => by rw [hslots]) hpending
      (hpc ▸ hown) (hpc ▸ hserves) (hpc ▸ hold) hnew⟩
  cases pc with
  | scratch slot batch =>
    cases hlock : s.scratchLock with
    | some u =>
      simp only [Batch.dispatchStep, hlock, Option.some.injEq] at hstep
      exact ⟨st, hstep ▸ h⟩
    | none =>
      simp only [dispatchStep, hlock] at hstep
      cases hstep
      exact hkeep _ rfl rfl rfl rfl rfl rfl fun _ => Iff.rfl
  | check slot batch model dim i =>
    cases hi : batch[i]? with
    | none =>
      simp only [dispatchStep, hi] at hstep
      cases hstep
      exact hkeep _ rfl rfl rfl rfl rfl rfl fun _ => Iff.rfl
    | some idx =>
      have hslot := (h.claimed t slot batch (hpc ▸ rfl)).2
      simp only [dispatchStep, hi] at hstep
      split at hstep
      · cases hstep
        refine ⟨st, h.dispatches (.het slot batch 0 _) rfl (fun _ => rfl) (fun _ => rfl) rfl
          ?_ (fun j => ?_) (hpc ▸ rfl) rfl⟩
        · simp [hpc, Pc.own, hslot]
        · simp [hpc, Pc.serves]
      cases hstep
      exact hkeep _ rfl rfl rfl rfl rfl rfl fun _ => Iff.rfl
  | copy slot batch model dim i =>
    simp only [dispatchStep] at hstep
    split at hstep <;> cases hstep <;> exact hkeep _ rfl rfl rfl rfl rfl rfl fun _ => Iff.rfl
  | engine slot batch model dim =>
    have hslot := (h.claimed t slot batch (hpc ▸ rfl)).2
    have hserves : ∀ j, j ∈ batch.drop 0 ∨ j = slot ↔ j ∈ batch := by
      intro j
      simp only [List.drop_zero, or_iff_left_iff_imp]
      rintro rfl
      exact hslot
    obtain ⟨hslots, hcalls, hpending⟩ := runInferenceBatched_frame eng s batch model env.failure
    simp only [dispatchStep] at hstep
    rcases hres : s.runInferenceBatched eng batch model env.failure with ⟨s₁, e | total⟩
    · simp only [hres, Option.some.injEq] at hstep hslots hcalls hpending
      subst hstep
      exact hkeep _ hslots (goto_calls_congr hcalls t _) hpending rfl rfl rfl hserves
    simp only [hres] at hstep hslots hcalls hpending
    split at hstep
    all_goals
      cases hstep
      exact hkeep _ hslots (goto_calls_congr hcalls t _) hpending rfl rfl rfl hserves
  | fan slot batch perOut i =>
    cases hi : batch[i]? with
    | none =>
      simp only [dispatchStep, hi] at hstep
      cases hstep
      refine ⟨st, h.goes _ rfl (fun _ => rfl) (fun _ => rfl) rfl (hpc ▸ rfl) (fun j => ?_)
        nofun nofun⟩
      simp [hpc, Pc.serves, drop_of_getElem?_none hi]
    | some idx =>
      simp only [dispatchStep, hi] at hstep
      cases hstep
      exact ⟨st, h.dispatches _ rfl (fun _ => by simp) (fun _ => by simp) rfl (hpc ▸ rfl)
        (fun _ => hpc ▸ Iff.rfl) (hpc ▸ rfl) rfl⟩
  | signal slot batch perOut i =>
    cases hi : batch[i]? with
    | none => simp [dispatchStep, hi] at hstep
    | some idx =>
      have hn := (h.claimed t slot batch (hpc ▸ rfl)).1
      simp only [dispatchStep, hi] at hstep
      split at hstep
      · rename_i hself
        cases hstep
        refine ⟨st, h.dispatches _ rfl (fun _ => rfl) (fun _ => rfl) rfl (hpc ▸ rfl)
          (fun j => ?_) (hpc ▸ rfl) rfl⟩
        simp only [hpc, Pc.serves, mem_drop_succ_iff hn hi]
        by_cases hj : j = idx
        · simp [hj, hself]
        · simp [hj]
      rename_i hother
      cases hstep
      exact h.signals (i := idx) _ true (hpc ▸ rfl) rfl rfl
        (by rw [hpc]; exact .inl (mem_drop_of_getElem? hi))
        (by simpa [hpc, Pc.own] using Ne.symm hother) (by simp [Status.state])
        (by simp) (fun j hj => by simp [Sched.setState_of_ne _ _ hj]) rfl (hpc ▸ rfl)
        (fun j => by
          simp only [hpc, Pc.serves, mem_drop_succ_iff hn hi]
          by_cases hj : j = slot
          · simp [hj, Ne.symm hother]
          · simp [hj])
  | fail slot batch e i =>
    cases hi : batch[i]? with
    | none =>
      simp only [dispatchStep, hi] at hstep
      cases hstep
      refine ⟨st, h.goes _ rfl (fun _ => rfl) (fun _ => rfl) rfl (hpc ▸ rfl) (fun j => ?_)
        nofun nofun⟩
      simp [hpc, Pc.serves, drop_of_getElem?_none hi]
    | some idx =>
      have hn := (h.claimed t slot batch (hpc ▸ rfl)).1
      simp only [dispatchStep, hi] at hstep
      split at hstep
      · rename_i hself
        cases hstep
        refine ⟨st, h.dispatches _ rfl (fun _ => by simp) (fun _ => by simp) rfl (hpc ▸ rfl)
          (fun j => ?_) (hpc ▸ rfl) rfl⟩
        simp only [hpc, Pc.serves, mem_drop_succ_iff hn hi]
        by_cases hj : j = idx
        · simp [hj, hself]
        · simp [hj]
      rename_i hother
      cases hstep
      exact h.signals (i := idx) _ false (hpc ▸ rfl) rfl rfl
        (by rw [hpc]; exact .inl (mem_drop_of_getElem? hi))
        (by simpa [hpc, Pc.own] using Ne.symm hother) (by simp [Status.state])
        (by simp) (fun j hj => by
          simp [Sched.setState_of_ne _ _ hj, Sched.setResult_of_ne _ _ hj])
        rfl (hpc ▸ rfl)
        (fun j => by
          simp only [hpc, Pc.serves, mem_drop_succ_iff hn hi]
          by_cases hj : j = slot
          · simp [hj, Ne.symm hother]
          · simp [hj])
  | finish slot e =>
    have hserver : (st slot).server = some t := ((h.serves t slot).mp (hpc ▸ rfl)).2
    simp only [dispatchStep] at hstep
    cases hstep
    refine h.frees (i := slot) _ rfl (hpc ▸ rfl) (by simp)
      (fun j hj => by simp [Sched.setState_of_ne _ _ hj])
      (h.erase_claimed hserver).symm rfl (fun j => ?_) ?_ nofun
    · simp [hpc, Pc.serves]
    intro u hu
    exact Option.some.inj (hu.symm.trans hserver)
  | unlock r =>
    simp only [dispatchStep] at hstep
    cases hstep
    exact ⟨st, h.goes _ rfl (fun _ => rfl) (fun _ => rfl) rfl (hpc ▸ rfl)
      (fun _ => hpc ▸ Iff.rfl) nofun nofun⟩
  | het slot batch i self =>
    cases hi : batch[i]? with
    | none =>
      simp only [dispatchStep, hi] at hstep
      cases hstep
      refine ⟨st, h.goes _ rfl (fun _ => rfl) (fun _ => rfl) rfl ?_ (fun j => ?_)
        nofun nofun⟩
      · simp [hpc, Pc.own, drop_of_getElem?_none hi]
      · simp [hpc, Pc.serves, drop_of_getElem?_none hi]
    | some idx =>
      obtain ⟨hslots, hcalls, hpending⟩ := runInference_frame eng s (s.slots idx).req env.failure
      simp only [dispatchStep, hi] at hstep
      cases hstep
      exact hkeep _ hslots (goto_calls_congr hcalls t _) hpending rfl rfl rfl fun _ => Iff.rfl
  | hetStore slot batch i self r =>
    cases hi : batch[i]? with
    | none => simp [dispatchStep, hi] at hstep
    | some idx =>
      have hn := (h.claimed t slot batch (hpc ▸ rfl)).1
      have hmem := mem_drop_of_getElem? hi
      have hserver : (st idx).server = some t := ((h.serves t idx).mp (hpc ▸ hmem)).2
      simp only [dispatchStep, hi] at hstep
      split at hstep
      · rename_i hself
        cases hstep
        subst hself
        refine h.frees (i := idx) (.het idx batch (i + 1) r) rfl ?_ (by simp) (fun j hj => by
            simp [Sched.setState_of_ne _ _ hj, Sched.setResult_of_ne _ _ hj])
          (h.erase_claimed hserver).symm ?_ (fun j => ?_) ?_ ?_
        · simp [hpc, Pc.own, hmem]
        · simp [Pc.own, mem_drop_succ_iff hn hi]
        · simp [hpc, Pc.serves, mem_drop_succ_iff hn hi]
        · intro u hu
          exact Option.some.inj (hu.symm.trans hserver)
        intro slot' batch' hc
        cases hc
        exact h.claimed t idx batch (hpc ▸ rfl)
      rename_i hother
      have hkeep : slot ∈ batch.drop (i + 1) ↔ slot ∈ batch.drop i := by
        simp [mem_drop_succ_iff hn hi, Ne.symm hother]
      cases hstep
      refine h.signals (i := idx) (.het slot batch (i + 1) self) r.isOk
        (hpc ▸ rfl) rfl rfl (by rw [hpc]; exact hmem) ?_ ?_ (by simp) (fun j hj => by
          simp [Sched.setState_of_ne _ _ hj, Sched.setResult_of_ne _ _ hj])
        rfl ?_ (fun j => ?_)
      · simp only [hpc, Pc.own]
        split
        · simpa using Ne.symm hother
        · simp
      · cases r <;> simp [Status.state, Except.isOk, Except.toBool]
      · simp [hpc, Pc.own, hkeep]
      · simp [hpc, Pc.serves, mem_drop_succ_iff hn hi]
  | _ => cases hstep

theorem Held.room (hi : i < maxBatch)
    (hidle : (s.slots i).state = .idle) : s.pending.length < maxBatch := by
  have hsub : s.pending ⊆ (List.range maxBatch).erase i := by
    intro j hj
    obtain ⟨hlt, u, hu⟩ := (h.pending j).mp hj
    rw [nodup_range.mem_erase_iff]
    refine ⟨?_, mem_range.mpr hlt⟩
    rintro rfl
    have hstate := h.state j hlt
    simp [hu, hidle, Status.state] at hstate
  have hle := (h.nodup.subperm hsub).length_le
  rw [length_erase_of_mem (mem_range.mpr hi), length_range] at hle
  omega

theorem Held.reserves (hpc : (s.calls t).pc.own = none) (hserves : ∀ j, ¬ (s.calls t).pc.serves j)
    (hi : i < maxBatch) (hidle : (s.slots i).state = .idle) :
    Held (Sched.goto { s.setSlot i ⟨.pending, (s.calls t).req, 0⟩ with
      pending := s.pending ++ [i], batchFirstTimeNs := firstTime } t (.decide i cfgSize))
      (update st i (.queued t)) := by
  have hfree : st i = .free := by
    have hstate := h.state i hi
    rw [hidle] at hstate
    cases hst : st i with
    | free => rfl
    | queued u | claimed u v => simp [hst, Status.state] at hstate
    | served u ok => cases ok <;> simp [hst, Status.state] at hstate
  have hout : i ∉ s.pending := by
    rw [h.pending]
    simp [hfree]
  refine h.put (t := t) (.decide i cfgSize) hi (by simp)
    (fun u hu => by simp [Sched.goto, Sched.setSlot, hu]) ?_ ?_ ?_ ?_ ?_ ?_ ?_ ?_ ?_ ?_ ?_ ?_ ?_ ?_
  · intro u hu
    simp [hfree, Status.owner, Ne.symm hu]
  · intro u _
    simp [hfree, Status.server]
  · intro u ok _
    simp [hfree]
  · intro j
    by_cases hj : j = i
    · simp [hj, Pc.own, Status.owner]
    rw [if_neg hj, hpc]
    simp [Pc.own, Ne.symm hj]
  · intro j
    by_cases hj : j = i
    · simp [hj, Pc.serves, Status.server]
    rw [if_neg hj]
    exact iff_of_false id (hserves j)
  · simp [Sched.setSlot, Status.state]
  · intro j hj
    simp [Sched.setSlot, hj]
  · intro j
    by_cases hj : j = i <;> simp [hj, Sched.goto]
  · simp only [Sched.goto]
    exact List.nodup_append.mpr ⟨h.nodup, List.nodup_singleton i, by
      intro a ha b hb
      rw [List.mem_singleton.mp hb]
      rintro rfl
      exact hout ha⟩
  · intro j ok hc
    cases hc
  · intro slot batch hc
    cases hc
  · simp [Sched.setSlot]
  · intro _
    simp [Sched.setSlot]
  intro u _ hu
  simp [hfree, Status.owner] at hu

theorem Held.submitStep (hok : OwnPending s (.go t env : Act Val)) (hpc : (s.calls t).pc = pc)
    (hstep : submitStep eng s t env pc = some s') : ∃ st', Held s' st' := by
  -- a step of `wait_for_slot` or `decide_role` that keeps the slot
  have hkeep : ∀ pc', pc'.own = pc.own → (∀ i, ¬ pc'.serves i) → (∀ i, ¬ pc.serves i) →
      pc'.claimed = none → (∀ i ok, pc' = .take i ok → st i = .served t ok) →
      Held (s.goto t pc') st := fun pc' hown hnew hold hclaimed htaken =>
    h.goes _ rfl (fun _ => rfl) (fun _ => rfl) rfl (hpc ▸ hown)
      (fun i => by simp [hpc, hnew, hold]) (fun _ _ hc => by simp [hclaimed] at hc) htaken
  cases pc with
  | reserve cfgSize =>
    simp only [submitStep, Sched.reserveSlot] at hstep
    cases hfind : (List.range maxBatch).find? fun i => (s.slots i).state == .idle with
    | none =>
      simp only [hfind] at hstep
      cases hstep
      exact ⟨st, hkeep _ rfl (fun _ => id) (fun _ => id) rfl (by simp)⟩
    | some i =>
      have hi : i < maxBatch := List.mem_range.mp (List.mem_of_find?_eq_some hfind)
      have hidle : (s.slots i).state = .idle := by simpa using List.find?_some hfind
      have hroom := Nat.not_le.mpr (h.room hi hidle)
      simp only [hfind, hroom, if_false] at hstep
      cases hstep
      exact ⟨_, h.reserves (hpc ▸ rfl) (fun _ => hpc ▸ id) hi hidle⟩
  | decide slot cfgSize =>
    simp only [OwnPending, hpc] at hok
    cases hrole : decideRole s.pending.length cfgSize with
    | solo | waiter =>
      simp only [submitStep, hrole] at hstep
      cases hstep
      exact ⟨st, hkeep _ rfl (fun _ => id) (fun _ => id) rfl (by simp)⟩
    | dispatcher =>
      simp only [submitStep, hrole] at hstep
      cases hstep
      exact h.claimAll (hpc ▸ rfl) (fun _ => hpc ▸ id) (hok (by simp [hrole]))
  | release slot =>
    simp only [OwnPending, hpc] at hok
    simp only [submitStep, Sched.releaseSlotAsSolo, hok, if_true] at hstep
    cases hstep
    obtain ⟨-, u, hu⟩ := (h.pending slot).mp hok
    refine h.frees (i := slot) .solo rfl (hpc ▸ rfl) (by simp)
      (fun j hj => by simp [Sched.setState_of_ne _ _ hj]) rfl rfl (fun j => ?_) ?_
      nofun
    · simp [hpc, Pc.serves]
    · simp [hu, Status.server]
  | solo =>
    obtain ⟨hslots, hcalls, hpending⟩ := runInference_frame eng s (s.calls t).req env.failure
    simp only [submitStep] at hstep
    cases hstep
    exact ⟨st, h.goes _ (goto_calls_congr hcalls t _) (fun _ => by simp [hslots])
      (fun _ => by simp [hslots]) hpending (hpc ▸ rfl) (fun _ => hpc ▸ Iff.rfl)
      nofun nofun⟩
  | wait slot =>
    have howner := (h.own t slot).mp (hpc ▸ rfl)
    have hstate := h.state slot howner.1
    have htaken : ∀ ok, (Status.served t ok).state = (s.slots slot).state →
        st slot = .served t ok := by
      intro ok hs
      rw [hstate] at hs
      cases hst : st slot with
      | served u ok' =>
        have hu : u = t := by simpa [hst, Status.owner] using howner.2
        cases ok <;> cases ok' <;> simp_all [Status.state]
      | _ => cases ok <;> simp [hst, Status.state] at hs
    simp only [submitStep] at hstep
    split at hstep
    · rename_i hdone
      cases hstep
      refine ⟨st, hkeep _ rfl (fun _ => id) (fun _ => id) rfl ?_⟩
      intro i ok hc
      cases hc
      exact htaken true hdone.symm
    · rename_i hdone
      cases hstep
      refine ⟨st, hkeep _ rfl (fun _ => id) (fun _ => id) rfl ?_⟩
      intro i ok hc
      cases hc
      exact htaken false hdone.symm
    cases hstep
    exact ⟨st, hkeep _ rfl (fun _ => id) (fun _ => id) rfl (by simp)⟩
  | take slot ok =>
    have hserved := h.taken t slot ok hpc
    have hout : slot ∉ s.pending := by
      rw [h.pending]
      simp [hserved]
    simp only [submitStep] at hstep
    cases hstep
    refine h.frees (i := slot) _ rfl (hpc ▸ rfl) (by simp)
      (fun j hj => by simp [Sched.setState_of_ne _ _ hj])
      (List.erase_of_not_mem hout).symm rfl (fun j => ?_) ?_ nofun
    · simp [hpc, Pc.serves]
    · simp [hserved, Status.server]
  | flush slot =>
    simp only [submitStep] at hstep
    split at hstep
    all_goals
      cases hstep
      exact ⟨st, hkeep _ rfl (fun _ => id) (fun _ => id) rfl (by simp)⟩
  | claim slot timeoutNs =>
    simp only [OwnPending, hpc] at hok
    simp only [submitStep] at hstep
    split at hstep
    · rename_i hdue
      cases hstep
      exact h.claimAll (hpc ▸ rfl) (fun _ => hpc ▸ id) (hok hdue)
    cases hstep
    exact ⟨st, hkeep _ rfl (fun _ => id) (fun _ => id) rfl (by simp)⟩
  | idle | returned r => cases hstep
  | _ => exact h.dispatchStep eng env hpc hstep

end

theorem entry_plain (r : Request) (cfg : Config) (deadlineNs now : Nat) :
    (r.entry cfg deadlineNs now).own = none ∧ (∀ i, ¬ (r.entry cfg deadlineNs now).serves i) ∧
      (r.entry cfg deadlineNs now).claimed = none ∧
      ∀ i ok, r.entry cfg deadlineNs now ≠ .take i ok := by
  unfold Request.entry
  split_ifs <;> simp [Pc.own, serves, claimed]

theorem Held.step {a : Act Val} (h : Held s st) (hok : OwnPending s a)
    (hstep : step eng s a = some s') : ∃ st', Held s' st' := by
  cases a with
  | go t env => exact h.submitStep eng env hok rfl hstep
  | submit t model inputPtr inputLen outputPtr outputLen cfg deadlineNs now =>
    simp only [Batch.step] at hstep
    split at hstep
    · rename_i hidle
      cases hstep
      let r : Request := ⟨model, inputPtr, inputLen, outputPtr, outputLen, s.tickets⟩
      obtain ⟨hown, hserves, hclaimed, htake⟩ := entry_plain r cfg deadlineNs now
      refine ⟨st, h.stay (t := t) (r.entry cfg deadlineNs now) (by simp [r])
        (fun u hu => by simp [hu]) (fun _ => rfl) (fun _ => rfl) rfl ?_ ?_ ?_ ?_ ?_⟩
      · rw [hown, hidle.1]
        rfl
      · intro i
        rw [hidle.1]
        exact iff_of_false (hserves i) id
      · intro i ok hc
        exact absurd hc (htake i ok)
      · intro slot batch hc
        simp [hclaimed] at hc
      intro i hc
      simp [hown] at hc
    · cases hstep
  | resume t =>
    simp only [Batch.step] at hstep
    split at hstep
    · rename_i r hpc
      cases hstep
      exact ⟨st, h.goes .idle rfl (fun _ => rfl) (fun _ => rfl) rfl (hpc ▸ rfl)
        (fun _ => hpc ▸ Iff.rfl) nofun nofun⟩
    · cases hstep
  | fill ptr vs =>
    simp only [Batch.step] at hstep
    split at hstep
    · cases hstep
      exact ⟨st, h.state, h.own, h.serves, h.pending, h.nodup, h.taken, h.claimed, h.req⟩
    · cases hstep

theorem held_new (mem : Nat → Nat → Val) : Held (Sched.new mem) fun _ => .free where
  state := by simp [Sched.new, Status.state]
  own := by simp [Sched.new, Pc.own, Status.owner]
  serves := by simp [Sched.new, serves, Status.server]
  pending := by simp [Sched.new]
  nodup := by simp [Sched.new]
  taken := by simp [Sched.new]
  claimed := by simp [Sched.new, claimed]
  req := by simp [Sched.new, Pc.own]

theorem held_run {mem : Nat → Nat → Val}
    (hrun : Run (Batch.step eng) OwnPending (Sched.new mem) s) : ∃ st, Held s st :=
  Run.invariant (I := fun s => ∃ st, Held s st) (fun _ _ _ hheld hok hstep => by
      obtain ⟨st, h⟩ := hheld
      exact h.step eng hok hstep)
    ⟨_, held_new mem⟩ hrun

theorem Held.owner_of_serves (h : Held s st) (hs : (s.calls t).pc.serves i) :
    ∃ u, (s.calls u).pc.own = some i ∧ (s.slots i).req = (s.calls u).req := by
  obtain ⟨hi, hserver⟩ := (h.serves t i).mp hs
  cases hst : st i with
  | claimed u v =>
    have hown := (h.own u i).mpr ⟨hi, by simp [hst, Status.owner]⟩
    exact ⟨u, hown, h.req u i hown⟩
  | _ => simp [hst, Status.server] at hserver

end

end SlmOs.Batch
