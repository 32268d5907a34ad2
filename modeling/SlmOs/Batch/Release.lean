import SlmOs.Batch.Slots

/-!
# Slots and buffers are given back

What follows from the slot table's invariant for the callers, and the race that breaks
it: between `decide_role` and `release_slot_as_solo` a call that is alone on the pending
list can be claimed by the next one.
-/

namespace SlmOs.Batch

open Foundation Batch Sched

variable {Val : Type} (eng : Engine Val) {s : Sched Val} {st : Nat → Status} {t : Nat}

def Pc.inFlight : Pc → Bool
  | .idle => false
  | .returned _ => false
  | _ => true

def Sched.touched (s : Sched Val) (t : Nat) : Option Request :=
  match (s.calls t).pc with
  | .copy _ batch _ _ i => (batch[i]?).map fun idx => (s.slots idx).req
  | .fan _ batch _ i => (batch[i]?).map fun idx => (s.slots idx).req
  | .het _ batch i _ => (batch[i]?).map fun idx => (s.slots idx).req
  | _ => none

theorem Pc.inFlight_of_own {pc : Pc} {i : Nat} (h : pc.own = some i) : pc.inFlight = true := by
  cases pc <;> first | rfl | cases h

theorem Sched.serves_of_touched (ht : s.touched t = some r) :
    ∃ i, (s.calls t).pc.serves i ∧ r = (s.slots i).req := by
  simp only [touched] at ht
  split at ht
  · rename_i hpc
    obtain ⟨idx, hidx, rfl⟩ := Option.map_eq_some_iff.mp ht
    exact ⟨idx, by rw [hpc]; exact List.mem_of_getElem? hidx, rfl⟩
  · rename_i hpc
    obtain ⟨idx, hidx, rfl⟩ := Option.map_eq_some_iff.mp ht
    exact ⟨idx, by rw [hpc]; exact .inl (mem_drop_of_getElem? hidx), rfl⟩
  · rename_i hpc
    obtain ⟨idx, hidx, rfl⟩ := Option.map_eq_some_iff.mp ht
    exact ⟨idx, by rw [hpc]; exact mem_drop_of_getElem? hidx, rfl⟩
  · cases ht

/-- As long as every call that acts on the length of the pending list is on it: a
dispatcher touches only the buffers of calls that have not returned, the list is made
of the pending slots, and without calls all slots are idle. -/
theorem slots_released {mem : Nat → Nat → Val} (hrun : Run (step eng) OwnPending (new mem) s) :
    (∀ t r, s.touched t = some r → ∃ u, (s.calls u).req = r ∧ (s.calls u).pc.inFlight = true) ∧
    s.pending.Nodup ∧
    (∀ i, i ∈ s.pending ↔ i < maxBatch ∧ (s.slots i).state = .pending) ∧
    ((∀ t, (s.calls t).pc.inFlight = false) →
      s.pending = [] ∧ ∀ i < maxBatch, (s.slots i).state = .idle) := by
  obtain ⟨st, h⟩ := held_run eng hrun
  refine ⟨fun t r ht => ?_, h.nodup, fun i => ?_, fun hquiet => ?_⟩
  · obtain ⟨i, hs, rfl⟩ := serves_of_touched ht
    obtain ⟨u, hown, hreq⟩ := h.owner_of_serves hs
    exact ⟨u, hreq.symm, Pc.inFlight_of_own hown⟩
  · rw [h.pending]
    refine and_congr_right fun hi => ?_
    rw [h.state i hi]
    cases st i with
    | served u ok => cases ok <;> simp [Status.state]
    | _ => simp [Status.state]
  have hnobody : ∀ i < maxBatch, (st i).owner = none := by
    intro i hi
    cases howner : (st i).owner with
    | none => rfl
    | some u =>
      have hown := Pc.inFlight_of_own ((h.own u i).mpr ⟨hi, howner⟩)
      rw [hquiet u] at hown
      cases hown
  constructor
  · refine List.eq_nil_iff_forall_not_mem.mpr fun i hi => ?_
    obtain ⟨hlt, u, hu⟩ := (h.pending i).mp hi
    simpa [hu, Status.owner] using hnobody i hlt
  intro i hi
  rw [h.state i hi]
  cases hst : st i with
  | free => rfl
  | _ => simpa [hst, Status.owner] using hnobody i hi

def adder : Engine Nat where
  outputDim _ := 1
  infer m x := [m + x.sum]
  length_infer _ _ := rfl

def pairs : Config := ⟨true, 2, 5000⟩

def calm : Env := ⟨1, 5000, none⟩

def blank : Sched Nat := new fun _ _ => 0

instance OwnPending.decidable (s : Sched Val) (a : Act Val) : Decidable (OwnPending s a) := by
  cases a with
  | go t env =>
    simp only [OwnPending]
    split <;> infer_instance
  | _ => exact .isTrue trivial

/-- Two calls reserve before either decides, and call 0 comes to the input of call 1. -/
def pairServed : List (Act Nat) :=
  [.submit 0 0 1 1 2 1 pairs 0 0, .submit 1 0 3 1 4 1 pairs 0 0, .go 0 calm, .go 1 calm,
    .go 0 calm, .go 0 calm, .go 0 calm, .go 0 calm, .go 0 calm, .go 0 calm]

theorem slots_released_pair : ∃ s, Run (step adder) OwnPending (new fun _ _ => 0) s ∧
      s.touched 0 = some (s.calls 1).req ∧
      ∃ u, (s.calls u).req = (s.calls 1).req ∧ (s.calls u).pc.inFlight = true := by
  have hrun := run_get (step adder) OwnPending pairServed blank (by decide) (by decide)
  have htouched : ((exec (step adder) blank pairServed).get (by decide)).touched 0 =
      some (((exec (step adder) blank pairServed).get (by decide)).calls 1).req := by
    decide
  exact ⟨_, hrun, htouched, (slots_released adder hrun).1 _ _ htouched⟩

/-! ## A lone call is claimed -/

/-- Call 0 finds itself alone, call 1 claims both, call 0 runs its request by itself and
returns; then call 1 comes to the input of call 0. -/
def loneClaimed : List (Act Nat) :=
  [.submit 0 0 1 1 2 1 pairs 0 0, .go 0 calm, .go 0 calm,
    .submit 1 0 3 1 4 1 pairs 0 0, .go 1 calm, .go 1 calm,
    .go 0 calm, .go 0 calm, .resume 0,
    .go 1 calm, .go 1 calm, .go 1 calm, .go 1 calm]

def restOfBatch : List (Act Nat) :=
  [.go 1 calm, .go 1 calm, .go 1 calm, .go 1 calm, .go 1 calm, .go 1 calm, .go 1 calm,
    .go 1 calm, .go 1 calm, .go 1 calm, .go 1 calm, .resume 1]

/-- The claimed slot of a call that has returned is read, and it is never given back. -/
theorem lone_slot_leaks :
    ∃ early late r, exec (step adder) (new fun _ _ => 0) loneClaimed = some early ∧
      exec (step adder) early restOfBatch = some late ∧
      early.touched 1 = some r ∧
      (∀ u, (early.calls u).req = r → (early.calls u).pc.inFlight = false) ∧
      (∀ t, (late.calls t).pc.inFlight = false) ∧ (late.slots 0).state = .doneOk := by
  refine ⟨_, _, _, rfl, rfl, rfl, ?_, ?_, rfl⟩
  · intro u hu
    rcases u with _ | _ | u
    · rfl
    · cases hu
    · rfl
  intro t
  rcases t with _ | _ | t <;> rfl

end SlmOs.Batch
