import SlmOs.Batch.Effects
import SlmOs.Batch.Release

/-!
# Whose result a call gets

Followed from the input of a call to what it returns: the rows that a dispatcher copies,
the slices that it fans out and the results it leaves in the slots belong to the calls
that own the slots.
-/

namespace SlmOs.Batch

open Function Foundation List Option Sched SlotState
open List.Subset (refl)

variable {Val : Type} (eng : Engine Val) {s s' : Sched Val} {st st' : Nat → Status}
  {t u v : Nat} {env : Env} {pc : Pc}

def Sched.fails (s : Sched Val) (r : Request) : Prop := ∃ l ∈ s.failed, r.ticket ∈ l

def Right (s : Sched Val) (u : Nat) : Result → Prop
  | .ok n => s.read (s.calls u).req.outputPtr n =
      eng.infer (s.calls u).req.modelIndex (s.calls u).input
  | .error _ => s.fails (s.calls u).req

theorem read_congr (h : s'.mem p = s.mem p) : s'.read p n = s.read p n := by
  simp [Sched.read, h]

theorem read_write (s : Sched Val) (vs : List Val) : (s.write p vs).read p vs.length = vs := by
  refine List.ext_getElem (by simp [Sched.read]) fun k hk hk' => ?_
  simp [Sched.read, Sched.write, hk']

theorem Right.congr (h : Right eng s u r) (hreq : (s'.calls u).req = (s.calls u).req)
    (hinput : (s'.calls u).input = (s.calls u).input)
    (hmem : s'.mem (s.calls u).req.outputPtr = s.mem (s.calls u).req.outputPtr)
    (hfailed : s.failed ⊆ s'.failed) : Right eng s' u r := by
  cases r with
  | ok n =>
    simp only [Right, hreq, hinput]
    rw [read_congr hmem]
    exact h
  | error e =>
    obtain ⟨l, hl, hmem⟩ := h
    exact ⟨l, hfailed hl, by rw [hreq]; exact hmem⟩

theorem right_runInference (failure : Option EngineError) (hreq : (s.calls v).req = r)
    (hinput : s.read r.inputPtr r.inputLen = (s.calls v).input) :
    Right eng (s.runInference eng r failure).1 v (s.runInference eng r failure).2 := by
  subst hreq
  cases failure with
  | some e => exact ⟨_, mem_cons_self, mem_singleton.mpr rfl⟩
  | none =>
    simp only [runInference]
    split
    · exact ⟨_, mem_cons_self, mem_singleton.mpr rfl⟩
    have hlen := eng.length_infer (s.calls v).req.modelIndex (s.calls v).input
    rw [hinput]
    simp only [Right]
    rw [← hlen]
    exact read_write s _

/-! ## Buffers -/

/-- The buffers of the calls under way are apart, and the inputs are as they were. -/
structure Buffers (s : Sched Val) : Prop where
  live : ∀ u, (s.calls u).pc ≠ .idle → (s.calls u).req ∈ s.live
  apart : ∀ u v, u ≠ v → (s.calls u).pc ≠ .idle → (s.calls v).pc ≠ .idle →
    (s.calls u).req.apart (s.calls v).req = true
  self : ∀ u, (s.calls u).pc ≠ .idle → (s.calls u).req.inputPtr ≠ (s.calls u).req.outputPtr
  input : ∀ u, (s.calls u).pc ≠ .idle →
    s.read (s.calls u).req.inputPtr (s.calls u).req.inputLen = (s.calls u).input

def Writing (s : Sched Val) (t v : Nat) : Prop :=
  (v = t ∧ (s.calls t).pc = .solo) ∨ ∃ i, (s.calls v).pc.own = some i ∧ (s.calls t).pc.serves i

theorem Pc.ne_idle_of_own (h : pc.own = some i) : pc ≠ .idle := by
  rintro rfl
  cases h

theorem Held.writer (h : Held s st) (hw : s.writes t = some r) :
    ∃ v, (s.calls v).req = r ∧ (s.calls v).pc ≠ .idle ∧ Writing s t v := by
  have hserved : ∀ i, (s.calls t).pc.serves i → r = (s.slots i).req →
      ∃ v, (s.calls v).req = r ∧ (s.calls v).pc ≠ .idle ∧ Writing s t v := by
    rintro i hs rfl
    obtain ⟨v, hown, hreq⟩ := h.owner_of_serves hs
    exact ⟨v, hreq.symm, Pc.ne_idle_of_own hown, .inr ⟨i, hown, hs⟩⟩
  simp only [writes] at hw
  split at hw
  · rename_i hpc
    cases hw
    exact ⟨t, rfl, by simp [hpc], .inl ⟨rfl, hpc⟩⟩
  · rename_i hpc
    obtain ⟨i, hi, rfl⟩ := map_eq_some_iff.mp hw
    exact hserved i (by rw [hpc]; exact .inl (mem_drop_of_getElem? hi)) rfl
  · rename_i hpc
    obtain ⟨i, hi, rfl⟩ := map_eq_some_iff.mp hw
    exact hserved i (by rw [hpc]; exact mem_drop_of_getElem? hi) rfl
  · cases hw

theorem Request.apart_iff (r q : Request) : r.apart q = true ↔
    r.outputPtr ≠ q.inputPtr ∧ r.outputPtr ≠ q.outputPtr ∧ r.inputPtr ≠ q.outputPtr := by
  simp [Request.apart, and_assoc]

theorem Buffers.output_kept (hb : Buffers s) (h : Held s st) (he : Effect s s' st t)
    (hu : (s.calls u).pc ≠ .idle) (hno : ¬ Writing s t u) :
    s'.mem (s.calls u).req.outputPtr = s.mem (s.calls u).req.outputPtr := by
  refine he.mem _ fun r hw => ?_
  obtain ⟨v, rfl, hv, hwriting⟩ := h.writer hw
  have hne : u ≠ v := by
    rintro rfl
    exact hno hwriting
  exact ((Request.apart_iff _ _).mp (hb.apart u v hne hu hv)).2.1

theorem Buffers.input_kept (hb : Buffers s) (h : Held s st) (he : Effect s s' st t)
    (hu : (s.calls u).pc ≠ .idle) :
    s'.mem (s.calls u).req.inputPtr = s.mem (s.calls u).req.inputPtr := by
  refine he.mem _ fun r hw => ?_
  obtain ⟨v, rfl, hv, -⟩ := h.writer hw
  by_cases hne : u = v
  · rw [← hne]
    exact hb.self u hu
  · exact ((Request.apart_iff _ _).mp (hb.apart u v hne hu hv)).2.2

theorem submitStep_ne_idle (hpc : (s.calls t).pc = pc)
    (hstep : submitStep eng s t env pc = some s') : (s.calls t).pc ≠ .idle := by
  rw [hpc]
  rintro rfl
  cases hstep

theorem Buffers.submitStep (hb : Buffers s) (h : Held s st) (he : Effect s s' st t)
    (ht : (s.calls t).pc ≠ .idle) : Buffers s' := by
  have hidle : ∀ u, (s'.calls u).pc ≠ .idle → (s.calls u).pc ≠ .idle := by
    intro u hu
    by_cases hut : u = t
    · rw [hut]
      exact ht
    · rwa [he.others u hut] at hu
  constructor
  · intro u hu
    rw [he.req_all u, he.live]
    exact hb.live u (hidle u hu)
  · intro u v huv hu hv
    rw [he.req_all u, he.req_all v]
    exact hb.apart u v huv (hidle u hu) (hidle v hv)
  · intro u hu
    rw [he.req_all u]
    exact hb.self u (hidle u hu)
  intro u hu
  rw [he.req_all u, he.input_all u, read_congr (hb.input_kept h he (hidle u hu))]
  exact hb.input u (hidle u hu)

theorem Buffers.step {a : Act Val} (hb : Buffers s) (h : Held s st)
    (hstep : step eng s a = some s') : Buffers s' := by
  cases a with
  | go t env =>
    exact hb.submitStep h (h.submitStep_effect eng rfl hstep) (submitStep_ne_idle eng rfl hstep)
  | submit t model inputPtr inputLen outputPtr outputLen cfg deadlineNs now =>
    simp only [Batch.step] at hstep
    split at hstep
    · rename_i hfree
      cases hstep
      obtain ⟨-, hself, hlive⟩ := hfree
      have hnew : ∀ v, (s.calls v).pc ≠ .idle →
          Request.apart ⟨model, inputPtr, inputLen, outputPtr, outputLen, s.tickets⟩
            (s.calls v).req = true := by
        intro v hv
        exact List.all_eq_true.mp hlive _ (hb.live v hv)
      constructor
      · intro u hu
        by_cases hut : u = t
        · simp [hut]
        simp only [update_of_ne hut] at hu ⊢
        exact List.mem_cons_of_mem _ (hb.live u hu)
      · intro u v huv hu hv
        by_cases hut : u = t
        · have hvt : v ≠ t := fun hvt => huv (hut.trans hvt.symm)
          simp only [update_of_ne hvt] at hv ⊢
          subst hut
          simpa using hnew v hv
        simp only [update_of_ne hut] at hu ⊢
        by_cases hvt : v = t
        · subst hvt
          have happart := (Request.apart_iff _ _).mp (hnew u hu)
          simp only [update_self]
          exact (Request.apart_iff _ _).mpr ⟨happart.2.2.symm, happart.2.1.symm, happart.1.symm⟩
        simp only [update_of_ne hvt] at hv ⊢
        exact hb.apart u v huv hu hv
      · intro u hu
        by_cases hut : u = t
        · simpa [hut] using hself
        simp only [update_of_ne hut] at hu ⊢
        exact hb.self u hu
      intro u hu
      by_cases hut : u = t
      · subst hut
        simp only [update_self]
        rfl
      simp only [update_of_ne hut] at hu ⊢
      exact hb.input u hu
    · cases hstep
  | resume t =>
    simp only [Batch.step] at hstep
    split at hstep
    · rename_i r hpc
      cases hstep
      have hne : ∀ u, ((s.goto t .idle).calls u).pc ≠ .idle →
          u ≠ t ∧ (s.goto t .idle).calls u = s.calls u := by
        intro u hu
        have hut : u ≠ t := by
          rintro rfl
          simp at hu
        exact ⟨hut, by simp [Sched.goto, hut]⟩
      constructor
      · intro u hu
        obtain ⟨hut, hcall⟩ := hne u hu
        simp only [hcall] at hu ⊢
        refine (List.mem_erase_of_ne ?_).mpr (hb.live u hu)
        intro heq
        have happart := hb.apart u t hut hu (by simp [hpc])
        exact ((Request.apart_iff _ _).mp happart).2.1 (by rw [heq])
      · intro u v huv hu hv
        obtain ⟨-, hcall⟩ := hne u hu
        obtain ⟨-, hcall'⟩ := hne v hv
        simp only [hcall, hcall'] at hu hv ⊢
        exact hb.apart u v huv hu hv
      · intro u hu
        obtain ⟨-, hcall⟩ := hne u hu
        simp only [hcall] at hu ⊢
        exact hb.self u hu
      intro u hu
      obtain ⟨-, hcall⟩ := hne u hu
      simp only [hcall] at hu ⊢
      exact hb.input u hu
    · cases hstep
  | fill ptr vs =>
    simp only [Batch.step] at hstep
    split at hstep
    · rename_i hfree
      cases hstep
      refine ⟨hb.live, hb.apart, hb.self, fun u hu => ?_⟩
      have hptr := List.all_eq_true.mp hfree _ (hb.live u hu)
      simp only [Bool.and_eq_true, bne_iff_ne] at hptr
      exact (read_congr (write_mem_of_ne s vs hptr.1)).trans (hb.input u hu)
    · cases hstep

/-! ## What each call knows -/

theorem mem_drop_of_getElem?_of_le {batch : List Nat} {i j k : Nat}
    (hi : batch[j]? = some i) (hk : k ≤ j) : i ∈ batch.drop k := by
  refine mem_of_getElem? (i := j - k) ?_
  rw [getElem?_drop, Nat.add_sub_cancel' hk]
  exact hi

def Lands (s : Sched Val) (i : Nat) (r : Result) : Prop :=
  ∀ v, (s.calls v).pc.own = some i → Right eng s v r

def Uniform (s : Sched Val) (model dim : Nat) (l : List Nat) : Prop :=
  ∀ i ∈ l, (s.slots i).req.modelIndex = model ∧ (s.slots i).req.inputLen = dim

def Row (s : Sched Val) (i j : Nat) : Prop :=
  ∀ v, (s.calls v).pc.own = some i → s.scratchIn j = (s.calls v).input

def Slice (s : Sched Val) (perOut i j : Nat) : Prop :=
  ∀ v, (s.calls v).pc.own = some i → (s.scratchOut.drop (j * perOut)).take perOut =
        eng.infer (s.calls v).req.modelIndex (s.calls v).input ∧
      perOut = eng.outputDim (s.calls v).req.modelIndex ∧
      perOut ≤ (s.calls v).req.outputLen

def Fact (s : Sched Val) (u : Nat) : Pc → Prop
  | .check _ batch model dim k => Uniform s model dim (batch.take k)
  | .copy _ batch model dim k =>
    Uniform s model dim batch ∧ ∀ j < k, ∀ i, batch[j]? = some i → Row s i j
  | .engine _ batch model dim =>
    Uniform s model dim batch ∧ ∀ j i, batch[j]? = some i → Row s i j
  | .fan slot batch perOut k =>
    (∀ j ≥ k, ∀ i, batch[j]? = some i → Slice eng s perOut i j) ∧
      (slot ∈ batch.take k → Right eng s u (.ok (s.slots slot).resultValue))
  | .signal slot batch perOut k =>
    (∀ j > k, ∀ i, batch[j]? = some i → Slice eng s perOut i j) ∧
      (slot ∈ batch.take k → Right eng s u (.ok (s.slots slot).resultValue)) ∧
      ∀ i, batch[k]? = some i → Lands eng s i (.ok (s.slots i).resultValue)
  | .fail _ batch e k =>
    Right eng s u (.error e) ∧ ∀ i ∈ batch.drop k, Lands eng s i (.error e)
  | .finish slot none => Right eng s u (.ok (s.slots slot).resultValue)
  | .finish _ (some e) => Right eng s u (.error e)
  | .unlock r => Right eng s u r
  | .het slot batch k self => slot ∈ batch.take k → Right eng s u self
  | .hetStore slot batch k self r =>
    (slot ∈ batch.take k → Right eng s u self) ∧ ∀ i, batch[k]? = some i → Lands eng s i r
  | .returned r => Right eng s u r
  | _ => True

structure Done (s : Sched Val) : Prop where
  ok : ∀ i, (s.slots i).state = .doneOk → Lands eng s i (.ok (s.slots i).resultValue)
  error : ∀ i, (s.slots i).state = .doneErr →
    Lands eng s i (.error (decodeEngineError (s.slots i).resultValue))

def Locked (s : Sched Val) : Prop := ∀ u, (s.calls u).pc.locked = true → s.scratchLock = some u

structure Keeps (s s' : Sched Val) (u : Nat) : Prop where
  call : s'.calls u = s.calls u
  slots : ∀ i, (s.calls u).pc.serves i → s'.slots i = s.slots i
  req : ∀ v i, (s'.calls v).pc.own = some i → (s'.calls v).req = (s.calls v).req
  input : ∀ v i, (s'.calls v).pc.own = some i → (s'.calls v).input = (s.calls v).input
  owner : ∀ v i, (s.calls u).pc.serves i → (s'.calls v).pc.own = some i →
    (s.calls v).pc.own = some i
  right : ∀ v i r, (s.calls u).pc.serves i → (s.calls v).pc.own = some i →
    Right eng s v r → Right eng s' v r
  self : ∀ r, (s.calls u).pc ≠ .idle → (∀ i, (s.calls u).pc.own = some i →
    (s.calls u).pc.serves i) → Right eng s u r → Right eng s' u r
  scratch : (s.calls u).pc.locked = true → s'.scratchIn = s.scratchIn ∧ s'.scratchOut = s.scratchOut

section

variable {eng} (hk : Keeps eng s s' u)

include hk

theorem Keeps.lands (i : Nat) (r : Result) (hs : (s.calls u).pc.serves i)
    (h : Lands eng s i r) : Lands eng s' i r := by
  intro v hv
  have hown := hk.owner v i hs hv
  exact hk.right v i r hs hown (h v hown)

theorem Keeps.uniform (model dim : Nat) (l : List Nat) (hs : ∀ i ∈ l, (s.calls u).pc.serves i)
    (h : Uniform s model dim l) : Uniform s' model dim l := by
  intro i hi
  rw [hk.slots i (hs i hi)]
  exact h i hi

theorem Keeps.row (i j : Nat) (hs : (s.calls u).pc.serves i)
    (hlocked : (s.calls u).pc.locked = true) (h : Row s i j) : Row s' i j := by
  intro v hv
  rw [(hk.scratch hlocked).1, hk.input v i hv]
  exact h v (hk.owner v i hs hv)

theorem Keeps.slice (perOut i j : Nat) (hs : (s.calls u).pc.serves i)
    (hlocked : (s.calls u).pc.locked = true) (h : Slice eng s perOut i j) :
    Slice eng s' perOut i j := by
  intro v hv
  rw [(hk.scratch hlocked).2, hk.input v i hv, hk.req v i hv]
  exact h v (hk.owner v i hs hv)

theorem Fact.kept (hpc : (s.calls u).pc = pc) (h : Fact eng s u pc) : Fact eng s' u pc := by
  have hself := hk.self
  have hslots := hk.slots
  have hlands := hk.lands
  have hslice := hk.slice
  have hrow := hk.row
  have huni := hk.uniform
  rw [hpc] at hself hslots hlands hslice hrow huni
  cases pc with
  | check slot batch model dim k =>
    exact huni model dim _ (fun i hi => List.mem_of_mem_take hi) h
  | copy slot batch model dim k =>
    refine ⟨huni model dim _ (fun i hi => hi) h.1, fun j hj i hi => ?_⟩
    exact hrow i j (List.mem_of_getElem? hi) rfl (h.2 j hj i hi)
  | engine slot batch model dim =>
    refine ⟨huni model dim _ (fun i hi => hi) h.1, fun j i hi => ?_⟩
    exact hrow i j (List.mem_of_getElem? hi) rfl (h.2 j i hi)
  | fan slot batch perOut k =>
    refine ⟨fun j hj i hi => ?_, fun hslot => ?_⟩
    · exact hslice perOut i j (.inl (mem_drop_of_getElem?_of_le hi hj)) rfl (h.1 j hj i hi)
    rw [hslots slot (.inr rfl)]
    exact hself _ (by simp) (fun i hi => by cases hi; exact .inr rfl) (h.2 hslot)
  | signal slot batch perOut k =>
    refine ⟨fun j hj i hi => ?_, fun hslot => ?_, fun i hi => ?_⟩
    · exact hslice perOut i j (.inl (mem_drop_of_getElem?_of_le hi hj.le)) rfl (h.1 j hj i hi)
    · rw [hslots slot (.inr rfl)]
      exact hself _ (by simp) (fun i hi => by cases hi; exact .inr rfl) (h.2.1 hslot)
    have hs : (Pc.signal slot batch perOut k).serves i := .inl (mem_drop_of_getElem? hi)
    rw [hslots i hs]
    exact hlands i _ hs (h.2.2 i hi)
  | fail slot batch e k =>
    refine ⟨?_, fun i hi => hlands i _ (.inl hi) (h.2 i hi)⟩
    exact hself _ (by simp) (fun i hi => by cases hi; exact .inr rfl) h.1
  | finish slot e =>
    cases e with
    | none =>
      simp only [Fact]
      rw [hslots slot rfl]
      exact hself _ (by simp) (fun i hi => by cases hi; rfl) h
    | some e => exact hself (.error e) (by simp) (fun i hi => by cases hi; rfl) h
  | unlock r | returned r => exact hself r (by simp) nofun h
  | het slot batch k self =>
    intro hslot
    refine hself _ (by simp) (fun i hi => ?_) (h hslot)
    simp only [Pc.own] at hi
    split at hi <;> cases hi
    assumption
  | hetStore slot batch k self r =>
    refine ⟨fun hslot => ?_, fun i hi => ?_⟩
    · refine hself _ (by simp) (fun i hi => ?_) (h.1 hslot)
      simp only [Pc.own] at hi
      split at hi <;> cases hi
      assumption
    · exact hlands i _ (mem_drop_of_getElem? hi) (h.2 i hi)
  | _ => trivial

end

/-! ## Steps of the others -/

variable {i : Nat}

theorem Held.owner_unique (h : Held s st) (hu : (s.calls u).pc.own = some i)
    (hv : (s.calls v).pc.own = some i) : u = v := by
  have hu' := ((h.own u i).mp hu).2
  have hv' := ((h.own v i).mp hv).2
  exact some.inj (hu'.symm.trans hv')

theorem Held.server_unique (h : Held s st) (hu : (s.calls u).pc.serves i)
    (hv : (s.calls v).pc.serves i) : u = v := by
  have hu' := ((h.serves u i).mp hu).2
  have hv' := ((h.serves v i).mp hv).2
  exact some.inj (hu'.symm.trans hv')

theorem Held.owner_kept (h' : Held s' st')
    (he : Effect s s' st t) (hw : (s.calls w).pc.own = some i)
    (hv : (s'.calls v).pc.own = some i) : (s.calls v).pc.own = some i := by
  by_cases hvt : v = t
  · by_cases hwt : w = t
    · rw [hvt, ← hwt]
      exact hw
    · have hw' : (s'.calls w).pc.own = some i := by rwa [he.others w hwt]
      exact absurd (h'.owner_unique hw' hv) (by rw [hvt]; exact hwt)
  · rwa [he.others v hvt] at hv

theorem Right.effect (hb : Buffers s) (h : Held s st) (he : Effect s s' st t)
    (hu : (s.calls u).pc ≠ .idle) (hno : ¬ Writing s t u) (hr : Right eng s u r) :
    Right eng s' u r :=
  hr.congr eng (he.req_all u) (he.input_all u) (hb.output_kept h he hu hno) he.failed

theorem Keeps.of_effect (hb : Buffers s) (hlock : Locked s) (h : Held s st)
    (h' : Held s' st') (he : Effect s s' st t) (hut : u ≠ t) : Keeps eng s s' u where
  call := he.others u hut
  slots i hs := by
    refine he.slots i fun hy => ?_
    obtain ⟨-, hserver⟩ := (h.serves u i).mp hs
    cases hy with
    | claimed v hst =>
      rw [hst] at hserver
      exact hut (some.inj hserver).symm
    | _ => simp_all [Status.server]
  req v i _ := he.req_all v
  input v i _ := he.input_all v
  owner v i hs hv := by
    obtain ⟨w, hw, -⟩ := h.owner_of_serves hs
    exact h'.owner_kept he hw hv
  right v i r hs hv hr := by
    refine hr.effect eng hb h he (Pc.ne_idle_of_own hv) ?_
    rintro (⟨rfl, hsolo⟩ | ⟨j, hj, hserves⟩)
    · simp [hsolo, Pc.own] at hv
    cases hv.symm.trans hj
    exact hut (h.server_unique hs hserves)
  self r hidle hself hr := by
    refine hr.effect eng hb h he hidle ?_
    rintro (⟨rfl, -⟩ | ⟨j, hj, hserves⟩)
    · exact hut rfl
    · exact hut (h.server_unique (hself j hj) hserves)
  scratch hlocked := by
    have hfree : (s.calls t).pc.locked = false := by
      refine Bool.eq_false_iff.mpr fun ht => hut ?_
      exact some.inj ((hlock u hlocked).symm.trans (hlock t ht))
    exact ⟨(he.scratch hfree).1, (he.scratch hfree).2.1⟩

variable {batch : List Nat} {model : Nat}

theorem runInferenceBatched_error {failure : Option EngineError} {s₁ : Sched Val} {e : EngineError}
    (hrun : s.runInferenceBatched eng batch model failure = (s₁, .error e)) :
    s₁ = s.noteFailure (batch.map fun i => (s.slots i).req.ticket) := by
  cases failure with
  | some e =>
    cases hrun
    rfl
  | none =>
    simp only [runInferenceBatched] at hrun
    split at hrun <;> cases hrun
    rfl

theorem length_flatten_of_length {α : Type} {L : List (List α)} {d : Nat}
    (hL : ∀ l ∈ L, l.length = d) : L.flatten.length = L.length * d := by
  rw [length_flatten, map_congr_left hL, map_const', sum_replicate, smul_eq_mul]

theorem slice_flatten {α : Type} {L : List (List α)} {d j : Nat} {l : List α}
    (hL : ∀ l ∈ L, l.length = d) (hj : L[j]? = some l) : (L.flatten.drop (j * d)).take d = l := by
  induction L generalizing j with
  | nil => simp at hj
  | cons x L ih =>
    have hx : x.length = d := hL x mem_cons_self
    cases j with
    | zero =>
      cases hj
      simp [← hx]
    | succ j =>
      have hdrop : (j + 1) * d = x.length + j * d := by rw [hx]; ring
      rw [flatten_cons, hdrop, drop_length_add_append]
      exact ih (fun l' hl' => hL l' (mem_cons_of_mem _ hl')) (by simpa using hj)

def outRows (s : Sched Val) (n model : Nat) : List (List Val) :=
  (range n).map fun i => eng.infer model (s.scratchIn i)

theorem length_outRows (s : Sched Val) (n model : Nat) :
    ∀ l ∈ outRows eng s n model, l.length = eng.outputDim model := by
  intro l hl
  obtain ⟨i, -, rfl⟩ := mem_map.mp hl
  exact eng.length_infer _ _

theorem runInferenceBatched_ok {total : Nat} {failure : Option EngineError} {s₁ : Sched Val}
    (hrun : s.runInferenceBatched eng batch model failure = (s₁, .ok total)) :
    s₁ = { s with scratchOut := (outRows eng s batch.length model).flatten } ∧
      total = batch.length * eng.outputDim model := by
  cases failure with
  | some e => cases hrun
  | none =>
    simp only [runInferenceBatched] at hrun
    split at hrun <;> cases hrun
    refine ⟨rfl, ?_⟩
    have hlen := length_flatten_of_length (length_outRows eng s batch.length model)
    simpa [outRows] using hlen

theorem submitStep_lock (hpc : (s.calls t).pc = pc)
    (hlock : (s.calls t).pc.locked = true → s.scratchLock = some t)
    (hstep : submitStep eng s t env pc = some s') (hlocked : (s'.calls t).pc.locked = true) :
    s'.scratchLock = some t := by
  rw [hpc] at hlock
  cases pc with
  | engine slot batch model dim =>
    simp only [submitStep, dispatchStep] at hstep
    split at hstep
    · rename_i hrun
      cases hstep
      rw [runInferenceBatched_error eng hrun]
      exact hlock rfl
    rename_i hrun
    obtain ⟨rfl, -⟩ := runInferenceBatched_ok eng hrun
    split at hstep <;> cases hstep <;> exact hlock rfl
  | _ =>
    simp only [submitStep, dispatchStep, reduceCtorEq] at hstep
    all_goals (repeat' split at hstep) <;>
      simp only [some.injEq, reduceCtorEq] at hstep <;> subst hstep <;>
      simp_all [Pc.locked, Sched.goto, claimAll, setState, Sched.setSlot, Sched.setResult, write]

theorem Locked.submitStep (hlock : Locked s) (he : Effect s s' st t)
    (hstep : Batch.submitStep eng s t env (s.calls t).pc = some s') : Locked s' := by
  intro u hu
  by_cases hut : u = t
  · subst hut
    exact submitStep_lock eng rfl (hlock u) hstep hu
  rw [he.others u hut] at hu
  have hheld := hlock u hu
  have hfree : (s.calls t).pc.locked = false := by
    refine Bool.eq_false_iff.mpr fun ht => hut ?_
    exact some.inj (hheld.symm.trans (hlock t ht))
  rcases (he.scratch hfree).2.2 with hsame | hnone
  · rw [hsame, hheld]
  rw [hheld] at hnone
  cases hnone

/-! ## Steps of a dispatcher -/

variable {pc' : Pc}

theorem goto_own (hown : pc'.own = (s.calls t).pc.own) (v : Nat) :
    ((s.goto t pc').calls v).pc.own = (s.calls v).pc.own := by
  by_cases hv : v = t
  · simp [hv, hown]
  · simp [hv]

theorem goto_input (s : Sched Val) (t v : Nat) (pc' : Pc) :
    ((s.goto t pc').calls v).input = (s.calls v).input := by
  by_cases hv : v = t <;> simp [Sched.goto, hv]

theorem Right.goto (h : Right eng s v r) (hcalls : s'.calls = (s.goto t pc').calls)
    (hmem : s'.mem = s.mem) (hfailed : s.failed ⊆ s'.failed) : Right eng s' v r := by
  refine h.congr eng ?_ ?_ (by rw [hmem]) hfailed
  · rw [hcalls, Sched.goto_req]
  · rw [hcalls, goto_input]

theorem Lands.goto (h : Lands eng s i r) (hcalls : s'.calls = (s.goto t pc').calls)
    (hmem : s'.mem = s.mem) (hfailed : s.failed ⊆ s'.failed)
    (hown : ∀ v, ((s.goto t pc').calls v).pc.own = some i → (s.calls v).pc.own = some i) :
    Lands eng s' i r := by
  intro v hv
  rw [hcalls] at hv
  exact (h v (hown v hv)).goto eng hcalls hmem hfailed

variable {dim idx k slot : Nat}

theorem fact_check (hf : Uniform s model dim (batch.take k)) (hidx : batch[k]? = some idx)
    (hsame : ¬ ((s.slots idx).req.modelIndex ≠ model ∨ (s.slots idx).req.inputLen ≠ dim)) :
    Uniform (s.goto t (.check slot batch model dim (k + 1))) model dim (batch.take (k + 1)) := by
  intro i hi
  rw [take_add_one, hidx] at hi
  rcases mem_append.mp hi with hi | hi
  · exact hf i hi
  cases mem_singleton.mp hi
  simpa [not_or] using hsame

theorem Buffers.row_read (hb : Buffers s) (h : Held s st)
    (hdim : (s.slots idx).req.inputLen = dim) (hv : (s.calls v).pc.own = some idx) :
    s.read (s.slots idx).req.inputPtr dim = (s.calls v).input := by
  rw [← hdim, h.req v idx hv]
  exact hb.input v (Pc.ne_idle_of_own hv)

theorem fact_copy (hb : Buffers s)
    (h : Held s st) (hpc : (s.calls t).pc = .copy slot batch model dim k)
    (hf : Fact eng s t (.copy slot batch model dim k)) (hidx : batch[k]? = some idx) :
    Fact eng { s.goto t (.copy slot batch model dim (k + 1)) with
      scratchIn := update s.scratchIn k (s.read (s.slots idx).req.inputPtr dim) } t
      (.copy slot batch model dim (k + 1)) := by
  refine ⟨hf.1, fun j hj i hi v hv => ?_⟩
  rw [goto_own (by rw [hpc]; rfl)] at hv
  refine Eq.trans ?_ (goto_input s t v _).symm
  by_cases hjk : j = k
  · subst hjk
    cases hi.symm.trans hidx
    simp only [update_self]
    exact hb.row_read h (hf.1 idx (List.mem_of_getElem? hidx)).2 hv
  simp only [update_of_ne hjk]
  exact hf.2 j (by omega) i hi v hv

theorem fact_engine_error (h : Held s st) (hpc : (s.calls t).pc = .engine slot batch model dim) :
    Fact eng ((s.noteFailure (batch.map fun i => (s.slots i).req.ticket)).goto t
      (.fail slot batch e 0)) t (.fail slot batch e 0) := by
  have hlands : ∀ i ∈ batch, Lands eng ((s.noteFailure (batch.map fun i =>
      (s.slots i).req.ticket)).goto t (.fail slot batch e 0)) i (.error e) := by
    intro i hi v hv
    rw [goto_own (by simp [Sched.noteFailure, hpc, Pc.own])] at hv
    refine ⟨_, List.mem_cons_self, List.mem_map.mpr ⟨i, hi, ?_⟩⟩
    rw [h.req v i hv, Sched.goto_req]
    rfl
  have hslot : slot ∈ batch := (h.claimed t slot batch (by rw [hpc]; rfl)).2
  exact ⟨hlands slot hslot t (by simp [Pc.own]), fun i hi => hlands i (by simpa using hi)⟩

theorem fact_engine_ok (h : Held s st) (hpc : (s.calls t).pc = .engine slot batch model dim)
    (hf : Fact eng s t (.engine slot batch model dim))
    (hroom : ∀ i ∈ batch, eng.outputDim (s.slots i).req.modelIndex ≤ (s.slots i).req.outputLen) :
    Fact eng (({ s with scratchOut := (outRows eng s batch.length model).flatten }
        : Sched Val).goto t (.fan slot batch (eng.outputDim model) 0)) t
      (.fan slot batch (eng.outputDim model) 0) := by
  refine ⟨fun j _ i hi v hv => ?_, fun hslot => by simp at hslot⟩
  rw [goto_own (by simp [hpc, Pc.own])] at hv
  have hmem := List.mem_of_getElem? hi
  have hj : j < batch.length := (List.getElem?_eq_some_iff.mp hi).1
  have hreq := h.req v i hv
  have hmodel := (hf.1 i hmem).1
  rw [goto_input, Sched.goto_req]
  refine ⟨?_, by rw [← hmodel, hreq], ?_⟩
  · have hrow : (outRows eng s batch.length model)[j]? =
        some (eng.infer (s.calls v).req.modelIndex (s.calls v).input) := by
      rw [← hreq, hmodel, ← hf.2 j i hi v hv]
      simp [outRows, hj]
    exact slice_flatten (length_outRows eng s batch.length model) hrow
  have hcap := hroom i hmem
  rw [hmodel, hreq] at hcap
  exact hcap

theorem take_nodup_ne (hn : batch.Nodup)
    (hidx : batch[k]? = some idx) (hslot : slot ∈ batch.take k) : slot ≠ idx := by
  rintro rfl
  exact disjoint_take_drop hn le_rfl hslot (mem_drop_of_getElem? hidx)

theorem mem_take_add_one (hidx : batch[k]? = some idx)
    (hslot : slot ∈ batch.take (k + 1)) : slot ∈ batch.take k ∨ slot = idx := by
  rw [take_add_one, hidx] at hslot
  rcases mem_append.mp hslot with hslot | hslot
  · exact .inl hslot
  · exact .inr (mem_singleton.mp hslot)

theorem mem_take_of_getElem?_none (hnone : batch[k]? = none)
    (hslot : slot ∈ batch) : slot ∈ batch.take k := by
  rwa [List.take_of_length_le (List.getElem?_eq_none_iff.mp hnone)]

variable {perOut : Nat}

theorem Slice.goto (h : Slice eng s perOut i j)
    (hcalls : s'.calls = (s.goto t pc').calls) (hout : s'.scratchOut = s.scratchOut)
    (hown : pc'.own = (s.calls t).pc.own) : Slice eng s' perOut i j := by
  intro v hv
  rw [hcalls, goto_own hown] at hv
  rw [hout, hcalls, Sched.goto_req, goto_input]
  exact h v hv

theorem fact_fan (hb : Buffers s) (h : Held s st) (hpc : (s.calls t).pc = .fan slot batch perOut k)
    (hf : Fact eng s t (.fan slot batch perOut k))
    (hstep : dispatchStep eng s t env (.fan slot batch perOut k) = some s') :
    Fact eng s' t (s'.calls t).pc := by
  obtain ⟨hn, hslot⟩ := h.claimed t slot batch (by rw [hpc]; rfl)
  simp only [dispatchStep] at hstep
  split at hstep
  · rename_i hnone
    cases hstep
    rw [Sched.goto_pc, if_pos rfl]
    exact (hf.2 (mem_take_of_getElem?_none hnone hslot)).goto eng rfl rfl (refl _)
  rename_i idx hidx
  obtain ⟨v, hv, hreq⟩ := h.owner_of_serves (t := t) (i := idx)
    (by rw [hpc]; exact .inl (mem_drop_of_getElem? hidx))
  obtain ⟨hslice, hdim, hcap⟩ := hf.1 k le_rfl idx hidx v hv
  have hmin : min perOut (s.slots idx).req.outputLen = perOut := by
    rw [hreq]
    exact min_eq_left hcap
  rw [hmin, hreq, hslice] at hstep
  cases hstep
  rw [Sched.goto_pc, if_pos rfl]
  refine ⟨fun j hj i hi => ?_, fun htake => ?_, fun i hi w hw => ?_⟩
  · exact (hf.1 j hj.le i hi).goto eng rfl rfl (by rw [hpc]; rfl)
  · -- the own slot is done already, and somebody else's output is written
    have hne := take_nodup_ne hn hidx htake
    have hvt : t ≠ v := by
      rintro rfl
      rw [hpc] at hv
      exact hne (Option.some.inj hv)
    have happart := (Request.apart_iff _ _).mp
      (hb.apart t v hvt (by simp [hpc]) (Pc.ne_idle_of_own hv))
    have hright := hf.2 htake
    rw [← Sched.setResult_of_ne s perOut hne] at hright
    refine hright.congr eng (Sched.goto_req _ _ _ _) (goto_input _ _ _ _) ?_ (refl _)
    exact write_mem_of_ne s _ happart.2.1
  cases hi.symm.trans hidx
  rw [goto_own (by simp [Sched.setResult, Sched.setSlot, Sched.write, hpc, Pc.own])] at hw
  cases h.owner_unique hw hv
  have hlen := eng.length_infer (s.calls v).req.modelIndex (s.calls v).input
  have hvalue : (((s.write (s.calls v).req.outputPtr (eng.infer (s.calls v).req.modelIndex
      (s.calls v).input)).setResult idx perOut).slots idx).resultValue = perOut := by
    simp [Sched.setResult, Sched.setSlot]
  simp only [Right, Sched.goto_req, goto_input]
  refine Eq.trans (congrArg _ ?_) (read_write s _)
  rw [hlen, ← hdim]
  exact hvalue

theorem fact_signal (hpc : (s.calls t).pc = .signal slot batch perOut k)
    (hf : Fact eng s t (.signal slot batch perOut k))
    (hstep : dispatchStep eng s t env (.signal slot batch perOut k) = some s') :
    Fact eng s' t (s'.calls t).pc := by
  obtain ⟨hslices, hself, hlands⟩ := hf
  simp only [dispatchStep] at hstep
  split at hstep
  · cases hstep
  rename_i idx hidx
  split at hstep
  · rename_i heq
    cases hstep
    rw [Sched.goto_pc, if_pos rfl]
    refine ⟨fun j hj i hi => (hslices j hj i hi).goto eng rfl rfl (by rw [hpc]; rfl), ?_⟩
    intro htake
    have hright : Right eng s t (.ok (s.slots slot).resultValue) := by
      rcases mem_take_add_one hidx htake with hbefore | -
      · exact hself hbefore
      rw [← heq]
      exact hlands idx hidx t (by rw [hpc, heq]; rfl)
    exact hright.goto eng rfl rfl (refl _)
  rename_i hne
  cases hstep
  rw [Sched.goto_pc, if_pos rfl]
  refine ⟨fun j hj i hi => (hslices j hj i hi).goto eng rfl rfl (by rw [hpc]; rfl), ?_⟩
  intro htake
  have hbefore : slot ∈ batch.take k := by
    rcases mem_take_add_one hidx htake with hbefore | heq
    · exact hbefore
    · exact absurd heq.symm hne
  have hright := hself hbefore
  rw [← Sched.setState_of_ne s .doneOk (Ne.symm hne)] at hright
  exact hright.goto eng rfl rfl (refl _)

theorem fact_fail
    (hpc : (s.calls t).pc = .fail slot batch e k) (hf : Fact eng s t (.fail slot batch e k))
    (hstep : dispatchStep eng s t env (.fail slot batch e k) = some s') :
    Fact eng s' t (s'.calls t).pc := by
  obtain ⟨hself, hlands⟩ := hf
  have hlater : ∀ i ∈ batch.drop (k + 1), Lands eng s i (.error e) := fun i hi =>
    hlands i (List.mem_of_mem_drop (by rwa [List.drop_drop] : i ∈ (batch.drop k).drop 1))
  have hown : (Pc.fail slot batch e (k + 1)).own = (s.calls t).pc.own := by
    rw [hpc]
    rfl
  simp only [dispatchStep] at hstep
  split at hstep
  · cases hstep
    rw [Sched.goto_pc, if_pos rfl]
    exact hself.goto eng rfl rfl (refl _)
  split at hstep <;> cases hstep <;> rw [Sched.goto_pc, if_pos rfl]
  all_goals
    exact ⟨hself.goto eng rfl rfl (refl _), fun i hi =>
      (hlater i hi).goto eng rfl rfl (refl _) fun v hv => by
        rwa [goto_own hown] at hv⟩

theorem fact_het (hb : Buffers s) (h : Held s st) (he : Effect s s' st t)
    (hpc : (s.calls t).pc = .het slot batch k self) (hf : Fact eng s t (.het slot batch k self))
    (hstep : dispatchStep eng s t env (.het slot batch k self) = some s') :
    Fact eng s' t (s'.calls t).pc := by
  obtain ⟨hn, hslot⟩ := h.claimed t slot batch (by rw [hpc]; rfl)
  simp only [dispatchStep] at hstep
  split at hstep
  · rename_i hnone
    cases hstep
    rw [Sched.goto_pc, if_pos rfl]
    exact (hf (mem_take_of_getElem?_none hnone hslot)).goto eng rfl rfl (refl _)
  rename_i idx hidx
  obtain ⟨v, hv, hreq⟩ := h.owner_of_serves (t := t) (i := idx)
    (by rw [hpc]; exact mem_drop_of_getElem? hidx)
  have hpc' : (s'.calls t).pc = .hetStore slot batch k self
      (s.runInference eng (s.slots idx).req env.failure).2 := by
    cases hstep
    rw [Sched.goto_pc, if_pos rfl]
  have hcalls : (s.runInference eng (s.slots idx).req env.failure).1.calls = s.calls :=
    (runInference_frame eng s _ env.failure).2.1
  rw [hpc']
  refine ⟨fun htake => ?_, fun i hi w hw => ?_⟩
  · -- the own slot is done, and nobody writes its output any more
    have hgone : slot ∉ batch.drop k := fun hdrop =>
      List.disjoint_take_drop hn le_rfl htake hdrop
    refine (hf htake).effect eng hb h he (by simp [hpc]) ?_
    rintro (⟨-, hsolo⟩ | ⟨j, hj, -⟩)
    · simp [hpc] at hsolo
    · simp [hpc, Pc.own, hgone] at hj
  cases hi.symm.trans hidx
  have hright := right_runInference eng env.failure hreq.symm
    (by rw [hreq]; exact hb.input v (Pc.ne_idle_of_own hv))
  cases hstep
  rw [goto_own (by rw [hcalls, hpc]; rfl), hcalls] at hw
  cases h.owner_unique hw hv
  exact hright.goto eng rfl rfl (refl _)

theorem fact_hetStore (hpc : (s.calls t).pc = .hetStore slot batch k self r)
    (hf : Fact eng s t (.hetStore slot batch k self r))
    (hstep : dispatchStep eng s t env (.hetStore slot batch k self r) = some s') :
    Fact eng s' t (s'.calls t).pc := by
  obtain ⟨hself, hlands⟩ := hf
  simp only [dispatchStep] at hstep
  split at hstep
  · cases hstep
  rename_i idx hidx
  split at hstep
  · rename_i heq
    cases hstep
    rw [Sched.goto_pc, if_pos rfl]
    intro _
    have hown : (s.calls t).pc.own = some idx := by
      rw [hpc, heq, Pc.own, if_pos (heq ▸ mem_drop_of_getElem? hidx)]
    exact (hlands idx hidx t hown).goto eng rfl rfl (refl _)
  rename_i hne
  cases hstep
  rw [Sched.goto_pc, if_pos rfl]
  intro htake
  have hbefore : slot ∈ batch.take k := by
    rcases mem_take_add_one hidx htake with hbefore | heq
    · exact hbefore
    · exact absurd heq.symm hne
  exact (hself hbefore).goto eng rfl rfl (refl _)

/-- A batch goes to the engine with room for all outputs, and calls come with buffers. -/
def Fits (s : Sched Val) : Act Val → Prop
  | .submit _ _ inputPtr inputLen outputPtr outputLen _ _ _ =>
    inputPtr ≠ 0 ∧ inputLen ≠ 0 ∧ outputPtr ≠ 0 ∧ outputLen ≠ 0
  | .go t _ =>
    match (s.calls t).pc with
    | .engine _ batch _ _ => ∀ i ∈ batch,
        eng.outputDim (s.slots i).req.modelIndex ≤ (s.slots i).req.outputLen
    | _ => True
  | _ => True

theorem fact_engine (h : Held s st) (hpc : (s.calls t).pc = .engine slot batch model dim)
    (hf : Fact eng s t (.engine slot batch model dim))
    (hroom : ∀ i ∈ batch, eng.outputDim (s.slots i).req.modelIndex ≤ (s.slots i).req.outputLen)
    (hstep : dispatchStep eng s t env (.engine slot batch model dim) = some s') :
    Fact eng s' t (s'.calls t).pc := by
  have hslot : slot ∈ batch := (h.claimed t slot batch (by rw [hpc]; rfl)).2
  have hpos : 0 < batch.length := List.length_pos_of_mem hslot
  simp only [dispatchStep] at hstep
  split at hstep
  · rename_i hrun
    cases runInferenceBatched_error eng hrun
    cases hstep
    rw [Sched.goto_pc, if_pos rfl]
    exact fact_engine_error eng h hpc
  rename_i hrun
  obtain ⟨rfl, rfl⟩ := runInferenceBatched_ok eng hrun
  rw [if_neg (by simp), Nat.mul_div_cancel_left _ hpos] at hstep
  cases hstep
  rw [Sched.goto_pc, if_pos rfl]
  exact fact_engine_ok eng h hpc hf hroom

theorem fact_dispatchStep (hb : Buffers s) (h : Held s st) (he : Effect s s' st t)
    (hfits : Fits eng s (.go t env : Act Val)) (hpc : (s.calls t).pc = pc) (hf : Fact eng s t pc)
    (hstep : dispatchStep eng s t env pc = some s') : Fact eng s' t (s'.calls t).pc := by
  cases pc with
  | scratch slot batch =>
    simp only [dispatchStep] at hstep
    split at hstep <;> cases hstep
    · rw [hpc]
      trivial
    · simp [Fact, Uniform]
  | check slot batch model dim k =>
    simp only [dispatchStep] at hstep
    split at hstep
    · rename_i hnone
      cases hstep
      rw [Sched.goto_pc, if_pos rfl]
      refine ⟨fun i hi => hf i (mem_take_of_getElem?_none hnone hi), fun j hj => ?_⟩
      omega
    rename_i idx hidx
    split at hstep <;> cases hstep
    · simp [Fact]
    rename_i hsame
    rw [Sched.goto_pc, if_pos rfl]
    exact fact_check hf hidx hsame
  | copy slot batch model dim k =>
    simp only [dispatchStep] at hstep
    split at hstep <;> cases hstep
    · rename_i hnone
      rw [Sched.goto_pc, if_pos rfl]
      refine ⟨hf.1, fun j i hi v hv => ?_⟩
      have hj : j < k := lt_of_lt_of_le (List.getElem?_eq_some_iff.mp hi).1
        (List.getElem?_eq_none_iff.mp hnone)
      rw [goto_own (by rw [hpc]; rfl)] at hv
      rw [goto_input]
      exact hf.2 j hj i hi v hv
    rename_i idx hidx
    simp only [Sched.goto_pc, if_true]
    exact fact_copy eng hb h hpc hf hidx
  | engine slot batch model dim =>
    simp only [Fits, hpc] at hfits
    exact fact_engine eng h hpc hf hfits hstep
  | fan slot batch perOut k => exact fact_fan eng hb h hpc hf hstep
  | signal slot batch perOut k => exact fact_signal eng hpc hf hstep
  | fail slot batch e k => exact fact_fail eng hpc hf hstep
  | finish slot e =>
    cases hstep
    rw [Sched.goto_pc, if_pos rfl]
    cases e with
    | none =>
      exact Right.goto (r := .ok (s.slots slot).resultValue) eng hf rfl rfl (refl _)
    | some e => exact Right.goto (r := .error e) eng hf rfl rfl (refl _)
  | unlock r =>
    cases hstep
    simp only [Sched.goto_pc, if_true]
    exact Right.goto eng hf rfl rfl (refl _)
  | het slot batch k self => exact fact_het eng hb h he hpc hf hstep
  | hetStore slot batch k self r => exact fact_hetStore eng hpc hf hstep
  | _ => cases hstep

theorem fact_submitStep (hb : Buffers s) (hd : Done eng s) (h : Held s st) (he : Effect s s' st t)
    (hfits : Fits eng s (.go t env : Act Val)) (hpc : (s.calls t).pc = pc) (hf : Fact eng s t pc)
    (hstep : submitStep eng s t env pc = some s') : Fact eng s' t (s'.calls t).pc := by
  cases pc with
  | reserve cfgSize | decide slot cfgSize | wait slot | flush slot | claim slot timeoutNs =>
    simp only [submitStep] at hstep
    split at hstep <;> cases hstep <;> simp [Fact]
  | release slot =>
    cases hstep
    simp [Fact]
  | solo =>
    cases hstep
    rw [Sched.goto_pc, if_pos rfl]
    exact (right_runInference eng env.failure rfl (hb.input t (by simp [hpc]))).goto eng rfl
      rfl (refl _)
  | take slot ok =>
    have hst := h.taken t slot ok hpc
    have hown : (s.calls t).pc.own = some slot := by
      rw [hpc]
      rfl
    have hstate := h.state slot ((h.own t slot).mp hown).1
    rw [hst] at hstate
    cases hstep
    rw [Sched.goto_pc, if_pos rfl]
    cases ok with
    | true => exact (hd.ok slot hstate t hown).goto eng rfl rfl (refl _)
    | false => exact (hd.error slot hstate t hown).goto eng rfl rfl (refl _)
  | _ =>
    exact fact_dispatchStep eng hb h he hfits hpc hf hstep

/-! ## Results in the slots -/

def Pc.publishes : Pc → Nat → Prop
  | .signal slot batch _ k, i => batch[k]? = some i ∧ i ≠ slot
  | .fail slot batch _ k, i => batch[k]? = some i ∧ i ≠ slot
  | .hetStore slot batch k _ _, i => batch[k]? = some i ∧ i ≠ slot
  | _, _ => False

def SlotState.done (x : SlotState) : Prop := x = .doneOk ∨ x = .doneErr

theorem Held.not_done_of_serves (h : Held s st) (hs : (s.calls t).pc.serves i) :
    ¬ (s.slots i).state.done := by
  obtain ⟨hi, hserver⟩ := (h.serves t i).mp hs
  rw [h.state i hi]
  cases hst : st i with
  | claimed u v => simp [Status.state, SlotState.done]
  | _ => simp [hst, Status.server] at hserver

theorem setResult_state (s : Sched Val) (i j value : Nat) :
    ((s.setResult i value).slots j).state = (s.slots j).state := by
  by_cases hj : j = i
  · simp [Sched.setResult, Sched.setSlot, hj]
  · rw [setResult_of_ne s value hj]

theorem not_done_idle (s : Sched Val) : ¬ ((s.setState i .idle).slots i).state.done := by
  simp [done]

theorem Held.dispatchStep_done (h : Held s st) (hpc : (s.calls t).pc = pc)
    (hstep : Batch.dispatchStep eng s t env pc = some s') (hdone : (s'.slots i).state.done) :
    s'.slots i = s.slots i ∨ pc.publishes i := by
  have hnot : ∀ j, pc.serves j → ¬ (s.slots j).state.done := fun j hj =>
    h.not_done_of_serves (hpc ▸ hj)
  cases pc with
  | scratch slot batch | copy slot batch model dim k =>
    simp only [Batch.dispatchStep] at hstep
    split at hstep <;> cases hstep <;> exact .inl rfl
  | check slot batch model dim k =>
    simp only [Batch.dispatchStep] at hstep
    split at hstep
    · cases hstep
      exact .inl rfl
    · split at hstep <;> cases hstep <;> exact .inl rfl
  | engine slot batch model dim =>
    simp only [Batch.dispatchStep] at hstep
    split at hstep
    · rename_i hrun
      cases runInferenceBatched_error eng hrun
      cases hstep
      exact .inl rfl
    rename_i hrun
    obtain ⟨rfl, -⟩ := runInferenceBatched_ok eng hrun
    split at hstep <;> cases hstep <;> exact .inl rfl
  | fan slot batch perOut k =>
    simp only [Batch.dispatchStep] at hstep
    split at hstep <;> cases hstep
    · exact .inl rfl
    rename_i idx hidx
    by_cases hi : i = idx
    · subst hi
      have hstate := setResult_state (s.write (s.slots i).req.outputPtr
        ((s.scratchOut.drop (k * perOut)).take (min perOut (s.slots i).req.outputLen))) i i
        (min perOut (s.slots i).req.outputLen)
      exact absurd (hstate ▸ hdone) (hnot i (.inl (mem_drop_of_getElem? hidx)))
    · exact .inl (setResult_of_ne _ _ hi)
  | signal slot batch perOut k =>
    simp only [Batch.dispatchStep] at hstep
    split at hstep
    · cases hstep
    rename_i idx hidx
    split at hstep <;> cases hstep
    · exact .inl rfl
    rename_i hne
    by_cases hi : i = idx
    · subst hi
      exact .inr ⟨hidx, hne⟩
    · exact .inl (setState_of_ne _ _ hi)
  | fail slot batch e k =>
    simp only [Batch.dispatchStep] at hstep
    split at hstep
    · cases hstep
      exact .inl rfl
    rename_i idx hidx
    by_cases hi : i = idx
    · subst hi
      split at hstep <;> cases hstep
      · have hstate := setResult_state s i i (encodeEngineError e)
        exact absurd (hstate ▸ hdone) (hnot i (.inl (mem_drop_of_getElem? hidx)))
      rename_i hne
      exact .inr ⟨hidx, hne⟩
    split at hstep <;> cases hstep
    · exact .inl (setResult_of_ne _ _ hi)
    · exact .inl ((setState_of_ne _ _ hi).trans (setResult_of_ne _ _ hi))
  | finish slot e =>
    cases hstep
    by_cases hi : i = slot
    · subst hi
      exact absurd hdone (not_done_idle s)
    · exact .inl (setState_of_ne _ _ hi)
  | unlock r =>
    cases hstep
    exact .inl rfl
  | het slot batch k self =>
    simp only [Batch.dispatchStep] at hstep
    split at hstep <;> cases hstep
    · exact .inl rfl
    · exact .inl (congrFun (runInference_frame eng s _ env.failure).1 i)
  | hetStore slot batch k self r =>
    simp only [Batch.dispatchStep] at hstep
    split at hstep
    · cases hstep
    rename_i idx hidx
    by_cases hi : i = idx
    · subst hi
      split at hstep <;> cases hstep
      · exact absurd hdone (not_done_idle _)
      rename_i hne
      exact .inr ⟨hidx, hne⟩
    split at hstep <;> cases hstep <;>
      exact .inl ((setState_of_ne _ _ hi).trans (setResult_of_ne _ _ hi))
  | _ => cases hstep

theorem claimAll_done (hdone : (s.claimAll.slots i).state.done) :
    s.claimAll.slots i = s.slots i := by
  by_cases hi : i ∈ s.pending
  · simp [claimAll, hi, done] at hdone
  · exact claimAll_slots hi

theorem Held.submitStep_done (h : Held s st) (hpc : (s.calls t).pc = pc)
    (hstep : Batch.submitStep eng s t env pc = some s') (hdone : (s'.slots i).state.done) :
    s'.slots i = s.slots i ∨ pc.publishes i := by
  cases pc with
  | reserve cfgSize =>
    simp only [Batch.submitStep] at hstep
    rcases reserveSlot_cases s (s.calls t).req env.now with hr | ⟨j, -, -, hr | hr⟩ <;>
      rw [hr] at hstep <;> cases hstep
    · exact .inl rfl
    all_goals
      by_cases hi : i = j
      · simp [hi, Sched.goto, Sched.setSlot, done] at hdone
      · exact .inl (by simp [Sched.goto, Sched.setSlot, hi])
  | decide slot cfgSize =>
    simp only [Batch.submitStep] at hstep
    split at hstep <;> cases hstep
    · exact .inl rfl
    · exact .inl (claimAll_done hdone)
    · exact .inl rfl
  | release slot =>
    simp only [Batch.submitStep, Sched.releaseSlotAsSolo] at hstep
    cases hstep
    split at hdone
    · rename_i hslot
      rw [if_pos hslot]
      by_cases hi : i = slot
      · subst hi
        exact absurd hdone (not_done_idle s)
      · exact .inl (setState_of_ne _ _ hi)
    rename_i hslot
    rw [if_neg hslot]
    exact .inl rfl
  | solo =>
    cases hstep
    exact .inl (congrFun (runInference_frame eng s _ env.failure).1 i)
  | wait slot | flush slot =>
    simp only [Batch.submitStep] at hstep
    split at hstep <;> cases hstep <;> exact .inl rfl
  | take slot ok =>
    cases hstep
    by_cases hi : i = slot
    · subst hi
      exact absurd hdone (not_done_idle s)
    · exact .inl (setState_of_ne _ _ hi)
  | claim slot timeoutNs =>
    simp only [Batch.submitStep] at hstep
    split at hstep <;> cases hstep
    · exact .inl (claimAll_done hdone)
    · exact .inl rfl
  | _ =>
    simp only [Batch.submitStep] at hstep
    exact h.dispatchStep_done eng hpc hstep hdone

theorem publishes_right (hpc : (s.calls t).pc = pc) (hf : Fact eng s t pc)
    (hpub : pc.publishes i) (hstep : submitStep eng s t env pc = some s') :
    ((s'.slots i).state = .doneOk → Lands eng s i (.ok (s'.slots i).resultValue)) ∧
      ((s'.slots i).state = .doneErr → ∃ e, Lands eng s i (.error e)) := by
  cases pc with
  | signal slot batch perOut k =>
    obtain ⟨hidx, hne⟩ := hpub
    simp only [submitStep, dispatchStep, hidx, if_neg hne] at hstep
    cases hstep
    have hvalue : ((((s.setState i .doneOk).goto t (.fan slot batch perOut (k + 1))).slots
        i).resultValue) = (s.slots i).resultValue := by
      simp [Sched.goto, Sched.setState, Sched.setSlot]
    refine ⟨fun _ => ?_, fun hx => ?_⟩
    · rw [hvalue]
      exact hf.2.2 i hidx
    · cases (Sched.setState_self s i .doneOk).symm.trans hx
  | fail slot batch e k =>
    obtain ⟨hidx, hne⟩ := hpub
    simp only [submitStep, dispatchStep, hidx, if_neg hne] at hstep
    cases hstep
    refine ⟨fun hx => ?_, fun _ => ⟨e, hf.2 i (mem_drop_of_getElem? hidx)⟩⟩
    cases (Sched.setState_self _ i .doneErr).symm.trans hx
  | hetStore slot batch k self r =>
    obtain ⟨hidx, hne⟩ := hpub
    simp only [submitStep, dispatchStep, hidx, if_neg hne] at hstep
    cases hstep
    cases r with
    | ok n =>
      refine ⟨fun _ => ?_, fun hx => ?_⟩
      · have hvalue : ((((s.setResult i n).setState i .doneOk).goto t
            (.het slot batch (k + 1) self)).slots i).resultValue = n := by
          simp [Sched.goto, Sched.setState, Sched.setSlot, Sched.setResult]
        rw [hvalue]
        exact hf.2 i hidx
      · cases (Sched.setState_self _ i .doneOk).symm.trans hx
    | error e =>
      refine ⟨fun hx => ?_, fun _ => ⟨e, hf.2 i hidx⟩⟩
      cases (Sched.setState_self _ i .doneErr).symm.trans hx
  | _ => exact hpub.elim

theorem Held.served_of_done (h : Held s st) (hi : i < maxBatch)
    (hdone : (s.slots i).state.done) : ∃ w ok, st i = .served w ok := by
  rw [h.state i hi] at hdone
  cases hst : st i with
  | served w ok => exact ⟨w, ok, rfl⟩
  | _ => simp [hst, Status.state, SlotState.done] at hdone

theorem Lands.waiting (hb : Buffers s) (h : Held s st) (h' : Held s' st') (he : Effect s s' st t)
    (hdone : (s.slots i).state.done) (hl : Lands eng s i r) : Lands eng s' i r := by
  intro v hv
  have hi := ((h'.own v i).mp hv).1
  obtain ⟨w, ok, hst⟩ := h.served_of_done hi hdone
  have hown := h'.owner_kept he ((h.own w i).mpr ⟨hi, by simp [hst, Status.owner]⟩) hv
  refine (hl v hown).effect eng hb h he (Pc.ne_idle_of_own hown) ?_
  rintro (⟨rfl, hsolo⟩ | ⟨j, hj, hserves⟩)
  · simp [hsolo, Pc.own] at hown
  cases hown.symm.trans hj
  exact h.not_done_of_serves hserves hdone

theorem Lands.published (h : Held s st) (h' : Held s' st')
    (he : Effect s s' st t) (hmem : s'.mem = s.mem) (hs : (s.calls t).pc.serves i)
    (hl : Lands eng s i r) : Lands eng s' i r := by
  intro v hv
  obtain ⟨w, hw, -⟩ := h.owner_of_serves hs
  have hown := h'.owner_kept he hw hv
  exact (hl v hown).congr eng (he.req_all v) (he.input_all v) (by rw [hmem]) he.failed

theorem Pc.publishes_serves (h : pc.publishes i) : pc.serves i := by
  cases pc with
  | signal slot batch perOut k | fail slot batch e k => exact .inl (mem_drop_of_getElem? h.1)
  | hetStore slot batch k self r => exact mem_drop_of_getElem? h.1
  | _ => exact h.elim

theorem publishes_writes (h : (s.calls t).pc.publishes i) : s.writes t = none := by
  unfold Sched.writes
  split <;> simp_all [Pc.publishes]

theorem Done.submitStep (hd : Done eng s) (hb : Buffers s) (h : Held s st) (h' : Held s' st')
    (he : Effect s s' st t) (hf : Fact eng s t (s.calls t).pc)
    (hstep : Batch.submitStep eng s t env (s.calls t).pc = some s') : Done eng s' := by
  have hmem : ∀ i, (s.calls t).pc.publishes i → s'.mem = s.mem := by
    intro i hpub
    funext p
    refine he.mem p fun r hr => ?_
    rw [publishes_writes hpub] at hr
    cases hr
  constructor
  · intro i hok
    rcases h.submitStep_done eng rfl hstep (.inl hok) with hsame | hpub
    · rw [hsame] at hok ⊢
      exact (hd.ok i hok).waiting eng hb h h' he (.inl hok)
    exact ((publishes_right eng rfl hf hpub hstep).1 hok).published eng h h' he (hmem i hpub)
      (Pc.publishes_serves hpub)
  intro i herr
  rcases h.submitStep_done eng rfl hstep (.inr herr) with hsame | hpub
  · rw [hsame] at herr ⊢
    exact (hd.error i herr).waiting eng hb h h' he (.inr herr)
  obtain ⟨e, hlands⟩ := (publishes_right eng rfl hf hpub hstep).2 herr
  exact hlands.published eng h h' he (hmem i hpub) (Pc.publishes_serves hpub)

/-! ## Runs -/

structure Answers (s : Sched Val) : Prop where
  buffers : Buffers s
  locked : Locked s
  done : Done eng s
  fact : ∀ u, Fact eng s u (s.calls u).pc

theorem Answers.submitStep (ha : Answers eng s) (h : Held s st) (h' : Held s' st')
    (hfits : Fits eng s (.go t env : Act Val))
    (hstep : Batch.submitStep eng s t env (s.calls t).pc = some s') : Answers eng s' := by
  have he := h.submitStep_effect eng rfl hstep
  refine ⟨ha.buffers.submitStep h he (submitStep_ne_idle eng rfl hstep),
    ha.locked.submitStep eng he hstep,
    ha.done.submitStep eng ha.buffers h h' he (ha.fact t) hstep, fun u => ?_⟩
  by_cases hut : u = t
  · subst hut
    exact fact_submitStep eng ha.buffers ha.done h he hfits rfl (ha.fact u) hstep
  rw [he.others u hut]
  exact (ha.fact u).kept (.of_effect eng ha.buffers ha.locked h h' he hut) rfl

theorem Answers.outside (ha : Answers eng s) (hb : Buffers s')
    (hslots : s'.slots = s.slots) (hin : s'.scratchIn = s.scratchIn)
    (hout : s'.scratchOut = s.scratchOut) (hlock : s'.scratchLock = s.scratchLock)
    (hfact : ∀ u, s'.calls u = s.calls u ∨ (s.calls u).pc.own = none ∧ (s'.calls u).pc.own = none ∧
        (s'.calls u).pc.locked = false ∧ Fact eng s' u (s'.calls u).pc)
    (hright : ∀ v r, s'.calls v = s.calls v → (s.calls v).pc ≠ .idle → Right eng s v r →
      Right eng s' v r) : Answers eng s' := by
  have hcall : ∀ v i, (s'.calls v).pc.own = some i → s'.calls v = s.calls v := by
    intro v i hv
    rcases hfact v with hsame | ⟨-, hnone, -⟩
    · exact hsame
    rw [hnone] at hv
    cases hv
  have hlands : ∀ i r, Lands eng s i r → Lands eng s' i r := by
    intro i r hl v hv
    have hsame := hcall v i hv
    rw [hsame] at hv
    exact hright v r hsame (Pc.ne_idle_of_own hv) (hl v hv)
  refine ⟨hb, fun u hu => ?_, ⟨fun i hi => ?_, fun i hi => ?_⟩, fun u => ?_⟩
  · rcases hfact u with hsame | ⟨-, -, hfree, -⟩
    · rw [hlock]
      exact ha.locked u (hsame ▸ hu)
    · rw [hfree] at hu
      cases hu
  · rw [hslots] at hi ⊢
    exact hlands i _ (ha.done.ok i hi)
  · rw [hslots] at hi ⊢
    exact hlands i _ (ha.done.error i hi)
  rcases hfact u with hsame | ⟨-, -, -, hnew⟩
  · rw [hsame]
    refine (ha.fact u).kept ?_ rfl
    constructor
    · exact hsame
    · intro i _
      rw [hslots]
    · intro v i hv
      rw [hcall v i hv]
    · intro v i hv
      rw [hcall v i hv]
    · intro v i _ hv
      rwa [← hcall v i hv]
    · intro v i r _ hv hr
      rcases hfact v with hsame | ⟨hnone, -⟩
      · exact hright v r hsame (Pc.ne_idle_of_own hv) hr
      rw [hnone] at hv
      cases hv
    · intro r hidle _ hr
      exact hright u r hsame hidle hr
    intro _
    exact ⟨hin, hout⟩
  · exact hnew

theorem entry_fact {r : Request} (cfg : Config) (deadlineNs now : Nat)
    (hr : r.inputPtr ≠ 0 ∧ r.inputLen ≠ 0 ∧ r.outputPtr ≠ 0 ∧ r.outputLen ≠ 0) :
    (r.entry cfg deadlineNs now).locked = false ∧ Fact eng s u (r.entry cfg deadlineNs now) := by
  obtain ⟨h₁, h₂, h₃, h₄⟩ := hr
  unfold Request.entry
  rw [if_neg (by simp [h₁, h₂, h₃, h₄])]
  split_ifs <;> exact ⟨rfl, trivial⟩

theorem Answers.step {a : Act Val} (ha : Answers eng s) (h : Held s st) (h' : Held s' st')
    (hfits : Fits eng s a) (hstep : Batch.step eng s a = some s') : Answers eng s' := by
  have hb := ha.buffers.step eng h hstep
  cases a with
  | go t env => exact ha.submitStep eng h h' hfits hstep
  | submit t model inputPtr inputLen outputPtr outputLen cfg deadlineNs now =>
    simp only [Batch.step] at hstep
    split at hstep
    · rename_i hfree
      cases hstep
      refine ha.outside eng hb rfl rfl rfl rfl (fun u => ?_) fun v r hsame _ hr => ?_
      · by_cases hut : u = t
        · subst hut
          let r : Request := ⟨model, inputPtr, inputLen, outputPtr, outputLen, s.tickets⟩
          obtain ⟨hlocked, hfact⟩ := entry_fact eng (s := { s with
            calls := update s.calls u ⟨r, s.read inputPtr inputLen, r.entry cfg deadlineNs now⟩
            tickets := s.tickets + 1
            live := r :: s.live }) (u := u) (r := r) cfg deadlineNs now hfits
          refine .inr ⟨by simp [hfree.1, Pc.own], ?_, ?_, ?_⟩
          · simpa using (entry_plain r cfg deadlineNs now).1
          · simpa using hlocked
          · simpa using hfact
        · exact .inl (by simp [hut])
      · exact hr.congr eng (by rw [hsame]) (by rw [hsame]) rfl (refl _)
    · cases hstep
  | resume t =>
    simp only [Batch.step] at hstep
    split at hstep
    · rename_i r hpc
      cases hstep
      refine ha.outside eng hb rfl rfl rfl rfl (fun u => ?_) fun v r hsame _ hr => ?_
      · by_cases hut : u = t
        · subst hut
          exact .inr ⟨by rw [hpc]; rfl, by simp [Pc.own], by simp [Pc.locked], by simp [Fact]⟩
        · exact .inl (by simp [Sched.goto, hut])
      · exact hr.congr eng (by rw [hsame]) (by rw [hsame]) rfl (refl _)
    · cases hstep
  | fill ptr vs =>
    simp only [Batch.step] at hstep
    split at hstep
    · rename_i hfree
      cases hstep
      refine ha.outside eng hb rfl rfl rfl rfl (fun u => .inl rfl) fun v r _ hv hr => ?_
      have hptr := List.all_eq_true.mp hfree _ (ha.buffers.live v hv)
      simp only [Bool.and_eq_true, bne_iff_ne] at hptr
      exact hr.congr eng rfl rfl (write_mem_of_ne s vs hptr.2) (refl _)
    · cases hstep

theorem answers_new (mem : Nat → Nat → Val) : Answers eng (Sched.new mem) where
  buffers := by constructor <;> simp [Sched.new]
  locked := by simp [Locked, Sched.new, Pc.locked]
  done := by constructor <;> simp [Sched.new]
  fact := by simp [Sched.new, Fact]

/-- As long as every call that acts on the length of the pending list is on it, and the
requests of a batch have room for their outputs: what a call returns is the result for its
own model and input, or an error of the engine on its request or batch. -/
theorem own_result {mem : Nat → Nat → Val}
    (hrun : Run (Batch.step eng) (fun s a => OwnPending s a ∧ Fits eng s a) (Sched.new mem) s) :
    (∀ u n, (s.calls u).pc = .returned (.ok n) → s.read (s.calls u).req.outputPtr n =
        eng.infer (s.calls u).req.modelIndex (s.calls u).input) ∧
    ∀ u e, (s.calls u).pc = .returned (.error e) → ∃ l ∈ s.failed, (s.calls u).req.ticket ∈ l := by
  have hinv : (∃ st, Held s st) ∧ Answers eng s := by
    refine Run.invariant (I := fun s => (∃ st, Held s st) ∧ Answers eng s) ?_
      ⟨⟨_, held_new mem⟩, answers_new eng mem⟩ hrun
    intro s a s' hI hok hstep
    obtain ⟨⟨st, h⟩, ha⟩ := hI
    obtain ⟨st', h'⟩ := h.step eng hok.1 hstep
    exact ⟨⟨st', h'⟩, ha.step eng h h' hok.2 hstep⟩
  constructor
  · intro u n hret
    have hfact := hinv.2.fact u
    rw [hret] at hfact
    exact hfact
  intro u e hret
  have hfact := hinv.2.fact u
  rw [hret] at hfact
  exact hfact

instance engine_decidable (P : List Nat → Prop) [∀ b, Decidable (P b)] (pc : Pc) :
    Decidable (match pc with
      | .engine _ batch _ _ => P batch
      | _ => True) := by
  cases pc <;> infer_instance

instance Fits.decidable (s : Sched Val) (a : Act Val) : Decidable (Fits eng s a) := by
  match a with
  | .submit .. =>
    unfold Fits
    infer_instance
  | .go t env => exact engine_decidable _ (s.calls t).pc
  | .resume _ | .fill _ _ => exact .isTrue trivial

def pairReturns : List (Act Nat) :=
  [.fill 1 [5], .fill 3 [7]] ++ pairServed ++
    [.go 0 calm, .go 0 calm, .go 0 calm, .go 0 calm, .go 0 calm, .go 0 calm, .go 0 calm,
      .go 0 calm, .go 0 calm, .go 0 calm, .go 1 calm, .go 1 calm, .go 1 calm]

theorem own_result_pair : ∃ s, Run (Batch.step adder) (fun s a => OwnPending s a ∧ Fits adder s a)
        (Sched.new fun _ _ => 0) s ∧
      (s.calls 1).pc = .returned (.ok 1) ∧ s.read (s.calls 1).req.outputPtr 1 = [7] := by
  have hrun := run_get (Batch.step adder) (fun s a => OwnPending s a ∧ Fits adder s a)
    pairReturns blank (by decide) (by decide)
  have hret : (((exec (Batch.step adder) blank pairReturns).get (by decide)).calls 1).pc =
      .returned (.ok 1) := by decide
  exact ⟨_, hrun, hret, (own_result adder hrun).1 1 1 hret⟩

def triples : Config := ⟨true, 3, 5000⟩

def late : Env := ⟨6000000, 5000, none⟩

/-- Call 2 has claimed the slots of calls 0 and 1 with its own and is waiting for the
slabs; call 3 with another model starts the next batch, whose time runs out, and the waiter
0 claims that batch, in which its own slot is not. -/
def waiterFlushes : List (Act Nat) :=
  [.submit 0 0 1 1 2 1 triples 0 0, .submit 1 0 3 1 4 1 triples 0 0,
    .submit 2 0 5 1 6 1 triples 0 0, .go 0 calm, .go 1 calm, .go 0 calm, .go 2 calm, .go 2 calm,
    .submit 3 1 7 1 8 1 triples 0 0, .go 3 calm, .go 0 late, .go 0 late, .go 0 late,
    .go 0 late, .go 0 late, .go 0 late, .go 0 late, .go 0 late]

/-- The waiter gets an error although no call of the engine has failed. -/
theorem waiter_fails_alone :
    ∃ s, exec (Batch.step adder) (Sched.new fun _ _ => 0) waiterFlushes = some s ∧
      (s.calls 0).pc = .returned (.error .internalError) ∧ s.failed = [] :=
  ⟨_, rfl, rfl, rfl⟩

end SlmOs.Batch
