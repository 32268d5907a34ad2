import SlmOs.SchedModel.Store

/-!
# Readers and roles of the model stores

A slot is overwritten only while nobody reads it, whichever role it has.  So the readers of
a slot are counted, what they read stays as it is, and the three slots act as three
optional models.
-/

namespace SlmOs.SchedModel

open Function Foundation Option List

/-! ## Slots and what is reached through them -/

def State.reach (s : State) (k : StoreIdx) (i : SlotIdx) : Content :=
  s.deref (payloadPointer k i)

def State.dense (s : State) (k : StoreIdx) (i : SlotIdx) : Option (Option MlpModel) :=
  (densePoolRow k).map fun row => s.densePool row i

def State.readers (s : State) (k : StoreIdx) (i : SlotIdx) : Nat :=
  ((s.stores k).slots i).readers

theorem reach_congr {s s' : State} {k : StoreIdx} {i : SlotIdx}
    (hpayload : ((s'.stores k).slots i).payload = ((s.stores k).slots i).payload)
    (hdense : s'.dense k i = s.dense k i) : s'.reach k i = s.reach k i := by
  unfold State.dense at hdense
  unfold State.reach payloadPointer
  cases hrow : densePoolRow k with
  | none => exact congrArg Content.payload hpayload
  | some row =>
    rw [hrow] at hdense
    exact congrArg Content.dense (some.inj hdense)

section Writes

variable (s : State) (k k' : StoreIdx) (i j : SlotIdx)

theorem slots_writeSlot (slot : ModelSlot) (dense : Option MlpModel) :
    ((writeSlot s k i slot dense).stores k').slots j =
      if k' = k ∧ j = i then slot else (s.stores k').slots j := by
  by_cases hk : k' = k
  · subst hk
    by_cases hj : j = i <;> simp [writeSlot, hj]
  · simp [writeSlot, hk]

theorem dense_writeSlot (slot : ModelSlot) (dense : Option MlpModel) :
    (writeSlot s k i slot dense).dense k' j =
      if k' = k ∧ j = i then (densePoolRow k).map fun _ => dense
      else s.dense k' j := by
  by_cases hj : j = i
  · subst hj
    cases k <;> cases k' <;> simp [writeSlot, State.dense, densePoolRow]
  · cases k <;> cases k' <;> simp [writeSlot, State.dense, densePoolRow, hj]

@[simp] theorem roles_writeSlot (slot : ModelSlot) (dense : Option MlpModel) :
    ((writeSlot s k i slot dense).stores k').stagedIdx = (s.stores k').stagedIdx ∧
    ((writeSlot s k i slot dense).stores k').activeIdx = (s.stores k').activeIdx ∧
    ((writeSlot s k i slot dense).stores k').rollbackIdx = (s.stores k').rollbackIdx := by
  by_cases hk : k' = k
  · subst hk
    simp [writeSlot]
  · simp [writeSlot, hk]

@[simp] theorem slots_setRoles (a b c : SlotIdx) (st : ModelState) :
    ((setRoles s k a b c st).stores k').slots = (s.stores k').slots := by
  by_cases hk : k' = k
  · subst hk
    simp [setRoles]
  · simp [setRoles, hk]

@[simp] theorem dense_setRoles (a b c : SlotIdx) (st : ModelState) :
    (setRoles s k a b c st).dense k' j = s.dense k' j := rfl

theorem slots_setReaders (n : Nat) : ((setReaders s k i n).stores k').slots j =
      if k' = k ∧ j = i then { (s.stores k).slots i with readers := n }
      else (s.stores k').slots j := by
  by_cases hk : k' = k
  · subst hk
    by_cases hj : j = i <;> simp [setReaders, hj]
  · simp [setReaders, hk]

@[simp] theorem dense_setReaders (n : Nat) : (setReaders s k i n).dense k' j = s.dense k' j := rfl

end Writes

theorem setRoles_self (s : State) (k : StoreIdx) (a b c : SlotIdx) (st : ModelState) :
    (setRoles s k a b c st).stores k = ⟨(s.stores k).slots, a, b, c, st⟩ := by
  simp [setRoles]

theorem setRoles_ne (s : State) (hk : k' ≠ k) (a b c : SlotIdx)
    (st : ModelState) : (setRoles s k a b c st).stores k' = s.stores k' := by
  simp [setRoles, hk]

/-! ## Writes that no reader notices -/

def Quiet (s s' : State) : Prop :=
  ∀ k i, s'.readers k i = s.readers k i ∧ (s.readers k i ≠ 0 → s'.reach k i = s.reach k i)

theorem Quiet.trans (h : Quiet s t) (h' : Quiet t u) : Quiet s u := by
  intro k i
  obtain ⟨hreaders, hreach⟩ := h k i
  obtain ⟨hreaders', hreach'⟩ := h' k i
  refine ⟨hreaders'.trans hreaders, fun hbusy => ?_⟩
  rw [hreach' (hreaders ▸ hbusy), hreach hbusy]

theorem quiet_writeSlot (dense : Option MlpModel) (hslot : slot.readers = 0)
    (hidle : s.readers k i = 0) : Quiet s (writeSlot s k i slot dense) := by
  intro k' j
  by_cases h : k' = k ∧ j = i
  · obtain ⟨rfl, rfl⟩ := h
    refine ⟨?_, fun hbusy => absurd hidle hbusy⟩
    rw [State.readers, slots_writeSlot, if_pos ⟨rfl, rfl⟩, hslot, hidle]
  have hsame : ((writeSlot s k i slot dense).stores k').slots j = (s.stores k').slots j := by
    rw [slots_writeSlot, if_neg h]
  refine ⟨congrArg ModelSlot.readers hsame, fun _ => ?_⟩
  apply reach_congr (congrArg ModelSlot.payload hsame)
  rw [dense_writeSlot, if_neg h]

theorem quiet_zeroSlot (hidle : s.readers k i = 0) : Quiet s (zeroSlot s k i) :=
  quiet_writeSlot none rfl hidle

theorem quiet_setRoles (s : State) (k : StoreIdx) (a b c : SlotIdx) (st : ModelState) :
    Quiet s (setRoles s k a b c st) := by
  intro k' j
  have hsame := congrFun (slots_setRoles s k k' a b c st) j
  exact ⟨congrArg ModelSlot.readers hsame, fun _ =>
    reach_congr (congrArg ModelSlot.payload hsame) rfl⟩

/-! ## Three optional models -/

structure Model where
  info : ModelMeta
  payload : Option Payload
  dense : Option (Option MlpModel)
  deriving DecidableEq, Repr

def State.model (s : State) (k : StoreIdx) (i : SlotIdx) : Option Model :=
  let slot := (s.stores k).slots i
  if slot.present then some ⟨slot.info, slot.payload, s.dense k i⟩ else none

structure Triple where
  staged : Option Model
  active : Option Model
  rollback : Option Model
  deriving DecidableEq, Repr

def State.triple (s : State) (k : StoreIdx) : Triple :=
  ⟨s.model k (s.stores k).stagedIdx, s.model k (s.stores k).activeIdx,
    s.model k (s.stores k).rollbackIdx⟩

def Staging.model (g : Staging) : Model :=
  ⟨g.scratch.info, g.scratch.payload, (densePoolRow g.store).map fun _ => g.scratch.dense⟩

inductive Call where
  | activate
  | rollback
  | clear
  deriving DecidableEq, Repr

def Call.run : Call → State → Nat → State × Result
  | .activate => modelActivate
  | .rollback => modelRollback
  | .clear => modelClear

def Call.effect : Call → Triple → Triple
  | .activate, t => ⟨none, t.staged, t.active⟩
  | .rollback, t => ⟨none, t.rollback, t.active⟩
  | .clear, _ => ⟨none, none, none⟩

theorem model_congr {s s' : State} {k : StoreIdx} {i : SlotIdx}
    (hslot : ((s'.stores k).slots i).present = ((s.stores k).slots i).present ∧
      ((s'.stores k).slots i).info = ((s.stores k).slots i).info ∧
      ((s'.stores k).slots i).payload = ((s.stores k).slots i).payload)
    (hdense : s'.dense k i = s.dense k i) : s'.model k i = s.model k i := by
  unfold State.model
  dsimp only
  rw [hslot.1, hslot.2.1, hslot.2.2, hdense]

theorem model_zeroSlot (s : State) (k k' : StoreIdx) (i j : SlotIdx) : (zeroSlot s k i).model k' j =
      if k' = k ∧ j = i then none else s.model k' j := by
  split
  · rename_i h
    simp [State.model, zeroSlot, slots_writeSlot, h, ModelSlot.zero]
  rename_i h
  apply model_congr <;> simp [zeroSlot, slots_writeSlot, dense_writeSlot, h]

@[simp] theorem model_setRoles (s : State) (k k' : StoreIdx) (j a b c : SlotIdx)
    (st : ModelState) : (setRoles s k a b c st).model k' j = s.model k' j := by
  apply model_congr <;> simp

structure Performs (s s' : State) (k : StoreIdx) (f : Triple → Triple) : Prop where
  quiet : Quiet s s'
  roles : ((s'.stores k).slots (s'.stores k).stagedIdx).readers = 0 ∧
    [(s'.stores k).stagedIdx, (s'.stores k).activeIdx, (s'.stores k).rollbackIdx].Nodup
  others : ∀ k' ≠ k, (s'.stores k').stagedIdx = (s.stores k').stagedIdx ∧
    (s'.stores k').activeIdx = (s.stores k').activeIdx ∧
    (s'.stores k').rollbackIdx = (s.stores k').rollbackIdx
  triple : s'.triple = update s.triple k (f (s.triple k))

theorem zeroSlot_setRoles (s : State) (k : StoreIdx) (i a b c : SlotIdx) (st : ModelState) :
    zeroSlot (setRoles s k a b c st) k i = setRoles (zeroSlot s k i) k a b c st := by
  simp [zeroSlot, writeSlot, setRoles]

theorem performs_setRoles {f : Triple → Triple} (st : ModelState) (hquiet : Quiet s t)
    (hroles : ∀ k', (t.stores k').stagedIdx = (s.stores k').stagedIdx ∧
      (t.stores k').activeIdx = (s.stores k').activeIdx ∧
      (t.stores k').rollbackIdx = (s.stores k').rollbackIdx)
    (hothers : ∀ k' ≠ k, ∀ j, t.model k' j = s.model k' j)
    (hnodup : [a, b, c].Nodup) (hidle : s.readers k a = 0)
    (htriple : ⟨t.model k a, t.model k b, t.model k c⟩ = f (s.triple k)) :
    Performs s (setRoles t k a b c st) k f where
  quiet := hquiet.trans (quiet_setRoles t k a b c st)
  roles := by
    rw [setRoles_self]
    exact ⟨(hquiet k a).1.trans hidle, hnodup⟩
  others := by
    intro k' hk
    rw [setRoles_ne t hk]
    exact hroles k'
  triple := by
    funext k'
    by_cases hk : k' = k
    · subst hk
      simp only [State.triple, update_self, model_setRoles, setRoles_self]
      exact htriple
    obtain ⟨hstaged, hactive, hrollback⟩ := hroles k'
    simp only [State.triple, update_of_ne hk, model_setRoles,
      setRoles_ne t hk, hstaged, hactive, hrollback, hothers k' hk]

theorem nodup_roles : [a, b, c].Nodup ↔ a ≠ b ∧ a ≠ c ∧ b ≠ c := by
  simp [and_assoc]

theorem roleBusy_eq_false : roleBusy store i = false ↔ (store.slots i).readers = 0 := by
  simp [roleBusy]

/-- Activation and rollback empty the slot that becomes the staged one. -/
theorem recycle_performs {f : Triple → Triple} (st : ModelState) (hnodup : [a, b, c].Nodup)
    (hidle : s.readers k a = 0) (htriple : ⟨none, s.model k b, s.model k c⟩ = f (s.triple k)) :
    Performs s (zeroSlot (setRoles s k a b c st) k a) k f := by
  obtain ⟨hab, hac, -⟩ := nodup_roles.mp hnodup
  rw [zeroSlot_setRoles]
  apply performs_setRoles st (quiet_zeroSlot hidle) (fun k' => roles_writeSlot s k k' _ _ _)
    _ hnodup hidle
  · simp [model_zeroSlot, hab.symm, hac.symm, ← htriple]
  · intro k' hk j
    simp [model_zeroSlot, hk]

theorem roles_cover (h : [a, b, c].Nodup) (i : SlotIdx) : i = a ∨ i = b ∨ i = c := by
  revert a b c i
  decide

theorem modelClear_performs (hidle : ∀ i, s.readers k i = 0) :
    Performs s (setRoles (zeroSlot (zeroSlot (zeroSlot s k 0) k 1) k 2) k slotStaged
      slotActive slotRollback .empty) k Call.clear.effect := by
  have h₀ : Quiet s (zeroSlot s k 0) := quiet_zeroSlot (hidle 0)
  have h₁ : Quiet (zeroSlot s k 0) (zeroSlot (zeroSlot s k 0) k 1) :=
    quiet_zeroSlot ((h₀ k 1).1.trans (hidle 1))
  have h₂ : Quiet (zeroSlot (zeroSlot s k 0) k 1) (zeroSlot (zeroSlot (zeroSlot s k 0) k 1) k 2) :=
    quiet_zeroSlot (((h₀.trans h₁) k 2).1.trans (hidle 2))
  apply performs_setRoles .empty ((h₀.trans h₁).trans h₂)
  · intro k'
    simp [zeroSlot]
  · intro k' hk j
    simp [model_zeroSlot, hk]
  · decide
  · exact hidle slotStaged
  · simp [model_zeroSlot, Call.effect, slotStaged, slotActive, slotRollback]

theorem stageCommit_performs (hnodup : [(s.stores g.store).stagedIdx, (s.stores g.store).activeIdx,
      (s.stores g.store).rollbackIdx].Nodup)
    (hidle : s.readers g.store (s.stores g.store).stagedIdx = 0) :
    (stageCommit s g).2 = .ok ∧ (stageCommit s g).1.staging = none ∧
      Performs s (stageCommit s g).1 g.store fun t => { t with staged := some g.model } := by
  have hok : stageCommit s g = (setRoles (writeSlot { s with staging := none } g.store
      (s.stores g.store).stagedIdx ⟨true, 0, g.scratch.info, g.scratch.payload⟩
      g.scratch.dense) g.store (s.stores g.store).stagedIdx (s.stores g.store).activeIdx
      (s.stores g.store).rollbackIdx .staged, .ok) := by
    exact if_neg (not_not_intro hidle)
  rw [hok]
  refine ⟨rfl, rfl, ?_⟩
  have hmodel : ∀ k' j, (writeSlot { s with staging := none } g.store
      (s.stores g.store).stagedIdx ⟨true, 0, g.scratch.info, g.scratch.payload⟩
      g.scratch.dense).model k' j =
        if k' = g.store ∧ j = (s.stores g.store).stagedIdx then some g.model
        else s.model k' j := by
    intro k' j
    split
    · rename_i h
      simp [State.model, slots_writeSlot, dense_writeSlot, h, Staging.model]
    rename_i h
    apply model_congr
    · simp [slots_writeSlot, h]
    rw [dense_writeSlot, if_neg h]
    rfl
  have hquiet : Quiet s { s with staging := none } := fun k i => ⟨rfl, fun _ => rfl⟩
  apply performs_setRoles .staged (hquiet.trans (quiet_writeSlot _ rfl hidle))
    (fun k' => roles_writeSlot _ g.store k' _ _ _)
  · intro k' hk j
    rw [hmodel, if_neg fun h => hk h.1]
  · exact hnodup
  · exact hidle
  obtain ⟨hsa, hsr, -⟩ := nodup_roles.mp hnodup
  simp [hmodel, hsa.symm, hsr.symm, State.triple]

theorem call_cases (c : Call) (kindId : Nat)
    (hnodup : ∀ k, [(s.stores k).stagedIdx, (s.stores k).activeIdx,
      (s.stores k).rollbackIdx].Nodup) :
    ((c.run s kindId).1 = s ∧ (c.run s kindId).2 ≠ .ok) ∨
      (c.run s kindId).2 = .ok ∧ (c.run s kindId).1.staging = s.staging ∧
        ∃ k, storeIndex kindId = some k ∧ Performs s (c.run s kindId).1 k c.effect := by
  by_cases hxgb : kindId = kindXgboost
  · left
    cases c <;> simp [Call.run, modelActivate, modelRollback, modelClear, hxgb]
  rcases hk : storeIndex kindId with _ | k
  · left
    cases c <;> simp [Call.run, modelActivate, modelRollback, modelClear, hxgb, hk]
  obtain ⟨hsa, hsr, har⟩ := nodup_roles.mp (hnodup k)
  cases c with
  | activate =>
    simp only [Call.run, modelActivate, if_neg hxgb, hk]
    split
    · exact .inl ⟨rfl, nofun⟩
    split
    · exact .inl ⟨rfl, nofun⟩
    rename_i hbusy
    rw [Bool.not_eq_true, roleBusy_eq_false] at hbusy
    have hroles := nodup_roles.mpr ⟨hsr.symm, har.symm, hsa⟩
    exact .inr ⟨rfl, rfl, k, rfl, recycle_performs .active hroles hbusy rfl⟩
  | rollback =>
    simp only [Call.run, modelRollback, if_neg hxgb, hk]
    split
    · exact .inl ⟨rfl, nofun⟩
    split
    · exact .inl ⟨rfl, nofun⟩
    rename_i hbusy
    rw [Bool.not_eq_true, Bool.or_eq_false_iff, roleBusy_eq_false] at hbusy
    have hroles := nodup_roles.mpr ⟨hsr, hsa, har.symm⟩
    exact .inr ⟨rfl, rfl, k, rfl, recycle_performs .rolledBack hroles hbusy.1 rfl⟩
  | clear =>
    simp only [Call.run, modelClear, if_neg hxgb, hk]
    split
    · exact .inl ⟨rfl, nofun⟩
    rename_i hbusy
    rw [Bool.not_eq_true, Bool.or_eq_false_iff, Bool.or_eq_false_iff,
      roleBusy_eq_false, roleBusy_eq_false, roleBusy_eq_false] at hbusy
    refine .inr ⟨rfl, rfl, k, rfl, modelClear_performs fun i => ?_⟩
    rcases roles_cover (hnodup k) i with rfl | rfl | rfl
    · exact hbusy.1.1
    · exact hbusy.1.2
    · exact hbusy.2

/-! ## Tokens -/

@[simp] theorem decodeToken_encodeToken (k : StoreIdx) (i : SlotIdx) :
    decodeToken (encodeToken k i) = some (k, i) := by
  revert i
  cases k <;> decide

theorem encodeToken_inj : encodeToken k i = encodeToken k' i' ↔ k = k' ∧ i = i' := by
  constructor
  · intro h
    have hdecode := congrArg decodeToken h
    simpa using hdecode
  rintro ⟨rfl, rfl⟩
  rfl

theorem readers_setReaders (s : State) (k k' : StoreIdx) (i j : SlotIdx) (n : Nat) :
    (setReaders s k i n).readers k' j =
      if k' = k ∧ j = i then n else s.readers k' j := by
  unfold State.readers
  rw [slots_setReaders]
  split <;> rfl

theorem reach_setReaders (s : State) (k k' : StoreIdx) (i j : SlotIdx) (n : Nat) :
    (setReaders s k i n).reach k' j = s.reach k' j := by
  refine reach_congr ?_ rfl
  rw [slots_setReaders]
  split
  · rename_i h
    obtain ⟨rfl, rfl⟩ := h
    rfl
  · rfl

@[simp] theorem roles_setReaders (s : State) (k k' : StoreIdx) (i : SlotIdx) (n : Nat) :
    ((setReaders s k i n).stores k').stagedIdx = (s.stores k').stagedIdx ∧
    ((setReaders s k i n).stores k').activeIdx = (s.stores k').activeIdx ∧
    ((setReaders s k i n).stores k').rollbackIdx = (s.stores k').rollbackIdx := by
  by_cases hk : k' = k
  · subst hk
    simp [setReaders]
  · simp [setReaders, hk]

theorem triple_setReaders (s : State) (k : StoreIdx) (i : SlotIdx) (n : Nat) :
    (setReaders s k i n).triple = s.triple := by
  funext k'
  have hmodel : ∀ j, (setReaders s k i n).model k' j = s.model k' j := by
    intro j
    refine model_congr ?_ rfl
    rw [slots_setReaders]
    split
    · rename_i h
      obtain ⟨rfl, rfl⟩ := h
      exact ⟨rfl, rfl, rfl⟩
    · exact ⟨rfl, rfl, rfl⟩
  obtain ⟨hstaged, hactive, hrollback⟩ := roles_setReaders s k k' i n
  simp only [State.triple, hmodel, hstaged, hactive, hrollback]

/-! ## The invariant -/

structure Inv (nActions : Nat) (w : World) : Prop where
  nodup : ∀ k, [(w.kernel.stores k).stagedIdx, (w.kernel.stores k).activeIdx,
    (w.kernel.stores k).rollbackIdx].Nodup
  idle : ∀ k, w.kernel.readers k (w.kernel.stores k).stagedIdx = 0
  counts : ∀ k i, w.kernel.readers k i = w.outstanding k i
  seen : ∀ h ∈ w.held, ∃ k i, h.token = encodeToken k i ∧
    h.pointer = payloadPointer k i ∧ w.kernel.reach k i = h.seen
  parsed : ∀ g, w.kernel.staging = some g → storeIndex g.kindId = some g.store ∧
    parseSchedBlob nActions g.kindId g.data = some g.scratch

theorem outstanding_pos {w : World} {h : Held} (hmem : h ∈ w.held) {k : StoreIdx} {i : SlotIdx}
    (htoken : h.token = encodeToken k i) : 0 < w.outstanding k i :=
  countP_pos_iff.mpr ⟨h, hmem, by simpa using htoken⟩

theorem Inv.performs (h : Inv nActions w) {f : Triple → Triple} (hs : Performs w.kernel s' k f)
    (hstaging : ∀ g, s'.staging = some g → w.kernel.staging = some g) :
    Inv nActions { w with kernel := s' } where
  nodup := by
    intro k'
    by_cases hk : k' = k
    · subst hk
      exact hs.roles.2
    obtain ⟨hstaged, hactive, hrollback⟩ := hs.others k' hk
    rw [hstaged, hactive, hrollback]
    exact h.nodup k'
  idle := by
    intro k'
    by_cases hk : k' = k
    · subst hk
      exact hs.roles.1
    rw [(hs.others k' hk).1, (hs.quiet k' _).1]
    exact h.idle k'
  counts := fun k' i => (hs.quiet k' i).1.trans (h.counts k' i)
  seen := by
    intro x hx
    obtain ⟨k', i, htoken, hpointer, hreach⟩ := h.seen x hx
    refine ⟨k', i, htoken, hpointer, ?_⟩
    have hbusy : w.kernel.readers k' i ≠ 0 := by
      rw [h.counts]
      exact (outstanding_pos hx htoken).ne'
    exact ((hs.quiet k' i).2 hbusy).trans hreach
  parsed := fun g hg => h.parsed g (hstaging g hg)

theorem Inv.setReaders (h : Inv nActions w) (hactive : i = (w.kernel.stores k).stagedIdx → n = 0)
    (hcounts : ∀ k' j, World.outstanding ⟨w.kernel, held⟩ k' j =
      if k' = k ∧ j = i then n else w.outstanding k' j)
    (hseen : ∀ x ∈ held, x ∈ w.held ∨ x.token = encodeToken k i ∧
      x.pointer = payloadPointer k i ∧ w.kernel.reach k i = x.seen) :
    Inv nActions ⟨setReaders w.kernel k i n, held⟩ where
  nodup := by
    intro k'
    obtain ⟨hstaged, hact, hrollback⟩ := roles_setReaders w.kernel k k' i n
    rw [hstaged, hact, hrollback]
    exact h.nodup k'
  idle := by
    intro k'
    rw [(roles_setReaders w.kernel k k' i n).1, readers_setReaders]
    split
    · rename_i heq
      obtain ⟨rfl, heq⟩ := heq
      exact hactive heq.symm
    · exact h.idle k'
  counts := by
    intro k' j
    rw [readers_setReaders]
    refine Eq.trans ?_ (hcounts k' j).symm
    split
    · rfl
    · exact h.counts k' j
  seen := by
    intro x hx
    rcases hseen x hx with hx | ⟨htoken, hpointer, hreach⟩
    · obtain ⟨k', j, htoken, hpointer, hreach⟩ := h.seen x hx
      exact ⟨k', j, htoken, hpointer, (reach_setReaders ..).trans hreach⟩
    · exact ⟨k, i, htoken, hpointer, (reach_setReaders ..).trans hreach⟩
  parsed := h.parsed

/-! ## Steps -/

def HasRoom (w : World) : Action → Prop
  | .acquire k => w.outstanding k (w.kernel.stores k).activeIdx + 1 < 2 ^ 32
  | _ => True

instance : ∀ (w : World) (a : Action), Decidable (HasRoom w a)
  | _, .acquire _ => Nat.decLt _ _
  | _, .stageParse _ _ | _, .stageCommit | _, .activate _ | _, .rollback _
  | _, .clear _ | _, .release _ => .isTrue trivial

theorem init_inv (nActions : Nat) : Inv nActions .init where
  nodup := fun _ => (by decide : [slotStaged, slotActive, slotRollback].Nodup)
  idle := fun _ => rfl
  counts := fun _ _ => rfl
  seen := nofun
  parsed := nofun

theorem Inv.call (h : Inv nActions w) (c : Call) (kindId : Nat) :
    Inv nActions { w with kernel := (c.run w.kernel kindId).1 } := by
  rcases call_cases c kindId h.nodup with ⟨hsame, -⟩ | ⟨-, hstaging, k, -, hperforms⟩
  · rw [hsame]
    exact h
  · exact h.performs hperforms fun g hg => hstaging ▸ hg

theorem Inv.stageParse (h : Inv nActions w) (kindId : Nat) (data : Bytes) :
    Inv nActions { w with kernel := (stageParse nActions w.kernel kindId data).1 } := by
  unfold SchedModel.stageParse
  split
  · exact h
  split
  · exact h
  rename_i k hk
  split
  · exact h
  rename_i parsed hparsed
  refine ⟨h.nodup, h.idle, h.counts, h.seen, ?_⟩
  rintro g hg
  obtain rfl := some.inj hg
  exact ⟨hk, hparsed⟩

theorem runtimeAcquire_none (h : (runtimeAcquire s k).2 = none) : (runtimeAcquire s k).1 = s := by
  unfold runtimeAcquire at h ⊢
  dsimp only at h ⊢
  split at h
  · rename_i hpresent
    rw [if_pos hpresent]
  · cases h

theorem runtimeAcquire_some (h : (runtimeAcquire s k).2 = some r) :
    let i := (s.stores k).activeIdx
    (runtimeAcquire s k).1 = setReaders s k i ((s.readers k i + 1) % 2 ^ 32) ∧
      r = (payloadPointer k i, encodeToken k i) := by
  unfold runtimeAcquire at h ⊢
  dsimp only at h ⊢
  split at h
  · cases h
  rename_i hpresent
  rw [if_neg hpresent]
  exact ⟨rfl, (some.inj h).symm⟩

theorem Inv.acquire (h : Inv nActions w) (hroom : HasRoom w (.acquire k))
    (hstep : step nActions w (.acquire k) = some w') : Inv nActions w' := by
  simp only [step] at hstep
  split at hstep
  · cases hstep
    exact h
  rename_i pointer token hsome
  obtain ⟨hstate, hresult⟩ := runtimeAcquire_some hsome
  cases hresult
  obtain rfl := some.inj hstep
  have hcount : (w.kernel.readers k (w.kernel.stores k).activeIdx + 1) % 2 ^ 32 =
      w.outstanding k (w.kernel.stores k).activeIdx + 1 := by
    rw [h.counts]
    exact Nat.mod_eq_of_lt hroom
  rw [hstate, hcount]
  apply h.setReaders
  · intro heq
    exact absurd heq.symm (nodup_roles.mp (h.nodup k)).1
  · intro k' j
    unfold World.outstanding
    rw [countP_cons]
    simp only [encodeToken_inj, decide_eq_true_eq, eq_comm (a := k'), eq_comm (a := j)]
    split
    · rename_i heq
      obtain ⟨rfl, rfl⟩ := heq
      rfl
    · rfl
  intro x hx
  rcases mem_cons.mp hx with rfl | hx
  · exact .inr ⟨rfl, rfl, (reach_setReaders ..).symm⟩
  · exact .inl hx

theorem Inv.release (h : Inv nActions w) (hx : x ∈ w.held) :
    Inv nActions ⟨runtimeRelease w.kernel x.token, w.held.erase x⟩ := by
  obtain ⟨k, i, htoken, -, -⟩ := h.seen x hx
  have hpos := outstanding_pos hx htoken
  have hrelease : runtimeRelease w.kernel x.token =
      SchedModel.setReaders w.kernel k i (w.outstanding k i - 1) := by
    have hreaders : ((w.kernel.stores k).slots i).readers = w.outstanding k i := h.counts k i
    simp [runtimeRelease, htoken, hreaders, hpos]
  rw [hrelease]
  apply h.setReaders
  · rintro rfl
    have hidle := h.idle k
    rw [h.counts] at hidle
    omega
  · intro k' j
    unfold World.outstanding
    rw [countP_erase]
    simp only [hx, true_and, htoken, encodeToken_inj, decide_eq_true_eq, eq_comm (a := k'),
      eq_comm (a := j)]
    split
    · rename_i heq
      obtain ⟨rfl, rfl⟩ := heq
      rfl
    · rfl
  · exact fun y hy => .inl (mem_of_mem_erase hy)

theorem step_inv (w : World) (a : Action) (w' : World) (h : Inv nActions w)
    (hroom : HasRoom w a) (hstep : step nActions w a = some w') : Inv nActions w' := by
  cases a with
  | stageParse kindId data =>
    simp only [step] at hstep
    split at hstep
    · cases hstep
    obtain rfl := some.inj hstep
    exact h.stageParse kindId data
  | stageCommit =>
    obtain ⟨g, -, rfl⟩ := map_eq_some_iff.mp hstep
    obtain ⟨-, hstaging, hperforms⟩ :=
      stageCommit_performs (g := g) (h.nodup g.store) (h.idle g.store)
    apply h.performs hperforms
    rw [hstaging]
    exact nofun
  | activate kindId =>
    obtain rfl := some.inj hstep
    exact h.call .activate kindId
  | rollback kindId =>
    obtain rfl := some.inj hstep
    exact h.call .rollback kindId
  | clear kindId =>
    obtain rfl := some.inj hstep
    exact h.call .clear kindId
  | acquire k => exact h.acquire hroom hstep
  | release x =>
    simp only [step] at hstep
    split at hstep
    · rename_i hx
      obtain rfl := some.inj hstep
      exact h.release hx
    · cases hstep

theorem stageParse_triple (s : State) (kindId : Nat) (data : Bytes) :
    (stageParse nActions s kindId data).1.triple = s.triple ∧
      ((stageParse nActions s kindId data).2 ≠ .ok →
        (stageParse nActions s kindId data).1 = s) := by
  unfold stageParse
  split
  · exact ⟨rfl, fun _ => rfl⟩
  split
  · exact ⟨rfl, fun _ => rfl⟩
  split
  · exact ⟨rfl, fun _ => rfl⟩
  · exact ⟨rfl, fun h => absurd rfl h⟩

theorem runtimeAcquire_triple (s : State) (k : StoreIdx) :
    (runtimeAcquire s k).1.triple = s.triple := by
  rcases hr : (runtimeAcquire s k).2 with _ | r
  · rw [runtimeAcquire_none hr]
  rw [(runtimeAcquire_some hr).1]
  exact triple_setReaders ..

theorem runtimeRelease_triple (s : State) (token : Nat) :
    (runtimeRelease s token).triple = s.triple := by
  unfold runtimeRelease
  split
  · rfl
  dsimp only
  split
  · exact triple_setReaders ..
  · rfl

theorem perm_roles {a b c : SlotIdx} (h : [a, b, c].Nodup) : [a, b, c].Perm [0, 1, 2] := by
  revert a b c
  decide

/--
The stores in every run in which no counter of readers wraps around: the roles are a
permutation of the slots, the readers are counted and none of them is in the staged slot, a
token reaches what it reached when it was handed out, and each store acts as three optional
models.
-/
theorem model_store_safe {nActions : Nat} {w : World} (hrun : Run (step nActions) HasRoom .init w) :
    (∀ k, [(w.kernel.stores k).stagedIdx, (w.kernel.stores k).activeIdx,
      (w.kernel.stores k).rollbackIdx].Perm [0, 1, 2]) ∧
    (∀ k i, w.kernel.readers k i = w.outstanding k i) ∧
    (∀ k, w.outstanding k (w.kernel.stores k).stagedIdx = 0) ∧
    (∀ h ∈ w.held, w.kernel.deref h.pointer = h.seen) ∧
    (∀ (c : Call) kindId, ((c.run w.kernel kindId).2 = .ok → ∃ k, storeIndex kindId = some k ∧
        (c.run w.kernel kindId).1.triple =
          update w.kernel.triple k (c.effect (w.kernel.triple k))) ∧
      ((c.run w.kernel kindId).2 ≠ .ok → (c.run w.kernel kindId).1 = w.kernel)) ∧
    (∀ kindId data, (stageParse nActions w.kernel kindId data).1.triple = w.kernel.triple ∧
      ((stageParse nActions w.kernel kindId data).2 ≠ .ok →
        (stageParse nActions w.kernel kindId data).1 = w.kernel)) ∧
    (∀ g, w.kernel.staging = some g → storeIndex g.kindId = some g.store ∧
      parseSchedBlob nActions g.kindId g.data = some g.scratch ∧
      (stageCommit w.kernel g).2 = .ok ∧
      (stageCommit w.kernel g).1.triple = update w.kernel.triple g.store
        { w.kernel.triple g.store with staged := some g.model }) ∧
    (∀ k, (runtimeAcquire w.kernel k).1.triple = w.kernel.triple) ∧
    ∀ token, (runtimeRelease w.kernel token).triple = w.kernel.triple := by
  have h : Inv nActions w := hrun.invariant step_inv (init_inv nActions)
  refine ⟨fun k => perm_roles (h.nodup k), h.counts,
    fun k => (h.counts k _).symm.trans (h.idle k), ?_, ?_,
    fun kindId data => stageParse_triple w.kernel kindId data, ?_,
    runtimeAcquire_triple w.kernel, runtimeRelease_triple w.kernel⟩
  · intro x hx
    obtain ⟨k, i, -, hpointer, hreach⟩ := h.seen x hx
    rw [hpointer]
    exact hreach
  · intro c kindId
    rcases call_cases c kindId h.nodup with ⟨hsame, hfail⟩ | ⟨hok, -, k, hk, hperforms⟩
    · exact ⟨fun hok => absurd hok hfail, fun _ => hsame⟩
    · exact ⟨fun _ => ⟨k, hk, hperforms.triple⟩, fun hfail => absurd hok hfail⟩
  intro g hg
  obtain ⟨hk, hparsed⟩ := h.parsed g hg
  obtain ⟨hok, -, hperforms⟩ := stageCommit_performs (g := g) (h.nodup g.store) (h.idle g.store)
  exact ⟨hk, hparsed, hok, hperforms.triple⟩

/-- A blob of the rebalance kind: every 10 ticks, from an imbalance of 2 on. -/
def rebalanceTen : Bytes :=
  [83, 69, 77, 66, 1, 0, 5, 16, 1, 0, 0, 0, 24, 0, 0, 0, 21, 130, 200, 162, 0, 0, 0, 0,
    83, 82, 66, 49, 1, 0, 1, 0, 1, 0, 0, 0, 1, 0, 0, 0, 10, 0, 0, 0, 2, 0, 0, 0]

def rebalanceTwenty : Bytes :=
  [83, 69, 77, 66, 1, 0, 5, 16, 1, 0, 0, 0, 24, 0, 0, 0, 122, 11, 250, 119, 0, 0, 0, 0,
    83, 82, 66, 49, 1, 0, 1, 0, 1, 0, 0, 0, 1, 0, 0, 0, 20, 0, 0, 0, 3, 0, 0, 0]

def install (kindId : Nat) (data : Bytes) : List Action :=
  [.stageParse kindId data, .stageCommit, .activate kindId]

/-- A reader of the first model, while the second one is put into force. -/
theorem model_store_safe_swapped : ∃ w, Run (step 42) HasRoom .init w ∧
      w.held = [⟨.payload .rebalance 0, encodeToken .rebalance 0,
        .payload (some (.rebalance ⟨⟨1, 1, 0⟩, 1, 10, 2⟩))⟩] ∧
      (w.kernel.stores .rebalance).rollbackIdx = 0 ∧
      w.kernel.deref (.payload .rebalance 0) =
        .payload (some (.rebalance ⟨⟨1, 1, 0⟩, 1, 10, 2⟩)) := by
  have hview : (exec (step 42) .init (install kindRebalance rebalanceTen ++
      .acquire .rebalance :: install kindRebalance rebalanceTwenty)).map
        (fun w => (w.held, (w.kernel.stores .rebalance).rollbackIdx)) =
      some ([⟨.payload .rebalance 0, encodeToken .rebalance 0,
        .payload (some (.rebalance ⟨⟨1, 1, 0⟩, 1, 10, 2⟩))⟩], 0) := by
    decide +kernel
  obtain ⟨w, hexec, hw⟩ := map_eq_some_iff.mp hview
  obtain ⟨hheld, hrollback⟩ := Prod.mk.inj hw
  have hroom : Along (step 42) HasRoom .init (install kindRebalance rebalanceTen ++
      .acquire .rebalance :: install kindRebalance rebalanceTwenty) := by
    decide +kernel
  have hrun := run_of_exec (step 42) HasRoom _ _ w hroom hexec
  refine ⟨w, hrun, hheld, hrollback, ?_⟩
  exact (model_store_safe hrun).2.2.2.1 _ (hheld ▸ mem_singleton_self _)

/-! ## A counter that wraps around -/

structure Counted (w : World) (k : StoreIdx) (n : Nat) : Prop where
  present : ((w.kernel.stores k).slots (w.kernel.stores k).activeIdx).present = true
  readers : w.kernel.readers k (w.kernel.stores k).activeIdx = n % 2 ^ 32
  tokens : w.outstanding k (w.kernel.stores k).activeIdx = n

theorem Counted.acquire (nActions : Nat) (h : Counted w k n) :
    ∃ w', step nActions w (.acquire k) = some w' ∧ Counted w' k (n + 1) := by
  have hstep : step nActions w (.acquire k) = some
      ⟨setReaders w.kernel k (w.kernel.stores k).activeIdx ((n % 2 ^ 32 + 1) % 2 ^ 32),
        ⟨payloadPointer k (w.kernel.stores k).activeIdx,
          encodeToken k (w.kernel.stores k).activeIdx,
          (setReaders w.kernel k (w.kernel.stores k).activeIdx ((n % 2 ^ 32 + 1) % 2 ^ 32)).deref
              (payloadPointer k (w.kernel.stores k).activeIdx)⟩ :: w.held⟩ := by
    have hreaders := h.readers
    unfold State.readers at hreaders
    simp [step, runtimeAcquire, h.present, hreaders]
  have hactive := (roles_setReaders w.kernel k k (w.kernel.stores k).activeIdx
    ((n % 2 ^ 32 + 1) % 2 ^ 32)).2.1
  refine ⟨_, hstep, ?_, ?_, ?_⟩
  · simp only [hactive, slots_setReaders, h.present, and_self, if_true]
  · dsimp only
    rw [hactive, readers_setReaders, if_pos ⟨rfl, rfl⟩]
    omega
  have htokens := h.tokens
  unfold World.outstanding at htokens ⊢
  rw [hactive, countP_cons, htokens]
  simp

theorem Counted.acquire_many (nActions : Nat) (h : Counted w k 0) (n : Nat) :
    ∃ w', Run (step nActions) (fun _ _ => True) w w' ∧ Counted w' k n := by
  induction n with
  | zero => exact ⟨w, .refl w, h⟩
  | succ n ih =>
    obtain ⟨w', hrun, hw'⟩ := ih
    obtain ⟨w'', hstep, hw''⟩ := hw'.acquire nActions
    exact ⟨w'', .tail hrun trivial hstep, hw''⟩

/-- After `2 ^ 32` calls of acquire and none of release the counter is zero. -/
theorem readers_wrap : ∃ w, Run (step 42) (fun _ _ => True) .init w ∧
      w.kernel.readers .rebalance (w.kernel.stores .rebalance).activeIdx = 0 ∧
      w.outstanding .rebalance (w.kernel.stores .rebalance).activeIdx = 2 ^ 32 := by
  have hview : (exec (step 42) .init (install kindRebalance rebalanceTen)).map
      (fun w => (((w.kernel.stores .rebalance).slots
          (w.kernel.stores .rebalance).activeIdx).present,
        w.kernel.readers .rebalance (w.kernel.stores .rebalance).activeIdx,
        w.outstanding .rebalance (w.kernel.stores .rebalance).activeIdx)) =
      some (true, 0, 0) := by
    decide +kernel
  obtain ⟨w₀, hexec, hw₀⟩ := map_eq_some_iff.mp hview
  simp only [Prod.mk.injEq] at hw₀
  have hrun := run_exec _ hexec
  have hcounted : Counted w₀ .rebalance 0 := ⟨hw₀.1, hw₀.2.1, hw₀.2.2⟩
  obtain ⟨w, hmany, hw⟩ := hcounted.acquire_many 42 (2 ^ 32)
  exact ⟨w, hrun.trans hmany, hw.readers.trans (Nat.mod_self _), hw.tokens⟩

end SlmOs.SchedModel
