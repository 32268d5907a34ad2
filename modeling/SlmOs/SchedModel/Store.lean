import SlmOs.Foundation.Transition
import SlmOs.SchedModel.Blob

/-!
# The scheduler's model stores

`kernel/sched/ai/runtime_model.c`.  A store has three slots and gives each a role, staged,
active or rollback; the operations move the roles.  The weights of the two dense stores are
in a pool of their own, by row and slot.  Every section of `sched_model_lock` is one step;
staging takes `sched_model_stage_lock` first and parses into the scratch buffers under it.

A call for the XGBoost kind goes to a store on the Rust side and is `forwarded` here.
-/

namespace SlmOs.SchedModel

open Function Foundation

abbrev SlotIdx := Fin 3

def slotStaged : SlotIdx := 0
def slotActive : SlotIdx := 1
def slotRollback : SlotIdx := 2

inductive StoreIdx where
  | mlp
  | ppo
  | config
  | thresholds
  | rebalance
  deriving DecidableEq, Repr

def StoreIdx.toNat : StoreIdx → Nat
  | .mlp => 0
  | .ppo => 1
  | .config => 2
  | .thresholds => 3
  | .rebalance => 4

def StoreIdx.ofNat? : Nat → Option StoreIdx
  | 0 => some .mlp
  | 1 => some .ppo
  | 2 => some .config
  | 3 => some .thresholds
  | 4 => some .rebalance
  | _ => none

def storeIndex (kindId : Nat) : Option StoreIdx :=
  if kindId = kindMlp then some .mlp
  else if kindId = kindPpo then some .ppo
  else if kindId = kindConfig then some .config
  else if kindId = kindThresholds then some .thresholds
  else if kindId = kindRebalance then some .rebalance
  else none

abbrev PoolRow := Fin 2

def densePoolRow : StoreIdx → Option PoolRow
  | .mlp => some 0
  | .ppo => some 1
  | .config | .thresholds | .rebalance => none

inductive ModelState where
  | empty
  | staged
  | active
  | rolledBack
  deriving DecidableEq, Repr

/-- A slot; its payload is `none` while all the bytes of the union are zero. -/
structure ModelSlot where
  present : Bool
  readers : Nat
  info : ModelMeta
  payload : Option Payload
  deriving DecidableEq, Repr

def ModelSlot.zero : ModelSlot := ⟨false, 0, .zero, none⟩

structure ModelStore where
  slots : SlotIdx → ModelSlot
  stagedIdx : SlotIdx
  activeIdx : SlotIdx
  rollbackIdx : SlotIdx
  currentState : ModelState

def ModelStore.init : ModelStore :=
  ⟨fun _ => .zero, slotStaged, slotActive, slotRollback, .empty⟩

/-- The scratch buffers while the stage lock is held, with the arguments of the call. -/
structure Staging where
  kindId : Nat
  data : Bytes
  store : StoreIdx
  scratch : Parsed

/-- An entry of the pool is `none` while all its bytes are zero. -/
structure State where
  stores : StoreIdx → ModelStore
  densePool : PoolRow → SlotIdx → Option MlpModel
  staging : Option Staging

def State.init : State :=
  ⟨fun _ => .init, fun _ _ => none, none⟩

inductive Result where
  | ok
  | error
  | forwarded
  deriving DecidableEq, Repr

def roleBusy (store : ModelStore) (i : SlotIdx) : Bool :=
  (store.slots i).readers != 0

/-! ## Writing a slot -/

def writeSlot (s : State) (k : StoreIdx) (i : SlotIdx) (slot : ModelSlot)
    (dense : Option MlpModel) : State :=
  { s with
    stores := update s.stores k { s.stores k with slots := update (s.stores k).slots i slot }
    densePool := match densePoolRow k with
      | some row =>
        update s.densePool row (update (s.densePool row) i dense)
      | none => s.densePool }

def zeroSlot (s : State) (k : StoreIdx) (i : SlotIdx) : State :=
  writeSlot s k i .zero none

def setRoles (s : State) (k : StoreIdx) (staged active rollback : SlotIdx)
    (state : ModelState) : State :=
  { s with
    stores := update s.stores k
      { s.stores k with
        stagedIdx := staged
        activeIdx := active
        rollbackIdx := rollback
        currentState := state } }

/-! ## Staging -/

/-- The first half of `sched_model_stage_blob`, up to the lock of the stores. -/
def stageParse (nActions : Nat) (s : State) (kindId : Nat) (data : Bytes) : State × Result :=
  if kindId = kindXgboost then (s, .forwarded)
  else
    match storeIndex kindId with
    | none => (s, .error)
    | some k =>
      match parseSchedBlob nActions kindId data with
      | none => (s, .error)
      | some parsed => ({ s with staging := some ⟨kindId, data, k, parsed⟩ }, .ok)

def stageCommit (s : State) (g : Staging) : State × Result :=
  let store := s.stores g.store
  let s := { s with staging := none }
  if (store.slots store.stagedIdx).readers ≠ 0 then (s, .error)
  else
    let slot : ModelSlot := ⟨true, 0, g.scratch.info, g.scratch.payload⟩
    let s := writeSlot s g.store store.stagedIdx slot g.scratch.dense
    (setRoles s g.store store.stagedIdx store.activeIdx store.rollbackIdx .staged, .ok)

/-! ## Roles -/

def modelActivate (s : State) (kindId : Nat) : State × Result :=
  if kindId = kindXgboost then (s, .forwarded)
  else
    match storeIndex kindId with
    | none => (s, .error)
    | some k =>
      let store := s.stores k
      if !(store.slots store.stagedIdx).present then (s, .error)
      else if roleBusy store store.rollbackIdx then (s, .error)
      else
        let s := setRoles s k store.rollbackIdx store.stagedIdx store.activeIdx .active
        (zeroSlot s k store.rollbackIdx, .ok)

def modelRollback (s : State) (kindId : Nat) : State × Result :=
  if kindId = kindXgboost then (s, .forwarded)
  else
    match storeIndex kindId with
    | none => (s, .error)
    | some k =>
      let store := s.stores k
      if !(store.slots store.rollbackIdx).present then (s, .error)
      else if roleBusy store store.stagedIdx || roleBusy store store.activeIdx then
        (s, .error)
      else
        let s := setRoles s k store.stagedIdx store.rollbackIdx store.activeIdx .rolledBack
        (zeroSlot s k store.stagedIdx, .ok)

def modelClear (s : State) (kindId : Nat) : State × Result :=
  if kindId = kindXgboost then (s, .forwarded)
  else
    match storeIndex kindId with
    | none => (s, .error)
    | some k =>
      let store := s.stores k
      if roleBusy store store.stagedIdx || roleBusy store store.activeIdx ||
          roleBusy store store.rollbackIdx then (s, .error)
      else
        let s := zeroSlot (zeroSlot (zeroSlot s k 0) k 1) k 2
        (setRoles s k slotStaged slotActive slotRollback .empty, .ok)

/-! ## Readers -/

inductive Pointer where
  | payload (store : StoreIdx) (slot : SlotIdx)
  | dense (row : PoolRow) (slot : SlotIdx)
  deriving DecidableEq, Repr

inductive Content where
  | payload (p : Option Payload)
  | dense (m : Option MlpModel)
  deriving DecidableEq, Repr

def State.deref (s : State) : Pointer → Content
  | .payload k i => .payload ((s.stores k).slots i).payload
  | .dense row i => .dense (s.densePool row i)

def encodeToken (k : StoreIdx) (i : SlotIdx) : Nat :=
  (((k.toNat &&& 0xFF) <<< 8) ||| (i.val &&& 0xFF)) + 1

def decodeToken (token : Nat) : Option (StoreIdx × SlotIdx) :=
  if token = 0 then none
  else
    match StoreIdx.ofNat? (((token - 1) >>> 8) &&& 0xFF) with
    | none => none
    | some k =>
      if h : (token - 1) &&& 0xFF < 3 then some (k, ⟨(token - 1) &&& 0xFF, h⟩) else none

def setReaders (s : State) (k : StoreIdx) (i : SlotIdx) (readers : Nat) : State :=
  { s with
    stores := update s.stores k
      { s.stores k with
        slots := update (s.stores k).slots i { (s.stores k).slots i with readers := readers } } }

def payloadPointer (k : StoreIdx) (i : SlotIdx) : Pointer :=
  match densePoolRow k with
  | some row => .dense row i
  | none => .payload k i

/-- `sched_runtime_dense_acquire` for the dense stores, `sched_runtime_acquire_slot` for
the others. -/
def runtimeAcquire (s : State) (k : StoreIdx) : State × Option (Pointer × Nat) :=
  let activeIdx := (s.stores k).activeIdx
  let slot := (s.stores k).slots activeIdx
  if !slot.present then (s, none)
  else
    -- a `uint32_t`
    (setReaders s k activeIdx ((slot.readers + 1) % 2 ^ 32),
      some (payloadPointer k activeIdx, encodeToken k activeIdx))

def runtimeRelease (s : State) (token : Nat) : State :=
  match decodeToken token with
  | none => s
  | some (k, i) =>
    let readers := ((s.stores k).slots i).readers
    if readers > 0 then setReaders s k i (readers - 1) else s

/-! ## Runs -/

/-- A token that is not released yet, with what it pointed to when it was handed out. -/
structure Held where
  pointer : Pointer
  token : Nat
  seen : Content
  deriving DecidableEq, Repr

structure World where
  kernel : State
  held : List Held

def World.init : World := ⟨.init, []⟩

inductive Action where
  | stageParse (kindId : Nat) (data : Bytes)
  | stageCommit
  | activate (kindId : Nat)
  | rollback (kindId : Nat)
  | clear (kindId : Nat)
  | acquire (store : StoreIdx)
  | release (h : Held)
  deriving DecidableEq, Repr

/--
One section of a lock.  A call that stages waits while the stage lock is taken, and only a
token that is held is released.
-/
def step (nActions : Nat) (w : World) : Action → Option World
  | .stageParse kindId data =>
    if w.kernel.staging.isSome then none
    else some { w with kernel := (stageParse nActions w.kernel kindId data).1 }
  | .stageCommit =>
    w.kernel.staging.map fun g => { w with kernel := (stageCommit w.kernel g).1 }
  | .activate kindId => some { w with kernel := (modelActivate w.kernel kindId).1 }
  | .rollback kindId => some { w with kernel := (modelRollback w.kernel kindId).1 }
  | .clear kindId => some { w with kernel := (modelClear w.kernel kindId).1 }
  | .acquire k =>
    let r := runtimeAcquire w.kernel k
    match r.2 with
    | none => some w
    | some (pointer, token) =>
      some ⟨r.1, ⟨pointer, token, r.1.deref pointer⟩ :: w.held⟩
  | .release h =>
    if h ∈ w.held then some ⟨runtimeRelease w.kernel h.token, w.held.erase h⟩ else none

def World.outstanding (w : World) (k : StoreIdx) (i : SlotIdx) : Nat :=
  w.held.countP fun h => h.token = encodeToken k i

end SlmOs.SchedModel
