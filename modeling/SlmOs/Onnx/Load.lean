import SlmOs.Onnx.Payload

/-!
# Loading and swapping ONNX models

`load_model` and `swap_model` of `runtime/src/loader/registry.rs`, as one call each: what
they store in the registry.  The blocks that are given back on the way are the concern of
`SlmOs.Loader`.
-/

namespace SlmOs.Onnx

open Foundation ModelMem Loader

structure LoadedModelEntry where
  name : Bytes
  weights : ModelHandle
  workspace : ModelHandle
  graph : OperatorGraph
  weightTable : WeightTable
  info : ModelInfo
  active : Bool
  lastUsed : Nat
  useCount : Nat
  pinned : Bool
  gpuDispatchEnabled : Bool
  backendKind : BackendKind

def LoadedModelEntry.empty : LoadedModelEntry :=
  ⟨[], nullHandle, nullHandle, ⟨[], [], []⟩, .empty, ⟨[], 0, 0, 0, 0, 0, 0⟩, false, 0, 0, false,
    true, .cpuOnnx⟩

abbrev ModelRegistry := Nat → LoadedModelEntry

def ModelRegistry.freeSlot (reg : ModelRegistry) : Option Nat :=
  (List.range maxModels).find? fun i => !(reg i).active

def ModelRegistry.lruSlot (reg : ModelRegistry) : Option Nat :=
  ((List.range maxModels).foldl (fun (acc : Option Nat × Nat) i =>
    if (reg i).active && !(reg i).pinned && decide ((reg i).lastUsed < acc.2)
    then (some i, (reg i).lastUsed) else acc) (none, maxUsize)).1

def ModelRegistry.slotIdx (reg : ModelRegistry) : Option Nat :=
  reg.freeSlot.or reg.lruSlot

def Prepared.install (p : Prepared) (now : Nat) : LoadedModelEntry :=
  { LoadedModelEntry.empty with
    name := p.info.name
    weights := p.weights
    workspace := p.workspace
    graph := p.graph
    weightTable := p.weightTable
    info := p.info
    active := true
    lastUsed := now
    backendKind := .cpuOnnx }

def Prepared.replace (p : Prepared) (e : LoadedModelEntry) (now : Nat) : LoadedModelEntry :=
  { e with
    name := p.info.name
    weights := p.weights
    workspace := p.workspace
    graph := p.graph
    weightTable := p.weightTable
    info := p.info
    lastUsed := now
    useCount := 0 }

def loadModel (fuel : Nat) (mm : Allocator) (now : Nat) (reg : ModelRegistry)
    (name data : Bytes) : Option (Except LoadError Nat × ModelRegistry) :=
  match prepareOnnxPayload fuel mm name data with
  | none => none
  | some (.error e) => some (.error e, reg)
  | some (.ok payload) =>
    match reg.slotIdx with
    | some idx => some (.ok idx, Function.update reg idx (payload.install now))
    | none => some (.error .modelTooLarge, reg)

/-- The checks of `swap_model`, before and after the payload is built. -/
def swapCheck (e : LoadedModelEntry) : Except LoadError Unit :=
  if e.active = false then .error .invalidIndex
  else if e.backendKind ≠ .cpuOnnx then .error .swapNotSupported
  else .ok ()

/-- `before` is the registry at the first check, `reg` the one at the second. -/
def swapModel (fuel : Nat) (mm : Allocator) (now : Nat) (before reg : ModelRegistry)
    (index : Nat) (name data : Bytes) : Option (Except LoadError Unit × ModelRegistry) :=
  if maxModels ≤ index then some (.error .invalidIndex, reg)
  else
    match swapCheck (before index) with
    | .error e => some (.error e, reg)
    | .ok () =>
      match prepareOnnxPayload fuel mm name data with
      | none => none
      | some (.error e) => some (.error e, reg)
      | some (.ok payload) =>
        match swapCheck (reg index) with
        | .error e => some (.error e, reg)
        | .ok () => some (.ok (), Function.update reg index (payload.replace (reg index) now))

theorem loadModel_eq_none_iff :
    loadModel fuel mm now reg name data = none ↔ prepareOnnxPayload fuel mm name data = none := by
  unfold loadModel
  cases prepareOnnxPayload fuel mm name data with
  | none => simp
  | some r =>
    cases r with
    | error e => simp
    | ok payload =>
      cases reg.slotIdx with
      | none | some idx => simp

theorem swapModel_eq_none_iff : swapModel fuel mm now before reg index name data = none ↔
      index < maxModels ∧ swapCheck (before index) = .ok () ∧
        prepareOnnxPayload fuel mm name data = none := by
  unfold swapModel
  split
  · simp
    omega
  cases swapCheck (before index) with
  | error e => simp
  | ok u =>
    cases prepareOnnxPayload fuel mm name data with
    | none => simp; omega
    | some r =>
      cases r with
      | error e => simp
      | ok payload =>
        cases swapCheck (reg index) with
        | error e | ok u => simp

end SlmOs.Onnx
