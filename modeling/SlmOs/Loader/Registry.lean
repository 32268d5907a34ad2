import SlmOs.ModelMem.Eviction

/-!
# Loading, swapping and using models

`runtime/src/loader/registry.rs` with the parts of `run_inference` that go to the
registry and the pools (`runtime/src/inference/engine.rs`).  Every section of the
registry's lock is one step, with the calls of the pools inside it, and so is every
section of the pools' lock outside of one.  What the parser says about a buffer, the
answers of the eviction policy and the clock are inputs; a model is known by the
number of the call that has parsed it, its version.
-/

namespace SlmOs.Loader

open Function Foundation ModelMem

def maxModels : Nat := 8

inductive BackendKind where
  | cpuOnnx
  | hailo
  | gpu
  deriving DecidableEq, Repr

inductive LoadError where
  | allocFailed
  | allocStaleHandle
  | allocInvalidHandle
  | allocInternal
  | invalidFormat
  | modelTooLarge
  | corruptedData
  | invalidIndex
  | swapNotSupported
  deriving DecidableEq, Repr

def LoadError.ofAlloc : AllocError → LoadError
  | .outOfMemory => .allocFailed
  | .staleHandle => .allocStaleHandle
  | .invalidHandle => .allocInvalidHandle

def poolId : PoolType → Nat
  | .weight => 0
  | .workspace => 1

def nullHandle : ModelHandle := ⟨0xFFFF, 0xFF, 0⟩

/-- `LoadedModelEntry`; `graph` and `weightTable` are the versions they are of. -/
structure Entry where
  weights : ModelHandle
  workspace : ModelHandle
  graph : Nat
  weightTable : Nat
  active : Bool
  lastUsed : Nat
  pinned : Bool
  backendKind : BackendKind
  deriving DecidableEq, Repr

def Entry.empty : Entry := ⟨nullHandle, nullHandle, 0, 0, false, 0, false, .cpuOnnx⟩

structure Payload where
  weights : ModelHandle
  workspace : ModelHandle
  graph : Nat
  weightTable : Nat
  deriving DecidableEq, Repr

def Payload.install (p : Payload) (now : Nat) : Entry :=
  { Entry.empty with
    weights := p.weights
    workspace := p.workspace
    graph := p.graph
    weightTable := p.weightTable
    active := true
    lastUsed := now
    backendKind := .cpuOnnx }

def Payload.replace (p : Payload) (e : Entry) (now : Nat) : Entry :=
  { e with
    weights := p.weights
    workspace := p.workspace
    graph := p.graph
    weightTable := p.weightTable
    lastUsed := now }

inductive Outcome where
  | loaded (index : Nat)
  | swapped
  | handle (h : ModelHandle)
  | failed (e : LoadError)
  | inferred
  | refused
  deriving DecidableEq, Repr

inductive Job where
  | load
  | swap (index : Fin maxModels)
  deriving DecidableEq, Repr

inductive Request where
  | weights (job : Job) (version : Nat)
  /-- The block of weights is there already. -/
  | workspace (job : Job) (version : Nat) (weights : ModelHandle)
  /-- A call of `alloc_weights` or `alloc_workspace` by somebody else. -/
  | bare (pool : PoolType)
  deriving DecidableEq, Repr

def Request.pool : Request → PoolType
  | .weights _ _ => .weight
  | .workspace _ _ _ => .workspace
  | .bare pool => pool

/-- A `WeightLease`, with the epoch of the block when it was taken. -/
structure Lease where
  handle : ModelHandle
  epoch : Nat
  deriving DecidableEq, Repr

/-- What `InferenceEngine::init` has fetched, with the epochs of the blocks when their
addresses were asked for. -/
structure Engine where
  graph : Nat
  weightTable : Nat
  weights : ModelHandle
  workspace : ModelHandle
  weightEpoch : Nat
  workspaceEpoch : Nat
  deriving DecidableEq, Repr

inductive Pc where
  | idle
  | preflight (index : Fin maxModels) (version : Nat) (parse : Option LoadError)
  | alloc (r : Request)
  | snapshot (r : Request)
  | consult (r : Request) (candidates : List (BlockMeta × Nat)) (stale : Nat)
  | reclaim (r : Request) (candidates : List (BlockMeta × Nat)) (stale victim : Nat)
  | retry (r : Request)
  | getPtr (job : Job) (version : Nat) (weights : ModelHandle)
  | fill (job : Job) (version : Nat) (weights : ModelHandle)
  | install (p : Payload)
  | replace (index : Fin maxModels) (p : Payload)
  | freeWeights (weights : ModelHandle) (workspace : Option ModelHandle) (r : Outcome)
  | freeWorkspace (workspace : ModelHandle) (r : Outcome)
  | acquire (index : Nat)
  | copyGraph (index : Nat) (l : Lease)
  | copyWeightTable (index : Nat) (l : Lease) (graph : Nat)
  | getWeights (index : Nat) (l : Lease) (graph weightTable : Nat)
  | getWorkspace (index : Nat) (l : Lease) (graph weightTable : Nat) (weights : ModelHandle)
  | weightBase (index : Nat) (l : Lease) (e : Engine)
  | workspacePtr (index : Nat) (l : Lease) (e : Engine)
  | run (index : Nat) (l : Lease) (e : Engine)
  | unshare (l : Lease) (r : Outcome)
  | returned (r : Outcome)
  deriving DecidableEq

structure Call where
  pc : Pc
  /-- A step of the call has changed the registry. -/
  wrote : Bool

structure World where
  pools : PoolType → History
  /-- The version that a block was last given to. -/
  given : PoolType → Nat → Option Nat
  /-- The blocks that somebody else has allocated. -/
  others : PoolType → Nat → Option ModelHandle
  entries : Nat → Entry
  calls : Nat → Call
  /-- The leases that are outstanding, each with the call that has it. -/
  leases : List (Nat × Lease)
  versions : Nat

def World.new (base count : PoolType → Nat) : World where
  pools := fun k => .init (base k) (count k)
  given := fun _ _ => none
  others := fun _ _ => none
  entries := fun _ => .empty
  calls := fun _ => ⟨.idle, false⟩
  leases := []
  versions := 0

namespace World

def perform (s : World) (k : PoolType) (op : Op) : World :=
  { s with pools := update s.pools k ((s.pools k).perform (poolId k) op) }

def goto (s : World) (t : Nat) (pc : Pc) : World :=
  { s with calls := update s.calls t { s.calls t with pc := pc } }

def setEntry (s : World) (i : Nat) (e : Entry) : World :=
  { s with entries := update s.entries i e }

def setGiven (s : World) (k : PoolType) (i : Nat) (v : Option Nat) : World :=
  { s with given := update s.given k (update (s.given k) i v) }

def setOther (s : World) (k : PoolType) (i : Nat) (h : Option ModelHandle) : World :=
  { s with others := update s.others k (update (s.others k) i h) }

def free (s : World) (h : ModelHandle) : World :=
  match poolType h.poolId with
  | none => s
  | some k => s.perform k (.free h)

def resolves (s : World) (h : ModelHandle) : Bool :=
  match poolType h.poolId with
  | none => false
  | some k => ((s.pools k).pool.getPtr h).isSome

def epochOf (s : World) (h : ModelHandle) : Nat :=
  match poolType h.poolId with
  | none => 0
  | some k => (s.pools k).epoch h.blockIndex

def give (s : World) (r : Request) (h : ModelHandle) : World :=
  match r with
  | .weights _ version => s.setGiven .weight h.blockIndex (some version)
  | .workspace _ version _ => s.setGiven .workspace h.blockIndex (some version)
  | .bare pool => (s.setGiven pool h.blockIndex none).setOther pool h.blockIndex (some h)

end World

def Request.granted (r : Request) (h : ModelHandle) : Pc :=
  match r with
  | .weights job version => .getPtr job version h
  | .workspace .load version w => .install ⟨w, h, version, version⟩
  | .workspace (.swap index) version w => .replace index ⟨w, h, version, version⟩
  | .bare _ => .returned (.handle h)

def Request.refused (r : Request) (e : AllocError) : Pc :=
  match r with
  | .workspace _ _ w => .freeWeights w none (.failed (.ofAlloc e))
  | _ => .returned (.failed (.ofAlloc e))

structure Input where
  now : Nat
  owner : Nat
  /-- The answer of `select_victim`. -/
  answer : Option Nat
  fault : Option LoadError
  deriving DecidableEq, Repr

def freeIdx (entries : Nat → Entry) : Option Nat :=
  (List.range maxModels).find? fun i => !(entries i).active

def lruIdx (entries : Nat → Entry) : Option Nat :=
  ((List.range maxModels).foldl (fun (acc : Option Nat × Nat) i =>
    if (entries i).active && !(entries i).pinned && decide ((entries i).lastUsed < acc.2)
    then (some i, (entries i).lastUsed) else acc) (none, maxU64)).1

/-- The slot that `load_model` installs into, emptied if it has to be. -/
def World.makeRoom (s : World) : World × Option Nat :=
  match freeIdx s.entries with
  | some i => (s, some i)
  | none =>
    match lruIdx s.entries with
    | none => (s, none)
    | some i =>
      (((s.free (s.entries i).weights).free (s.entries i).workspace).setEntry i .empty, some i)

/-- The steps of `alloc_with_eviction` and `evict_and_retry`. -/
def allocStep (s : World) (t : Nat) (inp : Input) : Pc → Option World
  | .alloc r =>
    match (s.pools r.pool).pool.alloc (poolId r.pool) inp.now inp.owner with
    | .ok (_, h) =>
      some (((s.perform r.pool (.alloc inp.now inp.owner)).give r h).goto t (r.granted h))
    | .error .outOfMemory => some (s.goto t (.snapshot r))
    | .error e => some (s.goto t (r.refused e))
  | .snapshot r =>
    some (s.goto t (.consult r ((s.pools r.pool).pool.snapshotPoolCandidates (poolId r.pool)) 0))
  | .consult r candidates stale =>
    if candidates = [] ∨ maxStaleVictims ≤ stale then some (s.goto t (.retry r))
    else
      match inp.answer with
      | none => some (s.goto t (r.refused .outOfMemory))
      | some victim =>
        -- a policy that names no candidate stops the kernel
        if victim < candidates.length then
          some (s.goto t (.reclaim r candidates stale victim))
        else none
  | .reclaim r candidates stale victim =>
    match candidates[victim]? with
    | none => none
    | some (m, generation) =>
      let slotIdx := slotOfBlockId m.blockId
      if (s.pools r.pool).pool.blockCount ≤ slotIdx then
        some (s.goto t (r.refused .invalidHandle))
      else if ((s.pools r.pool).pool.reclaim (poolId r.pool) slotIdx generation).2 then
        some (((s.perform r.pool (.evict slotIdx generation)).setOther r.pool slotIdx
          none).goto t (.retry r))
      else
        some (s.goto t (.consult r (candidates.eraseIdx victim) (stale + 1)))
  | .retry r =>
    match (s.pools r.pool).pool.alloc (poolId r.pool) inp.now inp.owner with
    | .ok (_, h) =>
      some (((s.perform r.pool (.alloc inp.now inp.owner)).give r h).goto t (r.granted h))
    | .error e => some (s.goto t (r.refused e))
  | _ => none

/-- The other steps of `load_model` and `swap_model`. -/
def loadStep (s : World) (t : Nat) (inp : Input) : Pc → Option World
  | .preflight index version parse =>
    if (s.entries index).active = false then
      some (s.goto t (.returned (.failed .invalidIndex)))
    else if (s.entries index).backendKind ≠ .cpuOnnx then
      some (s.goto t (.returned (.failed .swapNotSupported)))
    else
      match parse with
      | some e => some (s.goto t (.returned (.failed e)))
      | none => some (s.goto t (.alloc (.weights (.swap index) version)))
  | .getPtr job version w =>
    if s.resolves w then some (s.goto t (.fill job version w))
    else some (s.goto t (.freeWeights w none (.failed .allocFailed)))
  | .fill job version w =>
    match inp.fault with
    | some e => some (s.goto t (.freeWeights w none (.failed e)))
    | none => some (s.goto t (.alloc (.workspace job version w)))
  | .install p =>
    match s.makeRoom with
    | (s, none) =>
      some (s.goto t (.freeWeights p.weights (some p.workspace) (.failed .modelTooLarge)))
    | (s, some i) =>
      some ((s.setEntry i (p.install inp.now)).goto t (.returned (.loaded i)))
  | .replace index p =>
    let e := s.entries index
    if e.active = false then
      some (s.goto t (.freeWeights p.weights (some p.workspace) (.failed .invalidIndex)))
    else if e.backendKind ≠ .cpuOnnx then
      some (s.goto t (.freeWeights p.weights (some p.workspace) (.failed .swapNotSupported)))
    else
      some ((s.setEntry index (p.replace e inp.now)).goto t
        (.freeWeights e.weights (some e.workspace) .swapped))
  | .freeWeights w ws r =>
    match ws with
    | none => some ((s.free w).goto t (.returned r))
    | some ws => some ((s.free w).goto t (.freeWorkspace ws r))
  | .freeWorkspace ws r => some ((s.free ws).goto t (.returned r))
  | pc => allocStep s t inp pc

/-- A section of the registry that fetches something from an active slot; without one
the lease is dropped. -/
def World.fetch (s : World) (t index : Nat) (l : Lease) (next : Entry → Pc) : World :=
  if maxModels ≤ index ∨ (s.entries index).active = false then s.goto t (.unshare l .refused)
  else s.goto t (next (s.entries index))

/-- The steps of `run_inference`. -/
def callStep (s : World) (t : Nat) (inp : Input) : Pc → Option World
  | .acquire index =>
    let h := (s.entries index).weights
    if maxModels ≤ index ∨ (s.entries index).active = false then
      some (s.goto t (.returned .refused))
    else
      match poolType h.poolId with
      | none => some (s.goto t (.returned .refused))
      | some k =>
        if ((s.pools k).pool.share h).isOk then
          let l : Lease := ⟨h, s.epochOf h⟩
          some ({ s.perform k (.share h) with leases := (t, l) :: s.leases }.goto t
            (.copyGraph index l))
        else some (s.goto t (.returned .refused))
  | .copyGraph index l => some (s.fetch t index l fun e => .copyWeightTable index l e.graph)
  | .copyWeightTable index l graph =>
    some (s.fetch t index l fun e => .getWeights index l graph e.weightTable)
  | .getWeights index l graph weightTable =>
    some (s.fetch t index l fun e => .getWorkspace index l graph weightTable e.weights)
  | .getWorkspace index l graph weightTable weights =>
    some (s.fetch t index l fun e =>
      .weightBase index l ⟨graph, weightTable, weights, e.workspace, 0, 0⟩)
  | .weightBase index l e =>
    if s.resolves e.weights then
      some (s.goto t (.workspacePtr index l { e with weightEpoch := s.epochOf e.weights }))
    else some (s.goto t (.unshare l .refused))
  | .workspacePtr index l e =>
    if s.resolves e.workspace then
      some (s.goto t (.run index l { e with workspaceEpoch := s.epochOf e.workspace }))
    else some (s.goto t (.unshare l .refused))
  | .run _ l _ => some (s.goto t (.unshare l .inferred))
  | .unshare l r =>
    some ({ s.free l.handle with leases := s.leases.erase (t, l) }.goto t (.returned r))
  | pc => loadStep s t inp pc

inductive Act where
  | load (t : Nat) (parse : Option LoadError)
  | swap (t index : Nat) (parse : Option LoadError)
  | bare (t : Nat) (pool : PoolType)
  | infer (t index : Nat)
  | go (t : Nat) (inp : Input)
  | resume (t : Nat)
  | unload (index : Nat)
  | pin (index : Nat)
  | unpin (index : Nat)
  | touch (index now : Nat)
  deriving DecidableEq, Repr

def World.start (s : World) (t : Nat) (pc : Pc) : Option World :=
  if (s.calls t).pc = .idle then
    some { s with
      calls := update s.calls t ⟨pc, false⟩
      versions := s.versions + 1 }
  else none

/-- A call of `pin_model` and the like; an inactive slot is left alone. -/
def World.onActive (s : World) (i : Nat) (f : Entry → Entry) : World :=
  if i < maxModels ∧ (s.entries i).active = true then s.setEntry i (f (s.entries i)) else s

def World.differs (s s' : World) : Bool :=
  (List.range maxModels).any fun i => s.entries i != s'.entries i

/-- The result `s'` of a step of `t`, with the note whether it has changed the registry. -/
def World.noteWrites (s : World) (t : Nat) (s' : World) : World :=
  let c : Call := ⟨(s'.calls t).pc, (s.calls t).wrote || s.differs s'⟩
  { s' with calls := update s'.calls t c }

def step (s : World) : Act → Option World
  | .load t parse =>
    s.start t (match parse with
      | some e => .returned (.failed e)
      | none => .alloc (.weights .load s.versions))
  | .swap t index parse =>
    s.start t (if h : index < maxModels then .preflight ⟨index, h⟩ s.versions parse
      else .returned (.failed .invalidIndex))
  | .bare t pool => s.start t (.alloc (.bare pool))
  | .infer t index => s.start t (.acquire index)
  | .go t inp =>
    (callStep s t inp (s.calls t).pc).map fun s' => s.noteWrites t s'
  | .resume t =>
    match (s.calls t).pc with
    | .returned _ => some (s.goto t .idle)
    | _ => none
  | .unload index =>
    if index < maxModels ∧ (s.entries index).active = true then
      let e := s.entries index
      some (((s.setEntry index .empty).free e.weights).free e.workspace)
    else some s
  | .pin index => some (s.onActive index fun e => { e with pinned := true })
  | .unpin index => some (s.onActive index fun e => { e with pinned := false })
  | .touch index now => some (s.onActive index fun e => { e with lastUsed := now })

end SlmOs.Loader
