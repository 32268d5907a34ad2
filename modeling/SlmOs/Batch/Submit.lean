import Mathlib
import SlmOs.Foundation.Transition

/-!
# Batched inference

`submit_inference_sync` of `runtime/src/sched/inference.rs` and what it calls.  Each
call is cut at the sections of `SCHED_LOCK`, the accesses to the state of a slot and
the calls of the engine, and the steps of all calls interleave.  What is inside a
section is one step.  The settings, the clock and whether the engine succeeds are
inputs of a step; what the engine computes when it does is a parameter.
-/

namespace SlmOs.Batch

open Function Foundation

def maxBatch : Nat := 32
def maxInputDim : Nat := 784
def maxOutputDim : Nat := 64

inductive EngineError where
  | modelNotFound
  | workspaceExhausted
  | unsupportedOp
  | shapeMismatch
  | shapeOverflow
  | invalidInput
  | weightNotFound
  | internalError
  deriving DecidableEq, Repr

def encodeEngineError : EngineError → Nat
  | .modelNotFound => 1
  | .workspaceExhausted => 2
  | .unsupportedOp => 3
  | .shapeMismatch => 4
  | .shapeOverflow => 5
  | .invalidInput => 6
  | .weightNotFound => 7
  | .internalError => 8

def decodeEngineError : Nat → EngineError
  | 1 => .modelNotFound
  | 2 => .workspaceExhausted
  | 3 => .unsupportedOp
  | 4 => .shapeMismatch
  | 5 => .shapeOverflow
  | 6 => .invalidInput
  | 7 => .weightNotFound
  | _ => .internalError

theorem decode_encode (e : EngineError) : decodeEngineError (encodeEngineError e) = e := by
  cases e <;> rfl

/-- What the engine computes: the values that a model yields for an input, as many as
the model has outputs. -/
structure Engine (Val : Type) where
  outputDim : Nat → Nat
  infer : Nat → List Val → List Val
  length_infer : ∀ m x, (infer m x).length = outputDim m

inductive SlotState where
  | idle
  | pending
  | dispatching
  | doneOk
  | doneErr
  deriving DecidableEq, Repr

structure Request where
  modelIndex : Nat
  inputPtr : Nat
  inputLen : Nat
  outputPtr : Nat
  outputLen : Nat
  ticket : Nat
  deriving DecidableEq, Repr

def Request.none : Request := ⟨0, 0, 0, 0, 0, 0⟩

structure Slot where
  state : SlotState
  req : Request
  resultValue : Nat
  deriving DecidableEq, Repr

abbrev Result := Except EngineError Nat

/-- Where a call is.  `slot` is the call's own, `batch` what it has claimed. -/
inductive Pc where
  | idle
  | reserve (cfgSize : Nat)
  | decide (slot cfgSize : Nat)
  | release (slot : Nat)
  | solo
  | wait (slot : Nat)
  | take (slot : Nat) (ok : Bool)
  | flush (slot : Nat)
  | claim (slot timeoutNs : Nat)
  | scratch (slot : Nat) (batch : List Nat)
  | check (slot : Nat) (batch : List Nat) (model dim i : Nat)
  | copy (slot : Nat) (batch : List Nat) (model dim i : Nat)
  | engine (slot : Nat) (batch : List Nat) (model dim : Nat)
  | fan (slot : Nat) (batch : List Nat) (perOut i : Nat)
  | signal (slot : Nat) (batch : List Nat) (perOut i : Nat)
  | fail (slot : Nat) (batch : List Nat) (e : EngineError) (i : Nat)
  | finish (slot : Nat) (e : Option EngineError)
  | unlock (r : Result)
  | het (slot : Nat) (batch : List Nat) (i : Nat) (self : Result)
  | hetStore (slot : Nat) (batch : List Nat) (i : Nat) (self r : Result)
  | returned (r : Result)
  deriving DecidableEq

structure Call (Val : Type) where
  req : Request
  /-- The input at the time of the call. -/
  input : List Val
  pc : Pc

structure Sched (Val : Type) where
  slots : Nat → Slot
  /-- `PENDING[..PENDING_COUNT]` -/
  pending : List Nat
  batchFirstTimeNs : Nat
  scratchLock : Option Nat
  /-- The rows of `SCRATCH_IN`, and `SCRATCH_OUT`. -/
  scratchIn : Nat → List Val
  scratchOut : List Val
  mem : Nat → Nat → Val
  calls : Nat → Call Val
  tickets : Nat
  /-- The calls whose caller has not gone on. -/
  live : List Request
  /-- The calls of the engine that have failed, each with what it was called for. -/
  failed : List (List Nat)

variable {Val : Type}

def Sched.new (mem : Nat → Nat → Val) : Sched Val where
  slots := fun _ => ⟨.idle, .none, 0⟩
  pending := []
  batchFirstTimeNs := 0
  scratchLock := none
  scratchIn := fun _ => []
  scratchOut := []
  mem := mem
  calls := fun _ => ⟨.none, [], .idle⟩
  tickets := 0
  live := []
  failed := []

namespace Sched

def read (s : Sched Val) (ptr len : Nat) : List Val := (List.range len).map (s.mem ptr)

def write (s : Sched Val) (ptr : Nat) (vs : List Val) : Sched Val :=
  { s with mem := update s.mem ptr fun k => (vs[k]?).getD (s.mem ptr k) }

def setSlot (s : Sched Val) (i : Nat) (slot : Slot) : Sched Val :=
  { s with slots := update s.slots i slot }

def setState (s : Sched Val) (i : Nat) (state : SlotState) : Sched Val :=
  s.setSlot i { s.slots i with state := state }

def setResult (s : Sched Val) (i value : Nat) : Sched Val :=
  s.setSlot i { s.slots i with resultValue := value }

def goto (s : Sched Val) (t : Nat) (pc : Pc) : Sched Val :=
  { s with calls := update s.calls t { s.calls t with pc := pc } }

def noteFailure (s : Sched Val) (tickets : List Nat) : Sched Val :=
  { s with failed := tickets :: s.failed }

def runInference (eng : Engine Val) (s : Sched Val) (r : Request)
    (failure : Option EngineError) : Sched Val × Result :=
  match failure with
  | some e => (s.noteFailure [r.ticket], .error e)
  | none =>
    if r.outputLen < eng.outputDim r.modelIndex then
      (s.noteFailure [r.ticket], .error .invalidInput)
    else
      (s.write r.outputPtr (eng.infer r.modelIndex (s.read r.inputPtr r.inputLen)),
        .ok (eng.outputDim r.modelIndex))

def runInferenceBatched (eng : Engine Val) (s : Sched Val) (batch : List Nat) (model : Nat)
    (failure : Option EngineError) : Sched Val × Result :=
  let tickets := batch.map fun i => (s.slots i).req.ticket
  let out := ((List.range batch.length).map fun i => eng.infer model (s.scratchIn i)).flatten
  match failure with
  | some e => (s.noteFailure tickets, .error e)
  | none =>
    if batch.length * maxOutputDim < out.length then
      (s.noteFailure tickets, .error .invalidInput)
    else ({ s with scratchOut := out }, .ok out.length)

def reserveSlot (s : Sched Val) (r : Request) (now : Nat) : Sched Val × Option Nat :=
  match (List.range maxBatch).find? fun i => (s.slots i).state == .idle with
  | none => (s, none)
  | some i =>
    if maxBatch ≤ s.pending.length then (s.setSlot i ⟨.idle, r, 0⟩, none)
    else
      ({ s.setSlot i ⟨.pending, r, 0⟩ with
          pending := s.pending ++ [i]
          batchFirstTimeNs := if s.pending = [] then now else s.batchFirstTimeNs },
        some i)

def claimAll (s : Sched Val) : Sched Val :=
  { s with
    slots := fun i => if i ∈ s.pending then { s.slots i with state := .dispatching }
      else s.slots i
    pending := []
    batchFirstTimeNs := 0 }

def releaseSlotAsSolo (s : Sched Val) (slot : Nat) : Sched Val :=
  if slot ∈ s.pending then
    { s.setState slot .idle with
      pending := s.pending.erase slot
      batchFirstTimeNs := if s.pending.length - 1 = 0 then 0 else s.batchFirstTimeNs }
  else s

end Sched

inductive Role where
  | solo
  | dispatcher
  | waiter
  deriving DecidableEq, Repr

def decideRole (n cfgSize : Nat) : Role :=
  if n = 1 then .solo else if cfgSize ≤ n then .dispatcher else .waiter

def Sched.flushDue (s : Sched Val) (now timeoutNs : Nat) : Bool :=
  s.pending != [] && s.batchFirstTimeNs != 0 && decide (timeoutNs ≤ now - s.batchFirstTimeNs)

structure Env where
  now : Nat
  timeoutUs : Nat
  failure : Option EngineError
  deriving DecidableEq, Repr

def maxU64 : Nat := 18446744073709551615

/-- `(batch_timeout_us() as u64).saturating_mul(1000)` -/
def Env.timeoutNs (env : Env) : Nat := min (env.timeoutUs * 1000) maxU64

section

variable (eng : Engine Val)

/-- The steps of `run_dispatcher` and `dispatch_heterogeneous`. -/
def dispatchStep (s : Sched Val) (t : Nat) (env : Env) : Pc → Option (Sched Val)
  | .scratch slot batch =>
    match s.scratchLock with
    | some _ => some s
    | none =>
      let r := (s.slots slot).req
      some { s.goto t (.check slot batch r.modelIndex r.inputLen 0) with
        scratchLock := some t }
  | .check slot batch model dim i =>
    match batch[i]? with
    | none => some (s.goto t (.copy slot batch model dim 0))
    | some idx =>
      let r := (s.slots idx).req
      if r.modelIndex ≠ model ∨ r.inputLen ≠ dim then
        some { s.goto t (.het slot batch 0 (.error .internalError)) with
          scratchLock := none }
      else some (s.goto t (.check slot batch model dim (i + 1)))
  | .copy slot batch model dim i =>
    match batch[i]? with
    | none => some (s.goto t (.engine slot batch model dim))
    | some idx =>
      some { s.goto t (.copy slot batch model dim (i + 1)) with
        scratchIn := update s.scratchIn i (s.read (s.slots idx).req.inputPtr dim) }
  | .engine slot batch model _ =>
    match s.runInferenceBatched eng batch model env.failure with
    | (s, .error e) => some (s.goto t (.fail slot batch e 0))
    | (s, .ok total) =>
      if total % batch.length ≠ 0 then
        some (s.goto t (.fail slot batch .internalError 0))
      else some (s.goto t (.fan slot batch (total / batch.length) 0))
  | .fan slot batch perOut i =>
    match batch[i]? with
    | none => some (s.goto t (.finish slot none))
    | some idx =>
      let r := (s.slots idx).req
      let n := min perOut r.outputLen
      some (((s.write r.outputPtr ((s.scratchOut.drop (i * perOut)).take n)).setResult
        idx n).goto t (.signal slot batch perOut i))
  | .signal slot batch perOut i =>
    match batch[i]? with
    | none => none
    | some idx =>
      if idx = slot then some (s.goto t (.fan slot batch perOut (i + 1)))
      else some ((s.setState idx .doneOk).goto t (.fan slot batch perOut (i + 1)))
  | .fail slot batch e i =>
    match batch[i]? with
    | none => some (s.goto t (.finish slot (some e)))
    | some idx =>
      let s := s.setResult idx (encodeEngineError e)
      if idx = slot then some (s.goto t (.fail slot batch e (i + 1)))
      else some ((s.setState idx .doneErr).goto t (.fail slot batch e (i + 1)))
  | .finish slot e =>
    let r : Result := match e with
      | none => .ok (s.slots slot).resultValue
      | some e => .error e
    some ((s.setState slot .idle).goto t (.unlock r))
  | .unlock r => some { s.goto t (.returned r) with scratchLock := none }
  | .het slot batch i self =>
    match batch[i]? with
    | none => some (s.goto t (.returned self))
    | some idx =>
      match s.runInference eng (s.slots idx).req env.failure with
      | (s, r) => some (s.goto t (.hetStore slot batch i self r))
  | .hetStore slot batch i self r =>
    match batch[i]? with
    | none => none
    | some idx =>
      let s := s.setResult idx (match r with
        | .ok n => n
        | .error e => encodeEngineError e)
      if idx = slot then
        some ((s.setState idx .idle).goto t (.het slot batch (i + 1) r))
      else
        some ((s.setState idx (match r with
          | .ok _ => .doneOk
          | .error _ => .doneErr)).goto t (.het slot batch (i + 1) self))
  | _ => none

/-- The steps of `submit_inference_sync` and `wait_for_slot`. -/
def submitStep (s : Sched Val) (t : Nat) (env : Env) : Pc → Option (Sched Val)
  | .reserve cfgSize =>
    match s.reserveSlot (s.calls t).req env.now with
    | (s, none) => some (s.goto t .solo)
    | (s, some slot) => some (s.goto t (.decide slot cfgSize))
  | .decide slot cfgSize =>
    match decideRole s.pending.length cfgSize with
    | .solo => some (s.goto t (.release slot))
    | .dispatcher => some (s.claimAll.goto t (.scratch slot s.pending))
    | .waiter => some (s.goto t (.wait slot))
  | .release slot => some ((s.releaseSlotAsSolo slot).goto t .solo)
  | .solo =>
    match s.runInference eng (s.calls t).req env.failure with
    | (s, r) => some (s.goto t (.returned r))
  | .wait slot =>
    match (s.slots slot).state with
    | .doneOk => some (s.goto t (.take slot true))
    | .doneErr => some (s.goto t (.take slot false))
    | _ => some (s.goto t (.flush slot))
  | .take slot ok =>
    let v := (s.slots slot).resultValue
    some ((s.setState slot .idle).goto t
      (.returned (if ok then .ok v else .error (decodeEngineError v))))
  | .flush slot =>
    if s.batchFirstTimeNs = 0 ∨ env.now - s.batchFirstTimeNs < env.timeoutNs then
      some (s.goto t (.wait slot))
    else some (s.goto t (.claim slot env.timeoutNs))
  | .claim slot timeoutNs =>
    if s.flushDue env.now timeoutNs then
      some (s.claimAll.goto t (.scratch slot s.pending))
    else some (s.goto t (.wait slot))
  | pc => dispatchStep eng s t env pc

end

structure Config where
  enabled : Bool
  batchSize : Nat
  timeoutUs : Nat
  deriving DecidableEq, Repr

/-- `batch_size()` -/
def Config.cfgSize (c : Config) : Nat := max 1 (min c.batchSize maxBatch)

def Config.bypasses (c : Config) (deadlineNs now : Nat) : Bool :=
  deadlineNs != 0 && decide (deadlineNs - now < min (c.timeoutUs * 1000) maxU64)

inductive Act (Val : Type) where
  | submit (t modelIndex inputPtr inputLen outputPtr outputLen : Nat) (cfg : Config)
      (deadlineNs now : Nat)
  | go (t : Nat) (env : Env)
  /-- The caller of `t` has looked at the result. -/
  | resume (t : Nat)
  /-- Somebody fills a buffer that no call uses. -/
  | fill (ptr : Nat) (vs : List Val)

def Request.apart (r q : Request) : Bool :=
  r.outputPtr != q.inputPtr && r.outputPtr != q.outputPtr && r.inputPtr != q.outputPtr

def Request.entry (r : Request) (cfg : Config) (deadlineNs now : Nat) : Pc :=
  if r.inputPtr = 0 ∨ r.outputPtr = 0 ∨ r.inputLen = 0 ∨ r.outputLen = 0 then
    .returned (.error .invalidInput)
  else if cfg.enabled && decide (2 ≤ cfg.cfgSize) && decide (r.inputLen ≤ maxInputDim) &&
      decide (r.outputLen ≤ maxOutputDim) then
    if cfg.bypasses deadlineNs now then .solo else .reserve cfg.cfgSize
  else .solo

def step (eng : Engine Val) (s : Sched Val) : Act Val → Option (Sched Val)
  | .submit t modelIndex inputPtr inputLen outputPtr outputLen cfg deadlineNs now =>
    let r : Request := ⟨modelIndex, inputPtr, inputLen, outputPtr, outputLen, s.tickets⟩
    -- the caller keeps its buffers to itself, as the contract asks
    if (s.calls t).pc = .idle ∧ inputPtr ≠ outputPtr ∧ s.live.all (r.apart ·) then
      some { s with
        calls := update s.calls t ⟨r, s.read inputPtr inputLen, r.entry cfg deadlineNs now⟩
        tickets := s.tickets + 1
        live := r :: s.live }
    else none
  | .go t env => submitStep eng s t env (s.calls t).pc
  | .resume t =>
    match (s.calls t).pc with
    | .returned _ => some { s.goto t .idle with live := s.live.erase (s.calls t).req }
    | _ => none
  | .fill ptr vs =>
    if s.live.all fun r => r.inputPtr != ptr && r.outputPtr != ptr then
      some (s.write ptr vs)
    else none

end SlmOs.Batch
