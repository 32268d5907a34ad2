import Mathlib
import SlmOs.Foundation.Transition

/-!
# Models and sessions

The registry of loaded models (`runtime/src/slm/registry.rs`), the table of sessions
(`session.rs`) and `run_prompt` (`decoder.rs`).  A session holds the index of a
registry slot.  A prompt keeps the lock of the session table until it returns, so
there is at most one and nothing else touches the table meanwhile, but it takes the
lock of the registry anew for each token: models come and go between any two of its
steps.  What the tokenizer, the forward pass, the sampler and the callback return is
an input.
-/

namespace SlmOs.Slm

open Function Foundation

def slmMaxSlots : Nat := 4
def slmMaxSessions : Nat := 4
def maxU32 : Nat := 4294967295
def maxU64 : Nat := 18446744073709551615

structure ArchInfo where
  blockCount : Nat
  embeddingLength : Nat
  headCount : Nat
  headCountKv : Nat
  headDim : Nat
  feedForwardLength : Nat
  contextLength : Nat
  deriving DecidableEq, Repr

structure LoadedSlm where
  info : ArchInfo
  vocabSize : Nat
  hasTokenizer : Bool
  /-- Which call of `load_slm` has put it there. -/
  instanceId : Nat
  deriving DecidableEq, Repr

inductive SessionState where
  | «open»
  | decoding
  | stopped
  | closed
  deriving DecidableEq, Repr

structure Session where
  modelHandle : Nat
  arch : ArchInfo
  vocabSize : Nat
  maxCtx : Nat
  /-- `kv.len` -/
  kvLen : Nat
  state : SessionState
  stopFlag : Bool
  promptsCompleted : Nat
  tokensIn : Nat
  tokensOut : Nat
  /-- The model that was in the slot when the session was opened. -/
  boundTo : Nat
  deriving DecidableEq, Repr

/-- `KvCache::new` finds the dimensions usable. -/
def kvCacheFits (nLayers maxCtx nKvHeads headDim : Nat) : Bool :=
  nLayers != 0 && maxCtx != 0 && nKvHeads != 0 && headDim != 0 &&
    decide (nLayers * (maxCtx * (nKvHeads * headDim)) * 2 ≤ maxU64)

def Session.open (slm : LoadedSlm) (modelHandle maxCtx : Nat) : Option Session :=
  let trained := slm.info.contextLength
  if maxCtx = 0 ∨ trained = 0 then none
  else
    let maxCtx := if trained < maxCtx then trained else maxCtx
    if kvCacheFits slm.info.blockCount maxCtx slm.info.headCountKv slm.info.headDim then
      some ⟨modelHandle, slm.info, slm.vocabSize, maxCtx, 0, .open, false, 0, 0, 0, slm.instanceId⟩
    else none

def Session.reset (s : Session) : Session :=
  { s with
    kvLen := 0
    stopFlag := false
    promptsCompleted := 0
    tokensIn := 0
    tokensOut := 0
    state := if s.state ≠ .closed then .open else s.state }

def Session.requestStop (s : Session) : Session := { s with stopFlag := true }

def Session.close (s : Session) : Session := { s with state := .closed }

structure DecodeConfig where
  maxNewTokens : Nat
  eosTokenId : Nat
  prefillChunk : Nat
  deriving DecidableEq, Repr

inductive PromptPc where
  | tokenize
  /-- `left` tokens of the current chunk and `rest` in all are to come. -/
  | prefill (rest : List Nat) (left : Nat)
  | emit (token : Nat)
  | next (token : Nat) (keepGoing : Bool)
  | forward (token : Nat)
  deriving DecidableEq, Repr

structure Prompt where
  sid : Nat
  cfg : DecodeConfig
  pc : PromptPc
  prefillTokens : Nat
  decodeTokens : Nat
  /-- `last_logits` is not empty. -/
  logits : Bool
  deriving DecidableEq, Repr

structure DecodeStats where
  prefillTokens : Nat
  decodeTokens : Nat
  deriving DecidableEq, Repr

structure Access where
  boundTo : Nat
  used : Nat
  deriving DecidableEq, Repr

structure Runtime where
  slots : Nat → Option LoadedSlm
  sessions : Nat → Option Session
  /-- Sessions that a caller has opened and not yet put into the table. -/
  opened : Nat → Option Session
  prompt : Option Prompt
  returned : List (Option DecodeStats)
  loads : Nat
  /-- Every look of a prompt at a model, the last one first. -/
  log : List Access

def Runtime.new : Runtime :=
  ⟨fun _ => none, fun _ => none, fun _ => none, none, [], 0, []⟩

structure Input where
  /-- `tk.encode(prompt_text)` -/
  ids : List Nat
  /-- `forward_one` has got through all layers, and then to the logits. -/
  committed : Bool
  computed : Bool
  /-- The token that is sampled. -/
  sampled : Nat
  /-- What the callback returns. -/
  keepGoing : Bool
  deriving DecidableEq, Repr

namespace Runtime

/-- `with_loaded_slm` by the session of a prompt. -/
def look (s : Runtime) (σ : Session) : Option LoadedSlm :=
  if σ.modelHandle < slmMaxSlots then s.slots σ.modelHandle else none

def note (s : Runtime) (σ : Session) : Runtime :=
  match s.look σ with
  | none => s
  | some slm => { s with log := ⟨σ.boundTo, slm.instanceId⟩ :: s.log }

def freeSlot (s : Runtime) : Option Nat :=
  (List.range slmMaxSlots).find? fun i => (s.slots i).isNone

def setSession (s : Runtime) (sid : Nat) (σ : Session) : Runtime :=
  { s with sessions := update s.sessions sid (some σ) }

def goto (s : Runtime) (p : Prompt) (σ : Session) (pc : PromptPc) : Runtime :=
  { s.setSession p.sid σ with prompt := some { p with pc := pc } }

def finish (s : Runtime) (p : Prompt) (σ : Session) (r : Option DecodeStats) :
    Runtime :=
  { s.setSession p.sid σ with prompt := none, returned := r :: s.returned }

end Runtime

def addSat (a b : Nat) : Nat := min (a + b) maxU32

def Session.complete (σ : Session) (p : Prompt) (state : SessionState) : Session :=
  { σ with
    state := state
    promptsCompleted := addSat σ.promptsCompleted 1
    tokensIn := addSat σ.tokensIn p.prefillTokens
    tokensOut := addSat σ.tokensOut p.decodeTokens }

def Prompt.stats (p : Prompt) : DecodeStats := ⟨p.prefillTokens, p.decodeTokens⟩

/-- `forward_one` finds the scratch buffers, which have the session's dimensions,
and its own architecture in accord and room in the cache. -/
def forwardFits (σ : Session) (slm : LoadedSlm) : Bool :=
  decide (σ.arch.embeddingLength = slm.info.embeddingLength) &&
  decide (σ.arch.headCount * σ.arch.headDim = slm.info.headCount * slm.info.headDim) &&
  decide (σ.arch.headCountKv * σ.arch.headDim = slm.info.headCountKv * slm.info.headDim) &&
  decide (σ.arch.feedForwardLength = slm.info.feedForwardLength) &&
  slm.info.headDim != 0 && slm.info.headCount != 0 && slm.info.headCountKv != 0 &&
  σ.vocabSize != 0 && slm.info.blockCount != 0 && slm.info.embeddingLength != 0 &&
  slm.info.feedForwardLength != 0 &&
  slm.info.headCount % slm.info.headCountKv == 0 && decide (σ.kvLen < σ.maxCtx)

/-- `forward_step_via_registry`: the session, and whether there are logits. -/
def forwardStep (s : Runtime) (σ : Session) (i : Input) : Session × Bool :=
  match s.look σ with
  | none => (σ, false)
  | some slm =>
    if forwardFits σ slm && i.committed then
      ({ σ with kvLen := σ.kvLen + 1 }, i.computed)
    else (σ, false)

def promptStep (s : Runtime) (p : Prompt) (σ : Session) (i : Input) : Runtime :=
  match p.pc with
  | .tokenize =>
    match s.look σ with
    | none => s.finish p { σ with state := .open } none
    | some slm =>
      if slm.hasTokenizer then
        (s.note σ).goto { p with prefillTokens := i.ids.length } σ (.prefill i.ids 0)
      else s.finish p { σ with state := .open } none
  | .prefill [] _ =>
    if p.logits then s.goto p σ (.emit i.sampled)
    else s.finish p (σ.complete p .open) (some p.stats)
  | .prefill (token :: rest) 0 =>
    if σ.stopFlag then
      s.finish p { σ with state := .stopped }
        (some ⟨p.prefillTokens - (rest.length + 1), 0⟩)
    else
      s.goto p σ (.prefill (token :: rest)
        (if p.cfg.prefillChunk = 0 then 64 else p.cfg.prefillChunk))
  | .prefill (_ :: rest) (left + 1) =>
    let r := forwardStep s σ i
    (s.note σ).goto { p with logits := r.2 } r.1 (.prefill rest left)
  | .emit token =>
    (s.note σ).goto { p with decodeTokens := p.decodeTokens + 1 } σ
      (.next token i.keepGoing)
  | .next token keepGoing =>
    if !keepGoing then s.finish p (σ.complete p .open) (some p.stats)
    else if σ.stopFlag then s.finish p (σ.complete p .stopped) (some p.stats)
    else if token = p.cfg.eosTokenId then s.finish p (σ.complete p .open) (some p.stats)
    else if p.cfg.maxNewTokens ≠ 0 ∧ p.cfg.maxNewTokens ≤ p.decodeTokens then
      s.finish p (σ.complete p .open) (some p.stats)
    else if σ.maxCtx ≤ σ.kvLen then s.finish p (σ.complete p .open) (some p.stats)
    else s.goto p σ (.forward token)
  | .forward _ =>
    let r := forwardStep s σ i
    if r.2 then (s.note σ).goto p r.1 (.emit i.sampled)
    else (s.note σ).finish p (r.1.complete p .open) (some p.stats)

inductive Act where
  | load (info : ArchInfo) (vocabSize : Nat) (hasTokenizer : Bool)
  | unload (index : Nat)
  | «open» (caller modelHandle maxCtx : Nat)
  | insert (caller : Nat)
  | reset (sid : Nat)
  | stop (sid : Nat)
  | close (sid : Nat)
  | remove (sid : Nat)
  | prompt (sid : Nat) (cfg : DecodeConfig)
  | decode (i : Input)
  deriving DecidableEq, Repr

/-- `with_session`, when no prompt has the lock of the table. -/
def Runtime.withSession (s : Runtime) (sid : Nat) (f : Session → Session) : Option Runtime :=
  if s.prompt = none ∧ sid < slmMaxSessions then
    (s.sessions sid).map fun σ => s.setSession sid (f σ)
  else none

def step (s : Runtime) : Act → Option Runtime
  | .load info vocabSize hasTokenizer =>
    s.freeSlot.map fun i =>
      { s with
        slots := update s.slots i (some ⟨info, vocabSize, hasTokenizer, s.loads⟩)
        loads := s.loads + 1 }
  | .unload index =>
    if index < slmMaxSlots ∧ (s.slots index).isSome then
      some { s with slots := update s.slots index none }
    else none
  | .open caller modelHandle maxCtx =>
    if modelHandle < slmMaxSlots ∧ s.opened caller = none then
      ((s.slots modelHandle).bind fun slm =>
        Session.open slm modelHandle maxCtx).map fun σ =>
        { s with opened := update s.opened caller (some σ) }
    else none
  | .insert caller =>
    if s.prompt = none then
      (s.opened caller).map fun σ =>
        let s := { s with opened := update s.opened caller none }
        match (List.range slmMaxSessions).find? fun i => (s.sessions i).isNone with
        | some sid => s.setSession sid σ
        | none => s
    else none
  | .reset sid => s.withSession sid Session.reset
  | .stop sid => s.withSession sid Session.requestStop
  | .close sid => s.withSession sid Session.close
  | .remove sid =>
    if s.prompt = none ∧ sid < slmMaxSessions then
      some { s with sessions := update s.sessions sid none }
    else none
  | .prompt sid cfg =>
    if s.prompt = none ∧ sid < slmMaxSessions then
      (s.sessions sid).bind fun σ =>
        if σ.state = .open then
          some (s.goto ⟨sid, cfg, .tokenize, 0, 0, false⟩
            { σ with state := .decoding, stopFlag := false } .tokenize)
        else none
    else none
  | .decode i =>
    s.prompt.bind fun p =>
      (s.sessions p.sid).map fun σ => promptStep s p σ i

end SlmOs.Slm
