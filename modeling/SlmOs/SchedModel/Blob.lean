import SlmOs.Foundation.Wire

/-!
# Scheduler model blobs

The parsers of `kernel/sched/ai/runtime_model.c`: one outer header, and four kinds of
payload behind it.  The weights are kept as the words they are stored as.
-/

namespace SlmOs.SchedModel

open Foundation

def outerHeaderLen : Nat := 24
def payloadHeaderLen : Nat := 12

def kindMlp : Nat := 0x1001
def kindPpo : Nat := 0x1002
def kindConfig : Nat := 0x1003
def kindThresholds : Nat := 0x1004
def kindRebalance : Nat := 0x1005
def kindXgboost : Nat := 0x1006

structure ModelMeta where
  version : Nat
  schemaVersion : Nat
  featureVersion : Nat
  actionVersion : Nat
  actionCount : Nat
  payloadLen : Nat
  checksum : Nat
  deriving DecidableEq, Repr

def ModelMeta.zero : ModelMeta := ⟨0, 0, 0, 0, 0, 0, 0⟩

structure Versions where
  featureVersion : Nat
  actionVersion : Nat
  actionCount : Nat
  deriving DecidableEq, Repr

structure MlpModel where
  versions : Versions
  w0 : List Nat
  b0 : List Nat
  w1 : List Nat
  b1 : List Nat
  w2 : List Nat
  b2 : List Nat
  w3 : List Nat
  b3 : List Nat
  deriving DecidableEq, Repr

structure BalanceConfig where
  versions : Versions
  enabled : Nat
  minTargetReady : Nat
  minActiveCpus : Nat
  imbalanceNum : Nat
  imbalanceDen : Nat
  deriving DecidableEq, Repr

structure DeadlineThresholds where
  versions : Versions
  criticalNs : Nat
  highNs : Nat
  boostNs : Nat
  deriving DecidableEq, Repr

structure RebalanceConfig where
  versions : Versions
  enabled : Nat
  intervalTicks : Nat
  imbalanceMin : Nat
  deriving DecidableEq, Repr

inductive Payload where
  | balance (config : BalanceConfig)
  | thresholds (config : DeadlineThresholds)
  | rebalance (config : RebalanceConfig)
  deriving DecidableEq, Repr

def readLe (width : Nat) (data : Bytes) (offset : Nat) : Nat :=
  leNat ((data.drop offset).take width)

def readU16Le : Bytes → Nat → Nat := readLe 2
def readU32Le : Bytes → Nat → Nat := readLe 4
def readU64Le : Bytes → Nat → Nat := readLe 8

def checksum32 (data : Bytes) : Nat :=
  data.foldl (fun hash b => (hash ^^^ b.toNat) * 0x01000193 % 2 ^ 32) 0x811C9DC5

/-! ## Payloads -/

def densePayloadLen (actionCount : Nat) : Nat :=
  payloadHeaderLen + (256 * 108 + 256 + 256 * 256 + 256 + 128 * 256 + 128 +
    actionCount * 128 + actionCount) * 4

def parseFloatBlock (payload : Bytes) (cursor count : Nat) : List Nat × Nat :=
  ((List.range count).map fun i => readU32Le payload (cursor + 4 * i), cursor + 4 * count)

/-- `nActions` is `AI_SCHED_N_ACTIONS`, which depends on the platform. -/
def parseDensePayload (nActions : Nat) (payload : Bytes) : Option (Versions × MlpModel) :=
  if payload.length < payloadHeaderLen then none
  else if payload.take 4 ≠ [0x53, 0x4D, 0x4C, 0x31] then none
  else if readU16Le payload 4 ≠ 1 then none
  else
    let versions : Versions :=
      ⟨readU16Le payload 6, readU16Le payload 8, readU16Le payload 10⟩
    if versions.featureVersion ≠ 1 then none
    else if versions.actionVersion ≠ 1 then none
    else if versions.actionCount ≠ nActions then none
    else if payload.length ≠ densePayloadLen versions.actionCount then none
    else
      let (w0, cursor) := parseFloatBlock payload payloadHeaderLen (256 * 108)
      let (b0, cursor) := parseFloatBlock payload cursor 256
      let (w1, cursor) := parseFloatBlock payload cursor (256 * 256)
      let (b1, cursor) := parseFloatBlock payload cursor 256
      let (w2, cursor) := parseFloatBlock payload cursor (128 * 256)
      let (b2, cursor) := parseFloatBlock payload cursor 128
      let (w3, cursor) := parseFloatBlock payload cursor (versions.actionCount * 128)
      let (b3, cursor) := parseFloatBlock payload cursor versions.actionCount
      if cursor = payload.length then
        some (versions, ⟨versions, w0, b0, w1, b1, w2, b2, w3, b3⟩)
      else none

/-- The part that the three small payloads share: length, magic and versions. -/
def parseSmallHeader (len : Nat) (magic : Bytes) (payload : Bytes) : Option Versions :=
  if payload.length ≠ len then none
  else if payload.take 4 ≠ magic then none
  else if readU16Le payload 4 ≠ 1 then none
  else if readU16Le payload 10 ≠ 0 then none
  else if readU16Le payload 6 ≠ 1 then none
  else if readU16Le payload 8 ≠ 1 then none
  else some ⟨readU16Le payload 6, readU16Le payload 8, 0⟩

def parseBalancePayload (payload : Bytes) : Option (Versions × BalanceConfig) := do
  let versions ← parseSmallHeader 32 [0x53, 0x43, 0x46, 0x31] payload
  let config : BalanceConfig :=
    ⟨versions, readU32Le payload 12, readU32Le payload 16, readU32Le payload 20,
      readU32Le payload 24, readU32Le payload 28⟩
  if config.enabled > 1 then none
  else if config.minActiveCpus = 0 then none
  else if config.imbalanceNum = 0 ∨ config.imbalanceDen = 0 then none
  else some (versions, config)

def parseThresholdsPayload (payload : Bytes) : Option (Versions × DeadlineThresholds) := do
  let versions ← parseSmallHeader 36 [0x53, 0x54, 0x48, 0x31] payload
  let config : DeadlineThresholds :=
    ⟨versions, readU64Le payload 12, readU64Le payload 20, readU64Le payload 28⟩
  if config.criticalNs = 0 ∨ config.highNs = 0 ∨ config.boostNs = 0 then none
  else if ¬ (config.criticalNs < config.highNs ∧ config.highNs < config.boostNs) then
    none
  else some (versions, config)

def parseRebalancePayload (payload : Bytes) : Option (Versions × RebalanceConfig) := do
  let versions ← parseSmallHeader 24 [0x53, 0x52, 0x42, 0x31] payload
  let config : RebalanceConfig :=
    ⟨versions, readU32Le payload 12, readU32Le payload 16, readU32Le payload 20⟩
  if config.enabled > 1 then none
  else if config.intervalTicks = 0 then none
  else if config.imbalanceMin = 0 then none
  else some (versions, config)

/-! ## The outer header -/

/-- The four `parse_sched_*_blob` functions differ in the payload only. -/
def parseBlob {α : Type} (parsePayload : Bytes → Option (Versions × α))
    (expectedKindId : Nat) (data : Bytes) : Option (ModelMeta × α) := do
  if data.length < outerHeaderLen then none
  else if data.take 4 ≠ [0x53, 0x45, 0x4D, 0x42] then none
  else
    let payload := data.drop outerHeaderLen
    let payloadLen := readU32Le data 12
    let checksum := readU32Le data 16
    if readU16Le data 4 ≠ 1 then none
    else if readU16Le data 6 ≠ expectedKindId then none
    else if readU16Le data 8 ≠ 1 then none
    else if readU16Le data 10 ≠ 0 ∨ readU32Le data 20 ≠ 0 then none
    -- the sum of an `int` and a `uint32_t`
    else if data.length ≠ (outerHeaderLen + payloadLen) % 2 ^ 32 then none
    else if checksum32 (payload.take payloadLen) ≠ checksum then none
    else
      let (versions, value) ← parsePayload payload
      some (⟨readU16Le data 4, readU16Le data 8, versions.featureVersion,
        versions.actionVersion, versions.actionCount, payloadLen, checksum⟩, value)

structure Parsed where
  info : ModelMeta
  payload : Option Payload
  dense : Option MlpModel
  deriving DecidableEq, Repr

def parseSchedBlob (nActions kindId : Nat) (data : Bytes) : Option Parsed :=
  if kindId = kindMlp ∨ kindId = kindPpo then
    (parseBlob (parseDensePayload nActions) kindId data).map fun r => ⟨r.1, none, some r.2⟩
  else if kindId = kindConfig then
    (parseBlob parseBalancePayload kindId data).map fun r => ⟨r.1, some (.balance r.2), none⟩
  else if kindId = kindThresholds then
    (parseBlob parseThresholdsPayload kindId data).map fun r => ⟨r.1, some (.thresholds r.2), none⟩
  else if kindId = kindRebalance then
    (parseBlob parseRebalancePayload kindId data).map fun r => ⟨r.1, some (.rebalance r.2), none⟩
  else none

end SlmOs.SchedModel
