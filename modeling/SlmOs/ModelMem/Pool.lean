import SlmOs.Foundation.Scan
import SlmOs.Foundation.Transition

/-!
# Pools of model memory

`MemoryPool` of `runtime/src/mm/model_mem.rs`: a table of 2 MB blocks with reference
counts and generations, and the handles that name them.  Every method runs under the
allocator's `LOCK`, so a pool has a history of whole operations.
-/

namespace SlmOs.ModelMem

open Function Foundation

def blockSize : Nat := 2 * 1024 * 1024
def maxBlocksPerPool : Nat := 512

def maxU16 : Nat := 65535
def maxU32 : Nat := 4294967295
def maxU64 : Nat := 18446744073709551615

inductive AllocError where
  | outOfMemory
  | invalidHandle
  | staleHandle
  deriving DecidableEq, Repr

structure ModelHandle where
  blockIndex : Nat
  poolId : Nat
  generation : Nat
  deriving DecidableEq, Repr

inductive BlockState where
  | free
  | allocated
  | shared
  deriving DecidableEq, Repr

structure Tracking where
  loadTime : Nat
  lastAccessTime : Nat
  accessCount : Nat
  modelId : Nat
  layerIdx : Int
  gpuMapped : Bool
  isDirty : Bool
  modelPriority : Nat
  accessPattern : Nat
  deriving DecidableEq, Repr

def Tracking.clear : Tracking := ⟨0, 0, 0, 0, 0, false, false, 0, 0⟩

structure BlockSlot where
  state : BlockState
  refcount : Nat
  generation : Nat
  sizeBlocks : Nat
  ownerTask : Nat
  tracking : Tracking
  deriving DecidableEq, Repr

namespace BlockSlot

def new : BlockSlot := ⟨.free, 0, 0, 0, 0, .clear⟩

def isEvictable (b : BlockSlot) : Bool :=
  b.state != .free && decide (b.refcount ≤ 1)

def take (b : BlockSlot) (now owner : Nat) : BlockSlot :=
  { b with
    state := .allocated
    refcount := 1
    sizeBlocks := 1
    ownerTask := owner
    tracking := { b.tracking with
      loadTime := now, lastAccessTime := now, accessCount := 1 } }

def retain (b : BlockSlot) : BlockSlot :=
  { b with refcount := min (b.refcount + 1) maxU16, state := .shared }

def unshare (b : BlockSlot) : BlockSlot :=
  { b with
    refcount := b.refcount - 1
    state := if b.refcount - 1 = 1 then .allocated else b.state }

def release (b : BlockSlot) : BlockSlot :=
  { b with
    state := .free
    refcount := 0
    generation := (b.generation + 1) % 256
    ownerTask := 0
    tracking := .clear }

end BlockSlot

structure MemoryPool where
  baseAddr : Nat
  blockCount : Nat
  blocks : Nat → BlockSlot
  freeCount : Nat
  peakUsage : Nat
  evictionsTotal : Nat

inductive Note where
  | touch (now : Nat)
  | metadata (modelId : Nat) (layerIdx : Int) (modelPriority : Nat)
  | gpuMapped (mapped : Bool)
  | dirty (isDirty : Bool)
  | accessPattern (pattern : Nat)
  | evictionTimes (loadTime lastAccessTime accessCount : Nat)
  deriving DecidableEq, Repr

def Note.apply (t : Tracking) : Note → Tracking
  | .touch now =>
    { t with lastAccessTime := now, accessCount := min (t.accessCount + 1) maxU32 }
  | .metadata modelId layerIdx modelPriority =>
    { t with modelId := modelId, layerIdx := layerIdx, modelPriority := modelPriority }
  | .gpuMapped mapped => { t with gpuMapped := mapped }
  | .dirty isDirty => { t with isDirty := isDirty }
  | .accessPattern pattern => { t with accessPattern := pattern }
  | .evictionTimes loadTime lastAccessTime accessCount =>
    { t with
      loadTime := loadTime
      lastAccessTime := lastAccessTime
      accessCount := accessCount }

def BlockSlot.noted (b : BlockSlot) (n : Note) : BlockSlot :=
  { b with tracking := n.apply b.tracking }

namespace MemoryPool

def init (base count : Nat) : MemoryPool where
  baseAddr := base
  blockCount := min count maxBlocksPerPool
  blocks := fun _ => .new
  freeCount := min count maxBlocksPerPool
  peakUsage := 0
  evictionsTotal := 0

def set (p : MemoryPool) (i : Nat) (b : BlockSlot) : MemoryPool :=
  { p with blocks := update p.blocks i b }

def alloc (p : MemoryPool) (poolId now owner : Nat) :
    Except AllocError (MemoryPool × ModelHandle) :=
  if p.freeCount = 0 then .error .outOfMemory
  else
    match (List.range p.blockCount).find? fun i => (p.blocks i).state == .free with
    | none => .error .outOfMemory
    | some i =>
      let freeCount := p.freeCount - 1
      let used := p.blockCount - freeCount
      .ok ({ p.set i ((p.blocks i).take now owner) with
          freeCount := freeCount
          peakUsage := if p.peakUsage < used then used else p.peakUsage },
        ⟨i, poolId, (p.blocks i).generation⟩)

/-- The checks of `free` and `share`, in their order. -/
def check (p : MemoryPool) (h : ModelHandle) : Except AllocError BlockSlot :=
  if p.blockCount ≤ h.blockIndex then .error .invalidHandle
  else if (p.blocks h.blockIndex).generation ≠ h.generation then .error .staleHandle
  else if (p.blocks h.blockIndex).state = .free then .error .invalidHandle
  else .ok (p.blocks h.blockIndex)

def free (p : MemoryPool) (h : ModelHandle) : Except AllocError MemoryPool :=
  match p.check h with
  | .error e => .error e
  | .ok b =>
    if 1 < b.refcount then .ok (p.set h.blockIndex b.unshare)
    else .ok { p.set h.blockIndex b.release with freeCount := p.freeCount + 1 }

def share (p : MemoryPool) (h : ModelHandle) : Except AllocError (MemoryPool × ModelHandle) :=
  match p.check h with
  | .error e => .error e
  | .ok b => .ok (p.set h.blockIndex b.retain, h)

def getPtr (p : MemoryPool) (h : ModelHandle) : Option Nat :=
  if p.blockCount ≤ h.blockIndex then none
  else if (p.blocks h.blockIndex).generation ≠ h.generation ∨
      (p.blocks h.blockIndex).state = .free then none
  else some (p.baseAddr + h.blockIndex * blockSize)

def getSize (p : MemoryPool) (h : ModelHandle) : Option Nat :=
  if p.blockCount ≤ h.blockIndex then none
  else if (p.blocks h.blockIndex).generation ≠ h.generation ∨
      (p.blocks h.blockIndex).state = .free then none
  else some ((p.blocks h.blockIndex).sizeBlocks * blockSize)

/-- The same checks in the order of `slot_mut`. -/
def slotMut (p : MemoryPool) (h : ModelHandle) : Except AllocError BlockSlot :=
  if p.blockCount ≤ h.blockIndex then .error .invalidHandle
  else if (p.blocks h.blockIndex).state = .free then .error .invalidHandle
  else if (p.blocks h.blockIndex).generation ≠ h.generation then .error .staleHandle
  else .ok (p.blocks h.blockIndex)

/-- The setters that go through `slot_mut`. -/
def track (p : MemoryPool) (h : ModelHandle) (n : Note) : Except AllocError MemoryPool :=
  match p.slotMut h with
  | .error e => .error e
  | .ok b => .ok (p.set h.blockIndex (b.noted n))

def touch (p : MemoryPool) (h : ModelHandle) (now : Nat) := p.track h (.touch now)

def setMetadata (p : MemoryPool) (h : ModelHandle) (modelId : Nat) (layerIdx : Int)
    (modelPriority : Nat) :=
  p.track h (.metadata modelId layerIdx modelPriority)

def setGpuMapped (p : MemoryPool) (h : ModelHandle) (mapped : Bool) :=
  p.track h (.gpuMapped mapped)

def setDirty (p : MemoryPool) (h : ModelHandle) (dirty : Bool) := p.track h (.dirty dirty)

def setAccessPattern (p : MemoryPool) (h : ModelHandle) (pattern : Nat) :=
  p.track h (.accessPattern pattern)

def setEvictionTimes (p : MemoryPool) (h : ModelHandle)
    (loadTime lastAccessTime accessCount : Nat) :=
  p.track h (.evictionTimes loadTime lastAccessTime accessCount)

/-- The part of `evict_and_retry` that takes the victim back, with the generation
that the snapshot had for it; `true` if it did. -/
def reclaim (p : MemoryPool) (poolId i generation : Nat) : MemoryPool × Bool :=
  if (p.blocks i).isEvictable then
    match p.free ⟨i, poolId, generation⟩ with
    | .ok p => ({ p with evictionsTotal := min (p.evictionsTotal + 1) maxU64 }, true)
    | .error _ => (p, false)
  else (p, false)

def used (p : MemoryPool) : Nat :=
  (List.range p.blockCount).countP fun i => (p.blocks i).state != .free

end MemoryPool

/-! ## Histories -/

inductive Use where
  | share
  | free
  | getPtr
  | getSize
  | note (n : Note)
  deriving DecidableEq, Repr

def MemoryPool.accepts (p : MemoryPool) (h : ModelHandle) : Use → Bool
  | .share => (p.share h).isOk
  | .free => (p.free h).isOk
  | .getPtr => (p.getPtr h).isSome
  | .getSize => (p.getSize h).isSome
  | .note n => (p.track h n).isOk

inductive Op where
  | alloc (now owner : Nat)
  | share (h : ModelHandle)
  | free (h : ModelHandle)
  | evict (i generation : Nat)
  | note (h : ModelHandle) (n : Note)
  deriving DecidableEq, Repr

structure History where
  pool : MemoryPool
  /-- How often each block has become `Free`. -/
  epoch : Nat → Nat
  /-- The allocs and shares of each block since it was `Free`, and the frees. -/
  grants : Nat → Nat
  frees : Nat → Nat
  /-- Every handle that was given out, with the epoch of its block at that time. -/
  issued : List (ModelHandle × Nat)
  maxUsed : Nat
  reclaimed : Nat

namespace History

def init (base count : Nat) : History where
  pool := .init base count
  epoch := fun _ => 0
  grants := fun _ => 0
  frees := fun _ => 0
  issued := []
  maxUsed := 0
  reclaimed := 0

def bump (f : Nat → Nat) (i : Nat) : Nat → Nat := update f i (f i + 1)

def perform (poolId : Nat) (s : History) : Op → History
  | .alloc now owner =>
    match s.pool.alloc poolId now owner with
    | .error _ => s
    | .ok (p, h) =>
      { s with
        pool := p
        grants := update s.grants h.blockIndex 1
        frees := update s.frees h.blockIndex 0
        issued := (h, s.epoch h.blockIndex) :: s.issued }
  | .share h =>
    match s.pool.share h with
    | .error _ => s
    | .ok (p, h') =>
      { s with
        pool := p
        grants := bump s.grants h.blockIndex
        issued := (h', s.epoch h.blockIndex) :: s.issued }
  | .free h =>
    match s.pool.free h with
    | .error _ => s
    | .ok p =>
      { s with
        pool := p
        frees := bump s.frees h.blockIndex
        epoch := if (p.blocks h.blockIndex).state = .free
          then bump s.epoch h.blockIndex else s.epoch }
  | .evict i generation =>
    match s.pool.reclaim poolId i generation with
    | (_, false) => s
    | (p, true) =>
      { s with
        pool := p
        epoch := bump s.epoch i
        reclaimed := s.reclaimed + 1 }
  | .note h n =>
    match s.pool.track h n with
    | .error _ => s
    | .ok p => { s with pool := p }

end History

def Op.goesTo (poolId : Nat) : Op → Bool
  | .share h => h.poolId == poolId
  | .free h => h.poolId == poolId
  | .note h _ => h.poolId == poolId
  | _ => true

namespace History

def step (poolId : Nat) (s : History) (op : Op) : Option History :=
  if op.goesTo poolId then
    let s := s.perform poolId op
    some { s with maxUsed := max s.maxUsed s.pool.used }
  else none

end History

end SlmOs.ModelMem
