import SlmOs.Foundation.Ledger
import SlmOs.Foundation.Transition

/-!
# Shared buffers

The shared buffers of `kernel/ipc/ipc.c`: a table of descriptors, each with its
backing memory, a reference count and the list of its mappings.  The page
allocator and the GPU allocator are parameters of a call, which may refuse any
request; a null pointer is `none`, and `GPU_OK` comes with an address, as the
drivers assert.  What a call takes from an allocator and gives back to one is
part of its result.

A buffer is known by its slot in the table.  Tasks are entries of the task table.
-/

namespace SlmOs.Ipc

open Foundation

def maxTasks : Nat := 64

def shmBufferMax : Nat := 64

def shmPageSize : Nat := 4096

def blockSize : Nat := 2 * 1024 * 1024

def shmRead : BitVec 32 := 1#32

def shmWrite : BitVec 32 := 2#32

def shmGpuAccessible : BitVec 32 := 4#32

def gpuMemReadwrite : BitVec 32 := 3#32

def gpuMemAlign2mb : BitVec 32 := 16#32

instance : NeZero maxTasks := ⟨by decide⟩

abbrev TaskSlot := Fin maxTasks

inductive Source where
  | pmm
  | gpu
  deriving DecidableEq, Repr

structure Chunk where
  source : Source
  addr : Nat
  pages : Nat
  deriving DecidableEq, Repr

structure ShmMapping where
  task : TaskSlot
  virtAddr : Nat
  perms : BitVec 32
  deriving DecidableEq, Repr

structure SharedBuffer where
  id : Nat
  descriptor : Nat
  physBase : Nat
  size : Nat
  flags : BitVec 32
  refcount : Nat
  owner : TaskSlot
  mappings : List ShmMapping
  gpuBacked : Bool
  deriving DecidableEq, Repr

structure BufferTable where
  buffers : Nat → Option SharedBuffer
  nextBufferId : Nat

def BufferTable.init : BufferTable := ⟨fun _ => none, 1⟩

inductive ShmStatus where
  | ok
  | invalid
  | busy
  deriving DecidableEq, Repr

structure Allocators where
  pmmAllocPage : Option Nat
  pmmAllocPages : Nat → Option Nat
  gpuAvailable : Bool
  gpuAlloc : Nat → BitVec 32 → Option Nat

/-! ## Creating a buffer -/

def roundToBlock (size : Nat) : Nat :=
  (size + blockSize - 1) % 2 ^ 64 / blockSize * blockSize

def allocBacking (env : Allocators) (size : Nat) (flags : BitVec 32) : Option Chunk :=
  let pages := size / shmPageSize
  let fromPmm := (env.pmmAllocPages pages).map fun a => ⟨.pmm, a, pages⟩
  if flags &&& shmGpuAccessible ≠ 0 ∧ env.gpuAvailable then
    let gpuFlags :=
      if size ≥ 2 * 1024 * 1024 then gpuMemReadwrite ||| gpuMemAlign2mb else gpuMemReadwrite
    match env.gpuAlloc size gpuFlags with
    | some a => some ⟨.gpu, a, pages⟩
    | none => fromPmm
  else fromPmm

def BufferTable.freeSlot (t : BufferTable) : Option Nat :=
  (List.range shmBufferMax).find? fun i => (t.buffers i).isNone

structure CreateResult where
  table : BufferTable
  slot : Option Nat
  /-- What was taken and given back, the newest first. -/
  log : List (Entry Chunk)

def newBuffer (id : Nat) (current : TaskSlot) (size : Nat) (flags : BitVec 32) (buf : Nat)
    (backing : Chunk) : SharedBuffer where
  id := id
  descriptor := buf
  physBase := backing.addr
  size := size
  flags := flags
  refcount := 1
  owner := current
  mappings := []
  gpuBacked := backing.source = .gpu

def registerBuffer (t : BufferTable) (current : TaskSlot) (size : Nat) (flags : BitVec 32)
    (buf : Nat) (backing : Chunk) : CreateResult :=
  match t.freeSlot with
  | some i =>
    let buffer := newBuffer t.nextBufferId current size flags buf backing
    ⟨{ buffers := Function.update t.buffers i (some buffer)
       nextBufferId := (t.nextBufferId + 1) % 2 ^ 32 }, some i,
      [.take backing, .take ⟨.pmm, buf, 1⟩]⟩
  | none =>
    -- the pages go to the PMM, wherever they came from
    ⟨t, none, [.give ⟨.pmm, buf, 1⟩, .give ⟨.pmm, backing.addr, size / shmPageSize⟩,
        .take backing, .take ⟨.pmm, buf, 1⟩]⟩

def sharedBufferCreate (t : BufferTable) (env : Allocators) (current : TaskSlot)
    (size : Nat) (flags : BitVec 32) : CreateResult :=
  if size = 0 then ⟨t, none, []⟩
  else
    match env.pmmAllocPage with
    | none => ⟨t, none, []⟩
    | some buf =>
      match allocBacking env (roundToBlock size) flags with
      | none => ⟨t, none, [.give ⟨.pmm, buf, 1⟩, .take ⟨.pmm, buf, 1⟩]⟩
      | some backing => registerBuffer t current (roundToBlock size) flags buf backing

theorem create_cases (t : BufferTable) (env : Allocators) (current : TaskSlot) (size : Nat)
    (flags : BitVec 32) :
    (size = 0 ∨ env.pmmAllocPage = none) ∧
        sharedBufferCreate t env current size flags = ⟨t, none, []⟩ ∨
      (size ≠ 0 ∧ ∃ buf, env.pmmAllocPage = some buf ∧
        (allocBacking env (roundToBlock size) flags = none ∧
            sharedBufferCreate t env current size flags =
              ⟨t, none, [.give ⟨.pmm, buf, 1⟩, .take ⟨.pmm, buf, 1⟩]⟩ ∨
          ∃ backing, allocBacking env (roundToBlock size) flags = some backing ∧
            sharedBufferCreate t env current size flags =
              registerBuffer t current (roundToBlock size) flags buf backing)) := by
  unfold sharedBufferCreate
  by_cases hsize : size = 0
  · simp [hsize]
  rw [if_neg hsize]
  cases env.pmmAllocPage with
  | none => simp
  | some buf =>
    refine .inr ⟨hsize, buf, rfl, ?_⟩
    cases allocBacking env (roundToBlock size) flags with
    | none => exact .inl ⟨rfl, rfl⟩
    | some backing => exact .inr ⟨backing, rfl, rfl⟩

/-! ## Mapping, unmapping, destroying -/

def limitPerms (flags perms : BitVec 32) : BitVec 32 :=
  let perms := if flags &&& shmRead = 0 then perms &&& ~~~shmRead else perms
  if flags &&& shmWrite = 0 then perms &&& ~~~shmWrite else perms

/-- `page` says whether the PMM has a page for the mapping. -/
def sharedBufferMap (b : SharedBuffer) (current : TaskSlot) (task : Option TaskSlot)
    (perms : BitVec 32) (page : Bool) : SharedBuffer × Option Nat :=
  let task := task.getD current
  let perms := limitPerms b.flags perms
  if b.mappings.any fun m => m.task = task then (b, none)
  else if !page then (b, none)
  else
    ({ b with
        mappings := ⟨task, b.physBase, perms⟩ :: b.mappings
        refcount := (b.refcount + 1) % 2 ^ 32 }, some b.physBase)

def removeMapping (task : TaskSlot) : List ShmMapping → Option (List ShmMapping)
  | [] => none
  | m :: l => if m.task = task then some l else (removeMapping task l).map (m :: ·)

def sharedBufferUnmap (b : SharedBuffer) (current : TaskSlot) (task : Option TaskSlot) :
    SharedBuffer × ShmStatus :=
  match removeMapping (task.getD current) b.mappings with
  | some l => ({ b with mappings := l, refcount := (b.refcount + (2 ^ 32 - 1)) % 2 ^ 32 }, .ok)
  | none => (b, .invalid)

def SharedBuffer.backing (b : SharedBuffer) : Chunk :=
  ⟨if b.gpuBacked then .gpu else .pmm, b.physBase, b.size / shmPageSize⟩

/-- The buffer in slot `i`; what is given back comes third. -/
def sharedBufferDestroy (t : BufferTable) (current : TaskSlot) (i : Nat) :
    BufferTable × ShmStatus × List (Entry Chunk) :=
  match t.buffers i with
  | none => (t, .invalid, [])
  | some b =>
    if b.owner ≠ current then (t, .invalid, [])
    else if b.refcount > 1 then (t, .busy, [])
    else
      ({ t with buffers := Function.update t.buffers i none }, .ok,
        [.give ⟨.pmm, b.descriptor, 1⟩, .give b.backing])

/-! ## What a failed creation leaves behind -/

/-- Everything that was taken has been given back, to whom it was taken from. -/
def LeavesNothing (log : List (Entry Chunk)) : Prop :=
  InBalance log ∧ ∀ c, isHeld log c = false

/-- A failed creation returns everything and leaves the table as it was. -/
def CleanFailure (t : BufferTable) (r : CreateResult) : Prop :=
  r.slot = none → LeavesNothing r.log ∧ r.table = t

def GpuServes (env : Allocators) (size : Nat) (flags : BitVec 32) : Prop :=
  flags &&& shmGpuAccessible ≠ 0 ∧ env.gpuAvailable = true ∧ (env.gpuAlloc (roundToBlock size)
      (if roundToBlock size ≥ 2 * 1024 * 1024 then gpuMemReadwrite ||| gpuMemAlign2mb
        else gpuMemReadwrite)).isSome = true

theorem leavesNothing_pair (hne : a ≠ b) : LeavesNothing [.give a, .give b, .take b, .take a] := by
  refine ⟨?_, fun c => ?_⟩
  · simp [isHeld, hne, hne.symm]
  by_cases hca : c = a
  · simp [isHeld, hca]
  by_cases hcb : c = b
  · simp [isHeld, hcb]
  · simp [isHeld, hca, hcb]

theorem pages_ne_one (size : Nat) : roundToBlock size / shmPageSize ≠ 1 := by
  unfold roundToBlock blockSize shmPageSize
  omega

theorem allocBacking_gpu (h : GpuServes env size flags) :
    ∃ a, allocBacking env (roundToBlock size) flags =
      some ⟨.gpu, a, roundToBlock size / shmPageSize⟩ := by
  obtain ⟨hflag, havail, hsome⟩ := h
  obtain ⟨a, ha⟩ := Option.isSome_iff_exists.mp hsome
  refine ⟨a, ?_⟩
  simp only [allocBacking, if_pos (And.intro hflag havail)]
  rw [ha]

theorem allocBacking_pmm (h : ¬GpuServes env size flags) :
    allocBacking env (roundToBlock size) flags =
      (env.pmmAllocPages (roundToBlock size / shmPageSize)).map fun a =>
        ⟨.pmm, a, roundToBlock size / shmPageSize⟩ := by
  unfold allocBacking
  simp only
  split
  · next hgpu =>
    rw [GpuServes, not_and, not_and] at h
    have hnone := h hgpu.1 hgpu.2
    rw [Bool.not_eq_true, Option.isSome_eq_false_iff, Option.isNone_iff_eq_none] at hnone
    rw [hnone]
  · rfl

theorem cleanFailure_register (t : BufferTable) (current : TaskSlot) (size : Nat)
    (flags : BitVec 32) (buf a : Nat) (source : Source) :
    CleanFailure t (registerBuffer t current (roundToBlock size) flags buf
        ⟨source, a, roundToBlock size / shmPageSize⟩) ↔
      source = .pmm ∨ t.freeSlot ≠ none := by
  unfold registerBuffer
  cases t.freeSlot with
  | some i => simp [CleanFailure]
  | none =>
    simp only [CleanFailure, forall_const, and_true, ne_eq, not_true_eq_false, or_false]
    cases source with
    | pmm =>
      simp only [iff_true]
      refine leavesNothing_pair fun heq => ?_
      exact pages_ne_one size (congrArg Chunk.pages heq).symm
    | gpu =>
      -- the GPU never gets its memory back
      refine iff_of_false (fun hclean => ?_) (by decide)
      have hheld := hclean.2 ⟨.gpu, a, roundToBlock size / shmPageSize⟩
      simp [isHeld] at hheld

/--
A creation that fails is clean, unless the table is full and the memory came from
the GPU: that memory goes to the page allocator.
-/
theorem create_failure_clean_iff (t : BufferTable) (env : Allocators) (current : TaskSlot)
    (size : Nat) (flags : BitVec 32) :
    CleanFailure t (sharedBufferCreate t env current size flags) ↔
      size = 0 ∨ env.pmmAllocPage = none ∨ ¬GpuServes env size flags ∨ t.freeSlot ≠ none := by
  rcases create_cases t env current size flags with ⟨hearly, hres⟩ | ⟨hsize, buf, hbuf, hlate⟩
  · rw [hres]
    refine iff_of_true (fun _ => ⟨⟨trivial, fun _ => rfl⟩, rfl⟩) ?_
    rcases hearly with hsize | hpage
    · exact .inl hsize
    · exact .inr (.inl hpage)
  simp only [hsize, hbuf, reduceCtorEq, false_or]
  by_cases hgpu : GpuServes env size flags
  · obtain ⟨a, ha⟩ := allocBacking_gpu hgpu
    rcases hlate with ⟨hnone, -⟩ | ⟨backing, hsome, hres⟩
    · rw [ha] at hnone
      cases hnone
    rw [ha, Option.some.injEq] at hsome
    rw [hres, ← hsome, cleanFailure_register]
    simp [hgpu]
  rw [allocBacking_pmm hgpu] at hlate
  simp only [hgpu, not_false_eq_true, true_or, iff_true]
  rcases hlate with ⟨-, hres⟩ | ⟨backing, hsome, hres⟩
  · rw [hres]
    exact fun _ => ⟨by simp [LeavesNothing, isHeld], rfl⟩
  obtain ⟨a, -, rfl⟩ := Option.map_eq_some_iff.mp hsome
  rw [hres, cleanFailure_register]
  exact .inl rfl

def fullTable : BufferTable where
  buffers := fun i => some
    { id := i + 1
      descriptor := 4096 * (i + 1)
      physBase := blockSize * (i + 1)
      size := blockSize
      flags := shmRead ||| shmWrite
      refcount := 1
      owner := 0
      mappings := []
      gpuBacked := false }
  nextBufferId := 65

def gpuWithMemory : Allocators where
  pmmAllocPage := some 0x80000000
  pmmAllocPages := fun _ => some 0x90000000
  gpuAvailable := true
  gpuAlloc := fun _ _ => some 0xA0000000

theorem gpu_memory_given_to_pmm : (sharedBufferCreate fullTable gpuWithMemory 0 4096
        (shmRead ||| shmWrite ||| shmGpuAccessible)).slot = none ∧
      ¬LeavesNothing (sharedBufferCreate fullTable gpuWithMemory 0 4096
        (shmRead ||| shmWrite ||| shmGpuAccessible)).log := by
  refine ⟨by decide +kernel, fun hclean => ?_⟩
  exact absurd (hclean.2 ⟨.gpu, 0xA0000000, 512⟩) (by decide +kernel)

end SlmOs.Ipc
