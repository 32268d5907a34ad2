import SlmOs.Foundation.DoublyLinked
import Mathlib.Data.Nat.Bitwise

/-!
# The buddy allocator of `kernel/mm/pmm.c`

Addresses are byte addresses, `0` is the null pointer, and the header
`struct free_block` that the allocator keeps at the start of every free block
is the value of `mem` at the block's address.  A result `none` stands for a
call that never returns.
-/

namespace SlmOs.Pmm

open Function Foundation

def pageSize : Nat := 4096

def pageShift : Nat := 12

/-- `MAX_ORDER`: the largest block has `2 ^ 19` pages. -/
def maxOrder : Nat := 19

/-- The number of values of a `uintptr_t` or `size_t`. -/
def wordModulus : Nat := 2 ^ 64

def pmmAllocFail : Nat := wordModulus - 1

inductive BlockStatus where
  | free
  | allocated
  | split
  deriving DecidableEq, Repr

structure BuddyState where
  mem : Nat → Link Nat
  freeLists : Nat → Nat
  freeCounts : Nat → Nat
  heapStart : Nat
  heapEnd : Nat
  freePages : Nat
  allocCount : Nat
  freeCount : Nat
  splitCount : Nat
  mergeCount : Nat
  initialized : Bool
  blockState : Nat → BlockStatus

/-! ## Helper functions -/

/--
The loop of `log2_ceil`.  The shift is taken modulo the word size, so that a
count above `2 ^ 63` drives `val` to zero and the loop never ends.
-/
def log2CeilLoop (n : Nat) : Nat → Nat → Nat → Option Nat
  | 0, _, _ => none
  | fuel + 1, val, order =>
    if val < n then
      log2CeilLoop n fuel (val * 2 % wordModulus) (order + 1)
    else some order

def log2Ceil (n : Nat) : Option Nat :=
  if n ≤ 1 then some 0 else log2CeilLoop n 65 1 0

def orderToPages (order : Nat) : Nat := 2 ^ order

def orderToSize (order : Nat) : Nat := orderToPages order * pageSize

def addrToBlockIndex (s : BuddyState) (addr : Nat) : Nat :=
  (addr - s.heapStart) / pageSize

def getBuddyAddr (addr order : Nat) : Nat := addr ^^^ orderToSize order

def isAlignedToOrder (addr order : Nat) : Bool :=
  addr % orderToSize order == 0

/-! ## Free list operations -/

def freeListAdd (s : BuddyState) (addr order : Nat) : BuddyState :=
  { s with
    mem := Link.pushFront 0 s.mem (s.freeLists order) addr
    freeLists := update s.freeLists order addr
    freeCounts := update s.freeCounts order (s.freeCounts order + 1) }

def freeListRemove (s : BuddyState) (addr order : Nat) : BuddyState :=
  { s with
    mem := Link.unlink 0 s.mem addr
    freeLists := update s.freeLists order (Link.unlinkHead 0 s.mem (s.freeLists order) addr)
    freeCounts := update s.freeCounts order (s.freeCounts order - 1) }

def freeListPop (s : BuddyState) (order : Nat) : BuddyState × Nat :=
  let block := s.freeLists order
  if block = 0 then (s, pmmAllocFail)
  else
    let next := (s.mem block).next
    let mem := if next ≠ 0 then Link.setPrev s.mem next 0 else s.mem
    ({ s with
        mem := update mem block ⟨0, 0⟩
        freeLists := update s.freeLists order next
        freeCounts := update s.freeCounts order (s.freeCounts order - 1) },
      block)

/-! ## Block state tracking -/

def fillStatus (status : BlockStatus) (base : Nat) (f : Nat → BlockStatus) : Nat → Nat → BlockStatus
  | 0 => f
  | i + 1 => update (fillStatus status base f i) (base + i) status

def setBlockState (s : BuddyState) (addr order : Nat) (status : BlockStatus) : BuddyState :=
  { s with
    blockState := fillStatus status (addrToBlockIndex s addr) s.blockState (orderToPages order) }

def getBlockState (s : BuddyState) (addr : Nat) : BlockStatus :=
  s.blockState (addrToBlockIndex s addr)

def isBuddyFree (s : BuddyState) (buddyAddr order : Nat) : Bool :=
  if buddyAddr < s.heapStart ∨ buddyAddr ≥ s.heapEnd then false
  else
    (List.range (orderToPages order)).all fun i =>
      s.blockState (addrToBlockIndex s buddyAddr + i) == .free

/-! ## Allocation and release of blocks -/

/-- Split a block of order `o` down to `order`, freeing every upper half. -/
def splitDown (order block : Nat) : Nat → BuddyState → BuddyState
  | 0, s => s
  | o + 1, s =>
    if o + 1 > order then
      let s := { s with splitCount := s.splitCount + 1 }
      let buddy := block + orderToSize o
      splitDown order block o (freeListAdd (setBlockState s buddy o .free) buddy o)
    else s

def takeBlock (s : BuddyState) (block o order : Nat) : BuddyState :=
  let s := splitDown order block o s
  let s := setBlockState s block order .allocated
  { s with
    freePages := s.freePages - orderToPages order
    allocCount := s.allocCount + 1 }

def buddyAlloc (s : BuddyState) (order : Nat) : BuddyState × Nat :=
  match (List.range' order (maxOrder + 1 - order)).find?
      (fun o => 0 < s.freeCounts o) with
  | none => (s, pmmAllocFail)
  | some o =>
    let popped := freeListPop s o
    (takeBlock popped.1 popped.2 o order, popped.2)

/--
The coalescing loop of `buddy_free`; the first argument is the number of
orders left below `maxOrder`, which the source tests as `order < MAX_ORDER`.
-/
def coalesce : Nat → BuddyState → Nat → Nat → BuddyState × Nat × Nat
  | 0, s, addr, order => (s, addr, order)
  | n + 1, s, addr, order =>
    let buddyAddr := getBuddyAddr addr order
    if !isBuddyFree s buddyAddr order then (s, addr, order)
    else
      let mergedAddr := if addr < buddyAddr then addr else buddyAddr
      if !isAlignedToOrder mergedAddr (order + 1) then (s, addr, order)
      else
        let s := freeListRemove s buddyAddr order
        coalesce n { s with mergeCount := s.mergeCount + 1 } mergedAddr
          (order + 1)

def buddyFree (s : BuddyState) (addr order originalOrder : Nat) :
    BuddyState :=
  let merged := coalesce (maxOrder - order) s addr order
  let s := setBlockState merged.1 merged.2.1 merged.2.2 .free
  let s := freeListAdd s merged.2.1 merged.2.2
  { s with
    freePages := s.freePages + orderToPages originalOrder
    freeCount := s.freeCount + 1 }

/-! ## Public interface -/

def pmmAllocPages (s : BuddyState) (count : Nat) : Option (BuddyState × Nat) :=
  if !s.initialized then some (s, 0)
  else if count = 0 then some (s, 0)
  else
    (log2Ceil count).map fun order =>
      if order > maxOrder then (s, 0)
      else
        let result := buddyAlloc s order
        if result.2 = pmmAllocFail then (result.1, 0) else result

structure Best where
  addr : Nat
  order : Nat
  found : Bool
  deriving DecidableEq, Repr

def Best.consider (best : Best) (a o : Nat) : Best :=
  if !best.found ∨ a < best.addr then ⟨a, o, true⟩ else best

def scanList (mem : Nat → Link Nat) (o : Nat) : Nat → Nat → Best → Option Best
  | _, 0, best => some best
  | 0, _ + 1, _ => none
  | fuel + 1, blk + 1, best =>
    scanList mem o fuel (mem (blk + 1)).next (best.consider (blk + 1) o)

/--
Scan every free list of the given orders.  No list is longer than the heap has
pages, and a walk that has not reached null by then has entered a cycle.
-/
def scanOrders (s : BuddyState) : List Nat → Best → Option Best
  | [], best => some best
  | o :: orders, best => do
      let best ← scanList s.mem o ((s.heapEnd - s.heapStart) / pageSize) (s.freeLists o) best
      scanOrders s orders best

def pmmAllocPagesLow (s : BuddyState) (count : Nat) : Option (BuddyState × Nat) :=
  if !s.initialized then some (s, 0)
  else if count = 0 then some (s, 0)
  else do
    let order ← log2Ceil count
    if order > maxOrder then some (s, 0)
    else do
      let best ← scanOrders s (List.range' order (maxOrder + 1 - order)) ⟨wordModulus - 1, 0, false⟩
      if !best.found then some (s, 0)
      else
        let s := freeListRemove s best.addr best.order
        some (takeBlock s best.addr best.order order, best.addr)

def pmmFreePages (s : BuddyState) (page count : Nat) : Option BuddyState :=
  if !s.initialized then some s
  else if count = 0 ∨ page = 0 then some s
  else if page < s.heapStart ∨ page ≥ s.heapEnd then some s
  else if page % pageSize ≠ 0 then some s
  else
    (log2Ceil count).map fun order =>
      if order > maxOrder then s
      else if !isAlignedToOrder page order then s
      else if getBlockState s page = .free then s
      else buddyFree s page order order

end SlmOs.Pmm
