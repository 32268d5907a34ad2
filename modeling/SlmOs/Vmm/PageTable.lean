import SlmOs.Foundation.Ledger

/-!
# Page tables of user tasks

A model of the part of `kernel/mm/vmm.c` that builds, changes and tears down the
address space of a user task.  A page table is a page of 512 descriptors; physical
memory maps the address of a page to its words.  Which pages `pmm_alloc_pages`
returns is not decided here: `choose` gives its answer to every call, and an answer
that is not free is a failure.
-/

namespace SlmOs.Vmm

open Function Foundation

abbrev Word := BitVec 64

def pageSize : Nat := 4096

/-! ## Physical pages -/

structure Pmm where
  free : Word → Bool
  /-- Calls of `pmm_alloc_pages` so far. -/
  calls : Nat
  /-- The pages handed out to the code modelled here and taken back. -/
  log : List (Entry Word)

def blockPages (p : Word) (pages : Nat) : List Word :=
  (List.range pages).map fun i => p + BitVec.ofNat 64 (i * pageSize)

namespace Pmm

def take (pmm : Pmm) (p : Word) : Pmm :=
  { pmm with
    free := update pmm.free p false
    log := .take p :: pmm.log }

def give (pmm : Pmm) (p : Word) : Pmm :=
  { pmm with
    free := update pmm.free p true
    log := .give p :: pmm.log }

def pmmAllocPages (choose : Nat → Option Word) (pmm : Pmm) (pages : Nat) : Pmm × Option Word :=
  let called := { pmm with calls := pmm.calls + 1 }
  match choose pmm.calls with
  | none => (called, none)
  | some p =>
    if ∀ q ∈ blockPages p pages, pmm.free q then
      ((blockPages p pages).foldl take called, some p)
    else (called, none)

def pmmFreePages (pmm : Pmm) (p : Word) (pages : Nat) : Pmm :=
  (blockPages p pages).foldl give pmm

end Pmm

/-! ## Descriptors -/

def pteTypeInvalid : Word := 0x0
def pteTypeTable : Word := 0x3
def pteTypePage : Word := 0x3
def pteTypeMask : Word := 0x3

def pteAttrIndex (n : Word) : Word := (n &&& 0x7) <<< 2
def pteApRwEl1 : Word := 0 <<< 6
def pteApRwAll : Word := 1 <<< 6
def pteApRoEl1 : Word := 2 <<< 6
def pteApRoAll : Word := 3 <<< 6
def pteShNon : Word := 0 <<< 8
def pteShInner : Word := 3 <<< 8
def pteAf : Word := 1 <<< 10
def pteNg : Word := 1 <<< 11
def ptePxn : Word := 1 <<< 53
def pteUxn : Word := 1 <<< 54
def pteSwPmmOwned : Word := 1 <<< 58
def pteAddrMask : Word := 0x0000FFFFFFFFF000

def mairIdxDevice : Word := 0
def mairIdxNormalNc : Word := 2
def mairIdxNormalWb : Word := 3

abbrev Flags := BitVec 32

def vmmFlagDevice : Flags := 1 <<< 0
def vmmFlagNocache : Flags := 1 <<< 1
def vmmFlagRead : Flags := 1 <<< 2
def vmmFlagWrite : Flags := 1 <<< 3
def vmmFlagExec : Flags := 1 <<< 4
def vmmFlagUser : Flags := 1 <<< 5
def vmmFlagPmmOwned : Flags := 1 <<< 11
def vmmFlagsUserCode : Flags := vmmFlagRead ||| vmmFlagExec ||| vmmFlagUser
def vmmFlagsUserData : Flags := vmmFlagRead ||| vmmFlagWrite ||| vmmFlagUser

def hasFlag (flags flag : Flags) : Bool := flags &&& flag ≠ 0

def makeTableDesc (tablePa : Word) : Word :=
  pteTypeTable ||| (tablePa &&& pteAddrMask)

def memoryBits (flags : Flags) : Word :=
  if hasFlag flags vmmFlagDevice then pteAttrIndex mairIdxDevice ||| pteShNon
  else if hasFlag flags vmmFlagNocache then
    pteAttrIndex mairIdxNormalNc ||| pteShInner
  else pteAttrIndex mairIdxNormalWb ||| pteShInner

def accessBits (flags : Flags) : Word :=
  if hasFlag flags vmmFlagUser then
    if !hasFlag flags vmmFlagWrite then pteApRoAll else pteApRwAll
  else if !hasFlag flags vmmFlagWrite then pteApRoEl1
  else pteApRwEl1

def executeBits (flags : Flags) : Word :=
  (if !hasFlag flags vmmFlagExec then ptePxn else 0) |||
    (if !hasFlag flags vmmFlagUser || !hasFlag flags vmmFlagExec then pteUxn
    else 0)

def ownedBit (flags : Flags) : Word :=
  if hasFlag flags vmmFlagPmmOwned then pteSwPmmOwned else 0

def globalBit (flags : Flags) : Word :=
  if hasFlag flags vmmFlagUser then pteNg else 0

def makePageDesc (pa : Word) (flags : Flags) : Word :=
  pteTypePage ||| (pa &&& pteAddrMask) ||| pteAf ||| memoryBits flags |||
    accessBits flags ||| executeBits flags ||| ownedBit flags |||
    globalBit flags

def pteType (e : Word) : Word := e &&& pteTypeMask
def pteAddr (e : Word) : Word := e &&& pteAddrMask
def pteOwned (e : Word) : Bool := e &&& pteSwPmmOwned ≠ 0

/-! ## Addresses -/

def l1BlockSize : Nat := 1024 * 1024 * 1024
def entriesPerTable : Nat := 512
def userL1First : Nat := 256
def userL1Limit : Nat := 512
def userVaBase : Nat := userL1First * l1BlockSize
def userVaLimit : Nat := userL1Limit * l1BlockSize
def userTextVa : Nat := userVaBase
def userStackPageVa : Nat := userVaBase + pageSize
def userMmapVaStart : Nat := userVaBase + 0x100000
def userElfStackPageVa : Nat := userMmapVaStart - pageSize

def l1Index (va : Nat) : Nat := va >>> 30 &&& 0x1FF
def l2Index (va : Nat) : Nat := va >>> 21 &&& 0x1FF
def l3Index (va : Nat) : Nat := va >>> 12 &&& 0x1FF

/-! ## Tables in memory -/

structure Machine where
  mem : Word → Nat → Word
  pmm : Pmm

namespace Machine

def store (m : Machine) (page : Word) (index : Nat) (v : Word) : Machine :=
  { m with
    mem := update m.mem page (update (m.mem page) index v) }

def fill (m : Machine) (page : Word) (data : Nat → Word) : Machine :=
  { m with mem := update m.mem page data }

def zero (m : Machine) (page : Word) : Machine := m.fill page fun _ => 0#64

def alloc (choose : Nat → Option Word) (m : Machine) : Machine × Option Word :=
  let r := m.pmm.pmmAllocPages choose 1
  ({ m with pmm := r.1 }, r.2)

def release (m : Machine) (page : Word) : Machine :=
  { m with pmm := m.pmm.pmmFreePages page 1 }

end Machine

section

variable (choose : Nat → Option Word)

/-- The table of the kernel is copied into the part below the user window. -/
def vmmCreateUserL1 (boot : Nat → Word) (m : Machine) : Machine × Option Word :=
  match m.alloc choose with
  | (m, none) => (m, none)
  | (m, some page) =>
    (m.fill page fun i => if i < userL1First then boot i else 0, some page)

/-- Where a sub-table that this call has installed is taken out again. -/
def mapRollback (m : Machine) (l1 : Word) (va : Nat) (newL2 : Option Word)
    (l2 : Word) (newL3 : Option Word) : Machine :=
  let m :=
    match newL3 with
    | some page => (m.store l2 (l2Index va) 0#64).release page
    | none => m
  match newL2 with
  | some page => (m.store l1 (l1Index va) 0#64).release page
  | none => m

def mapInL3 (m : Machine) (l1 : Word) (va : Nat) (pa : Word) (flags : Flags)
    (newL2 : Option Word) (l2 : Word) (newL3 : Option Word) (l3 : Word) :
    Machine × Bool :=
  if pteType (m.mem l3 (l3Index va)) ≠ pteTypeInvalid then
    (mapRollback m l1 va newL2 l2 newL3, false)
  else (m.store l3 (l3Index va) (makePageDesc pa flags), true)

def mapInL2 (m : Machine) (l1 : Word) (va : Nat) (pa : Word) (flags : Flags)
    (newL2 : Option Word) (l2 : Word) : Machine × Bool :=
  let entry := m.mem l2 (l2Index va)
  if pteType entry = pteTypeTable then
    mapInL3 m l1 va pa flags newL2 l2 none (pteAddr entry)
  else if pteType entry = pteTypeInvalid then
    match m.alloc choose with
    | (m, none) => (mapRollback m l1 va newL2 l2 none, false)
    | (m, some l3) =>
      mapInL3 ((m.zero l3).store l2 (l2Index va) (makeTableDesc l3)) l1 va
        pa flags newL2 l2 (some l3) l3
  else (mapRollback m l1 va newL2 l2 none, false)

def vmmUserMapPage (m : Machine) (l1 : Word) (va : Nat) (pa : Word)
    (flags : Flags) : Machine × Bool :=
  if l1 = 0#64 then (m, false)
  else if va < userVaBase ∨ va ≥ userVaLimit then (m, false)
  else if va % pageSize ≠ 0 then (m, false)
  else if pa &&& 0xFFF ≠ 0 then (m, false)
  else
    let entry := m.mem l1 (l1Index va)
    if pteType entry = pteTypeTable then
      mapInL2 choose m l1 va pa flags none (pteAddr entry)
    else if pteType entry = pteTypeInvalid then
      match m.alloc choose with
      | (m, none) => (m, false)
      | (m, some l2) =>
        mapInL2 choose ((m.zero l2).store l1 (l1Index va) (makeTableDesc l2))
          l1 va pa flags (some l2) l2
    else (m, false)

end

/-! ## Tearing down -/

def destroyL3 (m : Machine) (l3 : Word) : Machine :=
  ((List.range entriesPerTable).foldl (fun m k =>
      let entry := m.mem l3 k
      if pteType entry ≠ pteTypePage then m
      else if pteOwned entry then m.release (pteAddr entry)
      else m) m).release l3

def destroyL2 (m : Machine) (l2 : Word) : Machine :=
  ((List.range entriesPerTable).foldl (fun m j =>
      let entry := m.mem l2 j
      if pteType entry ≠ pteTypeTable then m
      else destroyL3 m (pteAddr entry)) m).release l2

def vmmDestroyUserL1 (m : Machine) (l1 : Word) : Machine :=
  if l1 = 0#64 then m
  else
    ((List.range' userL1First (userL1Limit - userL1First)).foldl (fun m i =>
        let entry := m.mem l1 i
        if pteType entry ≠ pteTypeTable then m
        else destroyL2 m (pteAddr entry)) m).release l1

/-! ## Unmapping -/

def userL3Entry (m : Machine) (l1 : Word) (va : Nat) : Option (Word × Nat) :=
  if l1 = 0#64 then none
  else if va < userVaBase ∨ va ≥ userVaLimit then none
  else if va % pageSize ≠ 0 then none
  else
    let l1Entry := m.mem l1 (l1Index va)
    if pteType l1Entry ≠ pteTypeTable then none
    else
      let l2Entry := m.mem (pteAddr l1Entry) (l2Index va)
      if pteType l2Entry ≠ pteTypeTable then none
      else some (pteAddr l2Entry, l3Index va)

def invalidatePage (l1 : Word) (r : Machine × Bool) (va : Nat) : Machine × Bool :=
  match userL3Entry r.1 l1 va with
  | none => (r.1, false)
  | some (l3, k) =>
    let entry := r.1.mem l3 k
    if pteType entry ≠ pteTypePage then (r.1, false)
    else (r.1.store l3 k (entry &&& ~~~pteTypeMask), r.2)

def reclaimPage (l1 : Word) (m : Machine) (va : Nat) : Machine :=
  match userL3Entry m l1 va with
  | none => m
  | some (l3, k) =>
    let entry := m.mem l3 k
    if entry = 0 ∨ pteType entry ≠ pteTypeInvalid then m
    else
      let m := m.store l3 k 0#64
      if pteOwned entry then m.release (pteAddr entry) else m

def rangeVas (va pages : Nat) : List Nat :=
  (List.range pages).map fun i => va + i * pageSize

def vmmUserUnmapRange (m : Machine) (l1 : Word) (va pages : Nat) : Machine × Bool :=
  if pages = 0 then (m, true)
  else
    let r := (rangeVas va pages).foldl (invalidatePage l1) (m, true)
    ((rangeVas va pages).foldl (reclaimPage l1) r.1, r.2)

end SlmOs.Vmm
