import SlmOs.Vmm.UserSpace

/-!
# Creating user tasks

`task_create_user` and `task_create_user_elf` of `kernel/sched/task.c`, with the
loader of `kernel/src/elf_user.c`.  Both build an address space step by step and
tear it down when a step fails.
-/

namespace SlmOs.Vmm

open Foundation

/-! ## ELF images -/

/-- The bytes of an image; what lies behind its end is never looked at. -/
abbrev Blob := List (BitVec 8)

inductive ElfError where
  | invalid
  | arch
  | type
  | nomem
  | segments
  | truncated
  deriving DecidableEq, Repr

def readLe (blob : Blob) (offset width : Nat) : Nat :=
  (List.range width).foldr (fun i rest => (blob.getD (offset + i) 0).toNat + 256 * rest) 0

structure Elf64Ehdr where
  magic : Nat
  eiClass : Nat
  eiData : Nat
  eType : Nat
  eMachine : Nat
  eEntry : Nat
  ePhoff : Nat
  ePhentsize : Nat
  ePhnum : Nat

def sizeofEhdr : Nat := 64

def ehdr (blob : Blob) : Elf64Ehdr where
  magic := readLe blob 0 4
  eiClass := readLe blob 4 1
  eiData := readLe blob 5 1
  eType := readLe blob 16 2
  eMachine := readLe blob 18 2
  eEntry := readLe blob 24 8
  ePhoff := readLe blob 32 8
  ePhentsize := readLe blob 54 2
  ePhnum := readLe blob 56 2

structure Elf64Phdr where
  pType : Nat
  pFlags : Nat
  pOffset : Nat
  pVaddr : Nat
  pFilesz : Nat
  pMemsz : Nat

def sizeofPhdr : Nat := 56

def phdr (blob : Blob) (i : Nat) : Elf64Phdr :=
  let base := (ehdr blob).ePhoff + i * sizeofPhdr
  { pType := readLe blob base 4
    pFlags := readLe blob (base + 4) 4
    pOffset := readLe blob (base + 8) 8
    pVaddr := readLe blob (base + 16) 8
    pFilesz := readLe blob (base + 32) 8
    pMemsz := readLe blob (base + 40) 8 }

def elfMagic : Nat := 0x464C457F
def elfClass64 : Nat := 2
def elfData2Lsb : Nat := 1
def etExec : Nat := 2
def etDyn : Nat := 3
def emAarch64 : Nat := 183
def ptLoad : Nat := 1
def pfX : Nat := 0x1
def pfW : Nat := 0x2
def pfR : Nat := 0x4
def elfMaxSegments : Nat := 8
def uint64Max : Nat := 2 ^ 64 - 1

/-- `validate_header`. -/
def elfValidate (blob : Blob) : Option ElfError :=
  let size := blob.length
  let eh := ehdr blob
  if size < sizeofEhdr then some .truncated
  else if eh.magic ≠ elfMagic then some .invalid
  else if eh.eiClass ≠ elfClass64 then some .invalid
  else if eh.eiData ≠ elfData2Lsb then some .invalid
  else if eh.eMachine ≠ emAarch64 then some .arch
  else if eh.eType ≠ etExec ∧ eh.eType ≠ etDyn then some .type
  else if eh.ePhentsize ≠ sizeofPhdr then some .invalid
  else if eh.ePhoff > size then some .truncated
  else if eh.ePhnum * sizeofPhdr > size - eh.ePhoff then some .truncated
  else none

def pfToVmmFlags (pFlags : Nat) : Flags :=
  vmmFlagUser ||| vmmFlagPmmOwned ||| (if pFlags &&& pfR ≠ 0 then vmmFlagRead else 0) |||
    (if pFlags &&& pfW ≠ 0 then vmmFlagWrite else 0) |||
    (if pFlags &&& pfX ≠ 0 then vmmFlagExec else 0)

def segmentData (blob : Blob) (ph : Elf64Phdr) (offInSeg word : Nat) : Word :=
  BitVec.ofNat 64 <| (List.range 8).foldr (fun b rest =>
      let at' := offInSeg + 8 * word + b
      (if at' < ph.pFilesz then (blob.getD (ph.pOffset + at') 0).toNat else 0) + 256 * rest) 0

def segmentError (blob : Blob) (ph : Elf64Phdr) : Option ElfError :=
  let segEnd := (ph.pVaddr + ph.pMemsz) % 2 ^ 64
  if ph.pVaddr % pageSize ≠ 0 then some .invalid
  else if ph.pVaddr < userTextVa ∨ segEnd > userElfStackPageVa then
    some .invalid
  else if ph.pFilesz > ph.pMemsz then some .invalid
  else if ph.pOffset > blob.length ∨
      ph.pFilesz > blob.length - ph.pOffset then
    some .truncated
  else none

def segmentPages (ph : Elf64Phdr) : Nat :=
  (ph.pMemsz + pageSize - 1) % 2 ^ 64 / pageSize

def loadable (blob : Blob) : List Elf64Phdr :=
  ((List.range (ehdr blob).ePhnum).map (phdr blob)).filter fun ph => ph.pType = ptLoad

def imageError (blob : Blob) : Option ElfError :=
  match elfValidate blob with
  | some e => some e
  | none =>
    if ∃ ph ∈ loadable blob, ph.pMemsz > uint64Max - ph.pVaddr then
      some .truncated
    else if (loadable blob).length = 0 then some .invalid
    else if (loadable blob).length > elfMaxSegments then some .segments
    else none

section

variable (choose : Nat → Option Word)

def loadPages (l1 : Word) (blob : Blob) (ph : Elf64Phdr) :
    List Nat → Machine → Machine × Option ElfError
  | [], m => (m, none)
  | i :: is, m =>
    match mapNewPage choose m l1 (ph.pVaddr + i * pageSize)
      (segmentData blob ph (i * pageSize)) (pfToVmmFlags ph.pFlags) with
    | (m, true) => loadPages l1 blob ph is m
    | (m, false) => (m, some .nomem)

def loadSegment (m : Machine) (l1 : Word) (blob : Blob) (ph : Elf64Phdr) :
    Machine × Option ElfError :=
  if ph.pMemsz = 0 then (m, none)
  else
    match segmentError blob ph with
    | some e => (m, some e)
    | none => loadPages choose l1 blob ph (List.range (segmentPages ph)) m

def loadSegments (l1 : Word) (blob : Blob) : List Elf64Phdr → Machine → Machine × Option ElfError
  | [], m => (m, none)
  | ph :: phs, m =>
    match loadSegment choose m l1 blob ph with
    | (m, none) => loadSegments l1 blob phs m
    | (m, some e) => (m, some e)

def elfLoadUser (blob : Blob) (m : Machine) (l1 : Word) : Machine × Except ElfError Nat :=
  if l1 = 0#64 then (m, .error .invalid)
  else
    match imageError blob with
    | some e => (m, .error e)
    | none =>
      match loadSegments choose l1 blob (loadable blob) m with
      | (m, some e) => (m, .error e)
      | (m, none) =>
        let entry := (ehdr blob).eEntry
        if entry < userTextVa ∨ entry ≥ userElfStackPageVa then
          (m, .error .invalid)
        else (m, .ok entry)

end

/-! ## Tasks -/

def maxTasks : Nat := 64
def stackSize : Nat := 0x40000
def vmmUserAsidMax : Nat := 255

structure TaskSys where
  machine : Machine
  asidInUse : Nat → Bool
  /-- The slots of `task_table` whose id is not 0. -/
  taskInUse : Nat → Bool

structure UserTask where
  slot : Nat
  userEntry : Nat
  userL1Pa : Word
  userStackTop : Nat
  userStackPhys : Word
  userVaNext : Nat
  userAsid : Nat

def allocTaskSlot (taskInUse : Nat → Bool) : Option Nat :=
  (List.range maxTasks).find? fun i => !taskInUse i

def vmmAllocAsid (asidInUse : Nat → Bool) : Option Nat :=
  (List.range' 1 vmmUserAsidMax).find? fun i => !asidInUse i

def vmmFreeAsid (s : TaskSys) (asid : Nat) : TaskSys :=
  if asid = 0 ∨ asid > vmmUserAsidMax then s
  else { s with asidInUse := Function.update s.asidInUse asid false }

section

variable (choose : Nat → Option Word)

def taskCreateWithPriority (s : TaskSys) : TaskSys × Option Nat :=
  match s.machine.pmm.pmmAllocPages choose (stackSize / pageSize) with
  | (pmm, none) => ({ s with machine := { s.machine with pmm := pmm } }, none)
  | (pmm, some stack) =>
    match allocTaskSlot s.taskInUse with
    | none =>
      ({ s with
        machine :=
          { s.machine with
            pmm := pmm.pmmFreePages stack (stackSize / pageSize) } }, none)
    | some slot =>
      ({ s with
        machine := { s.machine with pmm := pmm }
        taskInUse := Function.update s.taskInUse slot true }, some slot)

def tearDown (s : TaskSys) (l1 : Word) (asid : Nat) : TaskSys :=
  vmmFreeAsid { s with machine := vmmDestroyUserL1 s.machine l1 } asid

/-- The stack and the kernel's part of the task, once the image is mapped. -/
def finishUser (stackVa : Nat) (s : TaskSys) (l1 : Word) (asid entry : Nat) :
    TaskSys × Option UserTask :=
  match s.machine.alloc choose with
  | (m, none) => (tearDown { s with machine := m } l1 asid, none)
  | (m, some page) =>
    match vmmUserMapPage choose m l1 stackVa page
      (vmmFlagsUserData ||| vmmFlagPmmOwned) with
    | (m, false) =>
      (tearDown { s with machine := m.release page } l1 asid, none)
    | (m, true) =>
      match taskCreateWithPriority choose { s with machine := m } with
      | (s, none) =>
        (tearDown { s with machine := s.machine.release page } l1 asid, none)
      | (s, some slot) =>
        (s, some {
          slot := slot
          userEntry := entry
          userL1Pa := l1
          userStackTop := stackVa + pageSize
          userStackPhys := page
          userVaNext := userMmapVaStart
          userAsid := asid })

/--
The steps that the two functions share.  `load` fills the address space and gives
the entry point.
-/
def createUser (boot : Nat → Word) (load : Machine → Word → Machine × Option Nat) (stackVa : Nat)
    (s : TaskSys) : TaskSys × Option UserTask :=
  match vmmCreateUserL1 choose boot s.machine with
  | (m, none) => ({ s with machine := m }, none)
  | (m, some l1) =>
    match vmmAllocAsid s.asidInUse with
    | none => ({ s with machine := vmmDestroyUserL1 m l1 }, none)
    | some asid =>
      let s := { s with asidInUse := Function.update s.asidInUse asid true }
      match load m l1 with
      | (m, none) => (tearDown { s with machine := m } l1 asid, none)
      | (m, some entry) =>
        finishUser choose stackVa { s with machine := m } l1 asid entry

/-! ### Tasks that run code of the kernel image -/

structure TextUser where
  kva : Word
  bytes : Nat

def mapText (l1 : Word) (text : TextUser) : List Nat → Machine → Machine × Bool
  | [], m => (m, true)
  | i :: is, m =>
    match vmmUserMapPage choose m l1 (userTextVa + i * pageSize)
      (text.kva + BitVec.ofNat 64 (i * pageSize)) vmmFlagsUserCode with
    | (m, true) => mapText l1 text is m
    | (m, false) => (m, false)

def entryVa (text : TextUser) (userEntry : Nat) : Nat :=
  if userEntry ≥ text.kva.toNat ∧ userEntry < text.kva.toNat + text.bytes then
    userTextVa + (userEntry - text.kva.toNat)
  else userEntry

def loadText (text : TextUser) (userEntry : Nat) (m : Machine) (l1 : Word) : Machine × Option Nat :=
  if text.kva &&& 0xFFF ≠ 0 ∨ text.bytes % pageSize ≠ 0 ∨ text.bytes = 0 then
    (m, none)
  else
    match mapText choose l1 text (List.range (text.bytes / pageSize)) m with
    | (m, false) => (m, none)
    | (m, true) => (m, some (entryVa text userEntry))

def taskCreateUser (boot : Nat → Word) (text : TextUser) (userEntry : Nat)
    (s : TaskSys) : TaskSys × Option UserTask :=
  createUser choose boot (loadText choose text userEntry) userStackPageVa s

/-! ### Tasks that run an ELF image -/

def loadElf (blob : Blob) (m : Machine) (l1 : Word) : Machine × Option Nat :=
  let r := elfLoadUser choose blob m l1
  (r.1, r.2.toOption)

/-- A null pointer is `none`. -/
def taskCreateUserElf (boot : Nat → Word) (blob : Option Blob) (s : TaskSys) :
    TaskSys × Option UserTask :=
  match blob with
  | none => (s, none)
  | some blob =>
    if blob.length = 0 then (s, none)
    else createUser choose boot (loadElf choose blob) userElfStackPageVa s

end

end SlmOs.Vmm
