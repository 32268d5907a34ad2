import SlmOs.Vmm.Mapping

/-!
# The address space of a user task

The system calls `sys_mmap` and `sys_munmap` of `kernel/src/syscall.c` and the
mappings that are made for a task when it is created, as steps of one address space.
Between the steps the rest of the kernel may allocate and free other pages.
-/

namespace SlmOs.Vmm

open Foundation Pmm

structure UserSpace where
  machine : Machine
  isUser : Bool
  userL1Pa : Word
  userVaNext : Nat
  /-- The regions that `sys_mmap` has returned: address and number of pages. -/
  regions : List (Nat × Nat)

def sysMmapMaxLenBytes : Nat := 64 * 1024 * 1024

def protRead : BitVec 32 := 0x1
def protWrite : BitVec 32 := 0x2
def protExec : BitVec 32 := 0x4

def mmapFlags (prot : BitVec 32) : Flags :=
  vmmFlagUser ||| vmmFlagPmmOwned ||| (if prot &&& protRead ≠ 0 then vmmFlagRead else 0) |||
    (if prot &&& protWrite ≠ 0 then vmmFlagWrite else 0) |||
    (if prot &&& protExec ≠ 0 then vmmFlagExec else 0)

def pagesFor (len : Nat) : Nat := (len + pageSize - 1) / pageSize

section

variable (choose : Nat → Option Word)

/-- Allocate a page, write it and map it; if that fails, give it back. -/
def mapNewPage (m : Machine) (l1 : Word) (va : Nat) (data : Nat → Word)
    (flags : Flags) : Machine × Bool :=
  match m.alloc choose with
  | (m, none) => (m, false)
  | (m, some page) =>
    match vmmUserMapPage choose (m.fill page data) l1 va page flags with
    | (m, true) => (m, true)
    | (m, false) => (m.release page, false)

/--
The loop of `sys_mmap` from page `i` on, with `n` pages to go.  Both ways to fail
take back the pages that have been mapped before.
-/
def mmapPages (l1 : Word) (base : Nat) (flags : Flags) : Nat → Nat → Machine → Machine × Bool
  | 0, _, m => (m, true)
  | n + 1, i, m =>
    match mapNewPage choose m l1 (base + i * pageSize) (fun _ => 0#64)
      flags with
    | (m, true) => mmapPages l1 base flags n (i + 1) m
    | (m, false) => ((vmmUserUnmapRange m l1 base i).1, false)

/-- The address of the region, or `none` for -1. -/
def sysMmap (s : UserSpace) (len : Nat) (prot : BitVec 32) : UserSpace × Option Nat :=
  if len = 0 ∨ len > sysMmapMaxLenBytes then (s, none)
  else if !s.isUser ∨ s.userL1Pa = 0#64 then (s, none)
  else
    let pages := pagesFor len
    let total := pages * pageSize
    if s.userVaNext < userMmapVaStart ∨ s.userVaNext + total > userVaLimit then
      (s, none)
    else
      match mmapPages choose s.userL1Pa s.userVaNext (mmapFlags prot) pages 0
        s.machine with
      | (m, false) => ({ s with machine := m }, none)
      | (m, true) =>
        ({ s with
          machine := m
          userVaNext := s.userVaNext + total
          regions := (s.userVaNext, pages) :: s.regions },
          some s.userVaNext)

def sysMunmap (s : UserSpace) (addr len : Nat) : UserSpace × Bool :=
  if len = 0 ∨ len > sysMmapMaxLenBytes then (s, false)
  else if addr % pageSize ≠ 0 then (s, false)
  else if !s.isUser ∨ s.userL1Pa = 0#64 then (s, false)
  else if addr < userMmapVaStart ∨ addr ≥ userVaLimit then (s, false)
  else if addr + pagesFor len * pageSize > userVaLimit then (s, false)
  else
    let r := vmmUserUnmapRange s.machine s.userL1Pa addr (pagesFor len)
    ({ s with machine := r.1 }, r.2)

inductive SpaceAction where
  | mmap (len : Nat) (prot : BitVec 32)
  | munmap (addr len : Nat)
  /-- A mapping whose page belongs to somebody else. -/
  | mapShared (va : Nat) (pa : Word) (flags : Flags)
  | mapNew (va : Nat) (data : Nat → Word) (flags : Flags)
  /-- The rest of the kernel changes what is free. -/
  | others (free : Word → Bool)

instance (p : Word) : Decidable (IsPage p) :=
  inferInstanceAs (Decidable (_ ∧ _))

def UserSpace.others (s : UserSpace) (free : Word → Bool) : UserSpace :=
  { s with
    machine :=
      { s.machine with
        pmm :=
          { s.machine.pmm with
            free := fun p =>
              free p && decide (IsPage p) && !isHeld s.machine.pmm.log p } } }

def spaceStep (s : UserSpace) : SpaceAction → Option UserSpace
  | .mmap len prot => some (sysMmap choose s len prot).1
  | .munmap addr len => some (sysMunmap s addr len).1
  | .mapShared va pa flags =>
    if hasFlag flags vmmFlagPmmOwned then none
    else
      some { s with
        machine :=
          (vmmUserMapPage choose s.machine s.userL1Pa va pa flags).1 }
  | .mapNew va data flags =>
    if hasFlag flags vmmFlagPmmOwned then
      some { s with
        machine :=
          (mapNewPage choose s.machine s.userL1Pa va data flags).1 }
    else none
  | .others free => some (s.others free)

end

/-! ## One page of a new mapping -/

section

variable {choose : Nat → Option Word} {pool : Word → Prop} {m : Machine} {l1 : Word} {flags : Flags}

theorem Tidy.fill (h : Tidy pool m l1 (p :: hand)) (data : Nat → Word) :
    Tidy pool (m.fill p data) l1 (p :: hand) ∧ SameTree m (m.fill p data) l1 := by
  obtain ⟨h2, h3, he⟩ := fill_spec h.in_hand data
  refine ⟨h.same rfl rfl (pageAt_congr h2 h3 he) fun i j k => ?_, h2, h3, he⟩
  simpa [he] using h.accessed i j k

theorem mapNewPage_spec (choose : Nat → Option Word) (h : Tidy pool m l1 []) (hs : Settled m l1)
    (hflag : hasFlag flags vmmFlagPmmOwned = true) (va : Nat) (data : Nat → Word) :
    (∃ m' p, mapNewPage choose m l1 va data flags = (m', true) ∧
        Tidy pool m' l1 [] ∧ Mapped m m' l1 va (makePageDesc p flags)) ∨
      ∃ m', mapNewPage choose m l1 va data flags = (m', false) ∧
        Tidy pool m' l1 [] ∧ SameTree m m' l1 := by
  unfold mapNewPage
  rcases alloc_cases choose m with heq | ⟨page, hfree, heq⟩
  · rw [heq]
    exact .inr ⟨_, rfl, h.called, SameTree.pmm m _ l1⟩
  rw [heq]
  dsimp only
  obtain ⟨hfill, hsame⟩ := (h.take hfree).fill data
  have hsame := (SameTree.pmm m (m.pmm.called.take page) l1).trans hsame
  have hs' : Settled _ l1 := hs.congr hsame.entry
  generalize Machine.fill { m with pmm := m.pmm.called.take page } page data =
    m₁ at hfill hsame hs' ⊢
  rcases houtcome : vmmUserMapPage choose m₁ l1 va page flags with ⟨m', ok⟩
  have hmap : MapOutcome pool m₁ l1 va (makePageDesc page flags) [page] [] (m', ok) := by
    rw [← houtcome]
    exact vmmUserMapPage_outcome hfill hs' (.owned hflag)
  rcases hmap with ⟨rfl, htidy, hmapped⟩ | ⟨rfl, htidy, hsame'⟩
  · refine .inl ⟨m', page, rfl, htidy, hmapped.window, ?_,
      hsame.grows.trans hmapped.grows, fun a b c => ?_⟩
    · exact (hsame.entry _ _ _).symm.trans hmapped.empty
    · rw [hmapped.entry, hsame.entry]
  · exact .inr ⟨_, rfl, htidy.release, (hsame.trans hsame').trans (SameTree.pmm m' _ l1)⟩

/-! ## The loop of `sys_mmap` -/

variable {base : Nat}

theorem covers_succ : Covers (rangeVas base (i + 1)) a b c ↔
      Covers (rangeVas base i) a b c ∨ Names (base + i * pageSize) a b c := by
  simp only [Covers, rangeVas, List.range_succ, List.map_append, List.map_cons,
    List.map_nil, List.mem_append, List.mem_singleton]
  constructor
  · rintro ⟨va, hva | rfl, hnames⟩
    · exact .inl ⟨va, hva, hnames⟩
    · exact .inr hnames
  rintro (⟨va, hva, hnames⟩ | hnames)
  · exact ⟨va, .inl hva, hnames⟩
  · exact ⟨_, .inr rfl, hnames⟩

structure Progress (m₀ m : Machine) (l1 : Word) (base i : Nat) : Prop where
  grows : Grows m₀ m l1
  fresh : ∀ a b c, Covers (rangeVas base i) a b c → entryAt m₀ l1 a b c = 0#64
  entry : ∀ a b c, ¬ Covers (rangeVas base i) a b c → entryAt m l1 a b c = entryAt m₀ l1 a b c

theorem Progress.start (m : Machine) (l1 : Word) (base : Nat) : Progress m m l1 base 0 :=
  ⟨.refl m l1, by simp [Covers, rangeVas], fun _ _ _ _ => rfl⟩

theorem Progress.next (h : Progress m₀ m l1 base i)
    (hmapped : Mapped m m' l1 (base + i * pageSize) v) : Progress m₀ m' l1 base (i + 1) := by
  have hnames : ∀ a b c, (a = l1Index (base + i * pageSize) ∧ b = l2Index (base + i * pageSize) ∧
      c = l3Index (base + i * pageSize)) ↔ Names (base + i * pageSize) a b c := by
    intro a b c
    simp [Names, hmapped.window, eq_comm]
  refine ⟨h.grows.trans hmapped.grows, fun a b c hcovers => ?_, fun a b c hcovers => ?_⟩
  · by_cases hbefore : Covers (rangeVas base i) a b c
    · exact h.fresh a b c hbefore
    · have hname := (covers_succ.mp hcovers).resolve_left hbefore
      rw [← h.entry a b c hbefore]
      obtain ⟨-, rfl, rfl, rfl⟩ := hname
      exact hmapped.empty
  simp only [covers_succ, not_or] at hcovers
  rw [hmapped.entry, if_neg (by rw [hnames]; exact hcovers.2)]
  exact h.entry a b c hcovers.1

theorem mmapPages_spec (choose : Nat → Option Word) (hflag : hasFlag flags vmmFlagPmmOwned = true)
    (n i : Nat) (h : Tidy pool m l1 []) (hs : Settled m l1) (hprogress : Progress m₀ m l1 base i) :
    Tidy pool (mmapPages choose l1 base flags n i m).1 l1 [] ∧
      Settled (mmapPages choose l1 base flags n i m).1 l1 ∧
      Grows m₀ (mmapPages choose l1 base flags n i m).1 l1 ∧
      ((mmapPages choose l1 base flags n i m).2 = false → ∀ a b c,
        entryAt (mmapPages choose l1 base flags n i m).1 l1 a b c = entryAt m₀ l1 a b c) := by
  induction n generalizing i m with
  | zero => exact ⟨h, hs, hprogress.grows, by simp [mmapPages]⟩
  | succ n ih =>
    unfold mmapPages
    rcases mapNewPage_spec choose h hs hflag (base + i * pageSize) fun _ => 0#64
      with ⟨m', p, heq, htidy, hmapped⟩ | ⟨m', heq, htidy, hsame⟩
    · rw [heq]
      exact ih (i + 1) htidy (hmapped.settled hs) (hprogress.next hmapped)
    rw [heq]
    have hs' := hs.congr hsame.entry
    obtain ⟨hunmap, htables, hentry⟩ := vmmUserUnmapRange_spec htidy hs' base i
    refine ⟨hunmap, hs'.unmap htidy base i, (hprogress.grows.trans hsame.grows).trans htables.grows,
      fun _ a b c => ?_⟩
    rw [hentry]
    split
    · rename_i hcovers
      exact (hprogress.fresh a b c hcovers).symm
    rename_i hcovers
    rw [hsame.entry, hprogress.entry a b c hcovers]

end

/-! ## Steps and runs -/

theorem mmapFlags_owned (prot : BitVec 32) : hasFlag (mmapFlags prot) vmmFlagPmmOwned = true := by
  unfold hasFlag mmapFlags
  split_ifs <;> decide

def Before (r r' : Nat × Nat) : Prop := r.1 + r.2 * pageSize ≤ r'.1

structure Sound (s : UserSpace) : Prop where
  tidy : ∃ pool, Tidy pool s.machine s.userL1Pa []
  settled : Settled s.machine s.userL1Pa
  issued : ∀ r ∈ s.regions, r.1 + r.2 * pageSize ≤ s.userVaNext
  apart : s.regions.Pairwise fun r r' => Before r' r
  nonempty : ∀ r ∈ s.regions, 0 < r.2

section

variable {choose : Nat → Option Word} {pool : Word → Prop} {s : UserSpace}

theorem sysMmap_spec (h : Sound s) (hpool : Tidy pool s.machine s.userL1Pa []) (len : Nat)
    (prot : BitVec 32) :
    Sound (sysMmap choose s len prot).1 ∧
      Tidy pool (sysMmap choose s len prot).1.machine s.userL1Pa [] ∧
      (sysMmap choose s len prot).1.userL1Pa = s.userL1Pa ∧
      Grows s.machine (sysMmap choose s len prot).1.machine s.userL1Pa ∧
      ((sysMmap choose s len prot).2 = none →
        (sysMmap choose s len prot).1.userVaNext = s.userVaNext ∧
        ∀ a b c, entryAt (sysMmap choose s len prot).1.machine s.userL1Pa a b c =
          entryAt s.machine s.userL1Pa a b c) := by
  have hnothing : Sound s ∧ Tidy pool s.machine s.userL1Pa [] ∧
      s.userL1Pa = s.userL1Pa ∧ Grows s.machine s.machine s.userL1Pa ∧
      ((none : Option Nat) = none → s.userVaNext = s.userVaNext ∧
        ∀ a b c, entryAt s.machine s.userL1Pa a b c = entryAt s.machine s.userL1Pa a b c) :=
    ⟨h, hpool, rfl, .refl _ _, fun _ => ⟨rfl, fun _ _ _ => rfl⟩⟩
  unfold sysMmap
  split
  · exact hnothing
  split
  · exact hnothing
  dsimp only
  split
  · exact hnothing
  obtain ⟨htidy, hsettled, hgrows, hfail⟩ := mmapPages_spec choose
    (mmapFlags_owned prot) (pagesFor len) 0 hpool h.settled
    (.start s.machine s.userL1Pa s.userVaNext)
  rcases hloop : mmapPages choose s.userL1Pa s.userVaNext (mmapFlags prot)
    (pagesFor len) 0 s.machine with ⟨m, ok⟩
  rw [hloop] at htidy hsettled hgrows hfail
  cases ok with
  | false =>
    exact ⟨⟨⟨pool, htidy⟩, hsettled, h.issued, h.apart, h.nonempty⟩, htidy, rfl, hgrows,
      fun _ => ⟨rfl, hfail rfl⟩⟩
  | true =>
    refine ⟨⟨⟨pool, htidy⟩, hsettled, fun r hr => ?_, ?_, fun r hr => ?_⟩,
      htidy, rfl, hgrows, by simp⟩
    · rcases List.mem_cons.mp hr with rfl | hr
      · exact Nat.le_refl _
      · exact Nat.le_trans (h.issued r hr) (Nat.le_add_right _ _)
    · exact List.pairwise_cons.mpr ⟨fun r hr => h.issued r hr, h.apart⟩
    rcases List.mem_cons.mp hr with rfl | hr
    · simp only [pagesFor, pageSize]
      omega
    · exact h.nonempty r hr

theorem sysMunmap_spec (h : Sound s) (hpool : Tidy pool s.machine s.userL1Pa []) (addr len : Nat) :
    Sound (sysMunmap s addr len).1 ∧ Tidy pool (sysMunmap s addr len).1.machine s.userL1Pa [] ∧
      (sysMunmap s addr len).1.userL1Pa = s.userL1Pa ∧
      Grows s.machine (sysMunmap s addr len).1.machine s.userL1Pa := by
  have hnothing : Sound s ∧ Tidy pool s.machine s.userL1Pa [] ∧
      s.userL1Pa = s.userL1Pa ∧ Grows s.machine s.machine s.userL1Pa :=
    ⟨h, hpool, rfl, .refl _ _⟩
  unfold sysMunmap
  split
  · exact hnothing
  split
  · exact hnothing
  split
  · exact hnothing
  split
  · exact hnothing
  split
  · exact hnothing
  obtain ⟨htidy, htables, -⟩ := vmmUserUnmapRange_spec hpool h.settled addr (pagesFor len)
  exact ⟨⟨⟨pool, htidy⟩, h.settled.unmap hpool _ _, h.issued, h.apart, h.nonempty⟩, htidy,
    rfl, htables.grows⟩

theorem others_spec (h : Sound s) (free : Word → Bool) : Sound (s.others free) := by
  obtain ⟨pool, hpool⟩ := h.tidy
  refine ⟨⟨fun p => (s.others free).machine.pmm.free p = true ∨
    isHeld s.machine.pmm.log p = true, ?_⟩, h.settled, h.issued, h.apart, h.nonempty⟩
  constructor
  · exact hpool.balanced
  · exact hpool.held
  · exact hpool.exclusive
  · exact hpool.apart
  · exact hpool.nodup
  · exact fun p => Iff.rfl
  · intro p hp
    have hp : isHeld s.machine.pmm.log p = true := hp
    simp [UserSpace.others, hp]
  · rintro p (hp | hp)
    · simp [UserSpace.others] at hp
      exact hp.1.2
    · exact hpool.isPage_of_held hp
  · exact hpool.accessed

theorem Sound.step {s' : UserSpace} {a : SpaceAction} (h : Sound s)
    (hstep : spaceStep choose s a = some s') :
    Sound s' ∧ s'.userL1Pa = s.userL1Pa ∧ Grows s.machine s'.machine s.userL1Pa := by
  obtain ⟨pool, hpool⟩ := h.tidy
  cases a with
  | mmap len prot =>
    cases hstep
    obtain ⟨hsound, -, hl1, hgrows, -⟩ := sysMmap_spec h hpool len prot
    exact ⟨hsound, hl1, hgrows⟩
  | munmap addr len =>
    cases hstep
    obtain ⟨hsound, -, hl1, hgrows⟩ := sysMunmap_spec h hpool addr len
    exact ⟨hsound, hl1, hgrows⟩
  | mapShared va pa flags =>
    simp only [spaceStep, Option.ite_none_left_eq_some] at hstep
    obtain ⟨hflag, hstep⟩ := hstep
    cases hstep
    rcases vmmUserMapPage_outcome hpool h.settled (LeafWrites.borrowed (by simpa using hflag)) with
      ⟨-, htidy, hmapped⟩ | ⟨-, htidy, hsame⟩
    · exact ⟨⟨⟨pool, htidy⟩, hmapped.settled h.settled, h.issued, h.apart, h.nonempty⟩,
        rfl, hmapped.grows⟩
    exact ⟨⟨⟨pool, htidy⟩, h.settled.congr hsame.entry, h.issued, h.apart,
    h.nonempty⟩,
      rfl, hsame.grows⟩
  | mapNew va data flags =>
    simp only [spaceStep, Option.ite_none_right_eq_some] at hstep
    obtain ⟨hflag, hstep⟩ := hstep
    cases hstep
    rcases mapNewPage_spec choose hpool h.settled hflag va data
      with ⟨m', p, heq, htidy, hmapped⟩ | ⟨m', heq, htidy, hsame⟩
    · rw [heq]
      exact ⟨⟨⟨pool, htidy⟩, hmapped.settled h.settled, h.issued, h.apart,
      h.nonempty⟩,
        rfl, hmapped.grows⟩
    rw [heq]
    exact ⟨⟨⟨pool, htidy⟩, h.settled.congr hsame.entry, h.issued, h.apart,
    h.nonempty⟩,
      rfl, hsame.grows⟩
  | others free =>
    cases hstep
    exact ⟨others_spec h free, rfl, ⟨fun _ _ hp => hp, fun _ _ _ hp => hp⟩⟩

end

/-! ## From creation to destruction -/

def UserSpace.new (m : Machine) (l1 : Word) : UserSpace where
  machine := m
  isUser := true
  userL1Pa := l1
  userVaNext := userMmapVaStart
  regions := []

structure Machine.Fresh (m : Machine) : Prop where
  log : m.pmm.log = []
  page : ∀ p, m.pmm.free p = true → IsPage p

variable {m' : Machine}

theorem vmmCreateUserL1_eq {choose : Nat → Option Word} (boot : Nat → Word)
    (h : m.alloc choose = (m', some l1)) :
    vmmCreateUserL1 choose boot m =
      (m'.fill l1 fun i => if i < userL1First then boot i else 0, some l1) := by
  unfold vmmCreateUserL1
  rw [h]

variable {boot : Nat → Word}

theorem vmmCreateUserL1_some {choose : Nat → Option Word}
    (h : vmmCreateUserL1 choose boot m = (m', some l1)) :
    m.pmm.free l1 = true ∧ m' = Machine.fill { m with pmm := m.pmm.called.take l1 } l1
        fun i => if i < userL1First then boot i else 0 := by
  unfold vmmCreateUserL1 at h
  rcases alloc_cases choose m with heq | ⟨p, hfree, heq⟩
  · simp [heq] at h
  simp only [heq, Prod.mk.injEq, Option.some.injEq] at h
  obtain ⟨rfl, rfl⟩ := h
  exact ⟨hfree, rfl⟩

theorem created_tree {m : Machine} {l1 : Word} :
    (∀ i, l2At (m.fill l1 fun i => if i < userL1First then boot i else 0) l1 i = none) := by
  intro i
  unfold l2At
  split
  · rename_i hi
    have hlt : ¬ i < userL1First := by omega
    simp [tableAt, Machine.fill, hlt, Ne.symm pteTypeTable_ne_invalid]
  · rfl

theorem Sound.created {choose : Nat → Option Word} (hfresh : m₀.Fresh)
    (h : vmmCreateUserL1 choose boot m₀ = (m, some l1)) : Sound (UserSpace.new m l1) := by
  obtain ⟨hfree, rfl⟩ := vmmCreateUserL1_some h
  generalize hm : Machine.fill { m₀ with pmm := m₀.pmm.called.take l1 } l1
    (fun i => if i < userL1First then boot i else 0) = m
  have hl2 : ∀ i, l2At m l1 i = none := by
    rw [← hm]
    exact created_tree
  have hentry : ∀ i j k, entryAt m l1 i j k = 0#64 := fun i j k =>
    entryAt_of_none (l3At_of_none (hl2 i))
  have hpmm : m.pmm = m₀.pmm.called.take l1 := by rw [← hm]; rfl
  have hat : ∀ r p, At m l1 r p ↔ r = .l1 ∧ p = l1 := by
    intro r p
    cases r with
    | l1 => simp [At, pageAt, eq_comm]
    | l2 i => simp [At, pageAt, hl2]
    | l3 i j => simp [At, pageAt, l3At_of_none (hl2 i)]
    | leaf i j k => simp [At, pageAt, hentry]
  refine ⟨⟨fun p => m₀.pmm.free p = true, ?_⟩, fun i j k => .inl (hentry i j k),
    by simp [UserSpace.new], by simp [UserSpace.new],
    by simp [UserSpace.new]⟩
  change Tidy _ m l1 []
  constructor
  · simp [hpmm, take, called, hfresh.log]
  · intro p
    simp [hpmm, take, called, hfresh.log, hat]
  · intro r r' p hr hr'
    exact (((hat r p).mp hr).1).trans (((hat r' p).mp hr').1).symm
  · simp
  · simp
  · intro p
    by_cases hp : p = l1
    · simp [hpmm, take, called, hfresh.log, hp, hfree]
    · simp [hpmm, take, called, hfresh.log, hp]
  · intro p hp
    simp [hpmm, take, called, hfresh.log] at hp ⊢
    simp [hp]
  · exact hfresh.page
  · exact fun i j k => .inl (hentry i j k)

def TablePage (m : Machine) (l1 p : Word) : Prop :=
  (∃ i, l2At m l1 i = some p) ∨ ∃ i j, l3At m l1 i j = some p

variable {p : Word}

theorem Tidy.free_iff {pool : Word → Prop} (h : Tidy pool m l1 hand) :
    m.pmm.free p = true ↔ pool p ∧ isHeld m.pmm.log p = false := by
  rw [h.shared]
  constructor
  · intro hfree
    refine ⟨.inl hfree, ?_⟩
    by_contra hheld
    simp [h.taken p (by simpa using hheld)] at hfree
  rintro ⟨hfree | hheld, hnot⟩
  · exact hfree
  · simp [hheld] at hnot

theorem free_of_same_leaves {pool : Word → Prop} (h : Tidy pool m l1 []) (h' : Tidy pool m' l1 [])
    (hgrows : Grows m m' l1)
    (hentry : ∀ a b c, entryAt m' l1 a b c = entryAt m l1 a b c) (p : Word) :
    m'.pmm.free p = true ↔ m.pmm.free p = true ∧ ¬ (TablePage m' l1 p ∧ ¬ TablePage m l1 p) := by
  have hheld : isHeld m'.pmm.log p = true ↔ isHeld m.pmm.log p = true ∨ TablePage m' l1 p := by
    rw [h'.held, h.held]
    simp only [List.not_mem_nil, or_false]
    constructor
    · rintro ⟨r, hr⟩
      cases r with
      | l1 => exact .inl ⟨.l1, hr⟩
      | l2 i => exact .inr (.inl ⟨i, hr⟩)
      | l3 i j => exact .inr (.inr ⟨i, j, hr⟩)
      | leaf i j k =>
        refine .inl ⟨.leaf i j k, ?_⟩
        simpa [At, pageAt, hentry] using hr
    rintro (⟨r, hr⟩ | ⟨i, hi⟩ | ⟨i, j, hij⟩)
    · cases r with
      | l1 => exact ⟨.l1, hr⟩
      | l2 i => exact ⟨.l2 i, hgrows.l2 i p hr⟩
      | l3 i j => exact ⟨.l3 i j, hgrows.l3 i j p hr⟩
      | leaf i j k =>
        refine ⟨.leaf i j k, ?_⟩
        simpa [At, pageAt, hentry] using hr
    · exact ⟨.l2 i, hi⟩
    · exact ⟨.l3 i j, hij⟩
  have htable : TablePage m l1 p → isHeld m.pmm.log p = true := by
    rintro (⟨i, hi⟩ | ⟨i, j, hij⟩)
    · exact (h.held p).mpr (.inl ⟨.l2 i, hi⟩)
    · exact (h.held p).mpr (.inl ⟨.l3 i j, hij⟩)
  rw [h'.free_iff, h.free_iff]
  simp only [← Bool.not_eq_true, hheld]
  tauto

def OwnedLeaf (s : UserSpace) (va : Nat) (p : Word) : Prop :=
  InWindow va ∧ pteOwned (leafAt s.machine s.userL1Pa va) = true ∧
    pteAddr (leafAt s.machine s.userL1Pa va) = p

theorem OwnedLeaf.at (h : OwnedLeaf s va p) :
    At s.machine s.userL1Pa (.leaf (l1Index va) (l2Index va) (l3Index va)) p := by
  have howned := h.2.1
  have haddr := h.2.2
  rw [leafAt] at howned haddr
  simp [At, pageAt, howned, haddr]

/-- What `sys_munmap` gives back are the owned leaves of its range. -/
theorem sysMunmap_frees (h : Sound s) (hheld : isHeld s.machine.pmm.log p = true)
    (hfreed : isHeld (sysMunmap s addr len).1.machine.pmm.log p = false) :
    ∃ va ∈ rangeVas addr (pagesFor len), OwnedLeaf s va p := by
  obtain ⟨pool, hpool⟩ := h.tidy
  have hsame : isHeld s.machine.pmm.log p = false →
      ∃ va ∈ rangeVas addr (pagesFor len), OwnedLeaf s va p := by
    simp [hheld]
  unfold sysMunmap at hfreed
  split at hfreed
  · exact hsame hfreed
  split at hfreed
  · exact hsame hfreed
  split at hfreed
  · exact hsame hfreed
  split at hfreed
  · exact hsame hfreed
  split at hfreed
  · exact hsame hfreed
  obtain ⟨htidy, htables, hentry⟩ := vmmUserUnmapRange_spec hpool h.settled addr (pagesFor len)
  have hnowhere : ∀ r, ¬ At (vmmUserUnmapRange s.machine s.userL1Pa addr
      (pagesFor len)).1 s.userL1Pa r p := by
    intro r hr
    simp [(htidy.held p).mpr (.inl ⟨r, hr⟩)] at hfreed
  have hplace := (hpool.held p).mp hheld
  simp only [List.not_mem_nil, or_false] at hplace
  obtain ⟨r, hr⟩ := hplace
  cases r with
  | l1 => exact absurd hr (hnowhere .l1)
  | l2 i => exact absurd ((htables.l2 i).trans hr) (hnowhere (.l2 i))
  | l3 i j => exact absurd ((htables.l3 i j).trans hr) (hnowhere (.l3 i j))
  | leaf i j k =>
    by_cases hcovers : Covers (rangeVas addr (pagesFor len)) i j k
    · obtain ⟨va, hva, hwindow, rfl, rfl, rfl⟩ := hcovers
      refine ⟨va, hva, hwindow, ?_⟩
      simpa [At, pageAt, leafAt] using hr
    refine absurd ?_ (hnowhere (.leaf i j k))
    simpa [At, pageAt, hentry, hcovers] using hr

theorem Sound.run {choose : Nat → Option Word} (h : Sound s₀)
    (hrun : Run (spaceStep choose) (fun _ _ => True) s₀ s) : Sound s :=
  Run.invariant (fun _ _ _ h _ hstep => (h.step hstep).1) h hrun

/--
For every run of an address space, whatever pages the allocator returns: the
regions that were returned are disjoint; what the address space has given back it
held; pages of owned leaves and of tables are held; a table stays until the end;
`sys_munmap` gives back owned leaves of its range only; a failed `sys_mmap` leaves
the leaves, the cursor and, up to tables that it keeps, what is free; and
after `vmm_destroy_user_l1` every page has been given back as often as it was taken.
-/
theorem user_pages_freed_once {choose : Nat → Option Word} {boot : Nat → Word} {m₀ m : Machine}
    {l1 : Word} {s : UserSpace} (hfresh : m₀.Fresh)
    (hcreate : vmmCreateUserL1 choose boot m₀ = (m, some l1))
    (hrun : Run (spaceStep choose) (fun _ _ => True) (UserSpace.new m l1) s) :
    s.regions.Pairwise (fun r r' => Before r r' ∨ Before r' r) ∧
    (∀ r ∈ s.regions, 0 < r.2) ∧
    InBalance s.machine.pmm.log ∧
    (∀ va p, OwnedLeaf s va p → isHeld s.machine.pmm.log p = true) ∧
    (∀ p, TablePage s.machine s.userL1Pa p → isHeld s.machine.pmm.log p = true) ∧
    (∀ a s', spaceStep choose s a = some s' → Grows s.machine s'.machine s.userL1Pa) ∧
    (∀ addr len p, isHeld s.machine.pmm.log p = true →
      isHeld (sysMunmap s addr len).1.machine.pmm.log p = false →
      ∃ va ∈ rangeVas addr (pagesFor len), OwnedLeaf s va p) ∧
    (∀ len prot s', sysMmap choose s len prot = (s', none) → s'.userVaNext = s.userVaNext ∧
      (∀ va, leafAt s'.machine s'.userL1Pa va = leafAt s.machine s.userL1Pa va) ∧
      ∀ p, s'.machine.pmm.free p = true ↔ s.machine.pmm.free p = true ∧
        ¬ (TablePage s'.machine s.userL1Pa p ∧ ¬ TablePage s.machine s.userL1Pa p)) ∧
    InBalance (vmmDestroyUserL1 s.machine s.userL1Pa).pmm.log ∧
    ∀ p, isHeld (vmmDestroyUserL1 s.machine s.userL1Pa).pmm.log p = false ∧
      (vmmDestroyUserL1 s.machine s.userL1Pa).pmm.log.count (.take p) =
        (vmmDestroyUserL1 s.machine s.userL1Pa).pmm.log.count (.give p) := by
  have h : Sound s := (Sound.created hfresh hcreate).run hrun
  obtain ⟨pool, hpool⟩ := h.tidy
  obtain ⟨hbalance, hnothing, -⟩ := vmmDestroyUserL1_spec hpool h.settled
  refine ⟨h.apart.imp .inr, h.nonempty, hpool.balanced, fun va p hleaf => ?_,
    fun p htable => ?_, fun a s' hstep => (h.step hstep).2.2,
    fun addr len p hheld hfreed => sysMunmap_frees h hheld hfreed,
    fun len prot s' hmmap => ?_, hbalance, fun p => ⟨hnothing p, ?_⟩⟩
  · exact (hpool.held p).mpr (.inl ⟨_, hleaf.at⟩)
  · rcases htable with ⟨i, hi⟩ | ⟨i, j, hij⟩
    · exact (hpool.held p).mpr (.inl ⟨.l2 i, hi⟩)
    · exact (hpool.held p).mpr (.inl ⟨.l3 i j, hij⟩)
  · obtain ⟨-, htidy, hl1, hgrows, hfail⟩ := sysMmap_spec h hpool len prot
    rw [hmmap] at htidy hl1 hgrows hfail
    obtain ⟨hnext, hentry⟩ := hfail rfl
    refine ⟨hnext, fun va => ?_, free_of_same_leaves hpool htidy hgrows hentry⟩
    rw [hl1]
    exact hentry _ _ _
  · simpa [hnothing p] using hbalance.count p

/-- Every page is free, and they are handed out in the order of their address. -/
def emptyMachine : Machine where
  mem := fun _ _ => 0
  pmm := { free := fun p => decide (IsPage p), calls := 0, log := [] }

def inOrder (n : Nat) : Option Word := some (BitVec.ofNat 64 ((n + 1) * pageSize))

theorem emptyMachine_fresh : emptyMachine.Fresh := ⟨rfl, by simp [emptyMachine]⟩

theorem user_pages_freed_once_mmap :
    ∃ m l1, vmmCreateUserL1 inOrder (fun _ => 0) emptyMachine = (m, some l1) ∧
      ∀ p, isHeld (vmmDestroyUserL1 (sysMmap inOrder (UserSpace.new m l1) 8192 protRead).1.machine
        (sysMmap inOrder (UserSpace.new m l1) 8192 protRead).1.userL1Pa).pmm.log p = false := by
  have hfree : emptyMachine.pmm.free 4096#64 = true := by
    have hpage : IsPage 4096#64 := ⟨rfl, by decide⟩
    simp [emptyMachine, hpage]
  have hfirst : inOrder emptyMachine.pmm.calls = some 4096#64 := rfl
  have hcreate := vmmCreateUserL1_eq (fun _ => 0) (alloc_eq hfirst hfree)
  generalize 4096#64 = l1 at hcreate
  have hstep : ∀ s, spaceStep inOrder s (.mmap 8192 protRead) =
      some (sysMmap inOrder s 8192 protRead).1 := fun _ => rfl
  have hrun : ∀ s, Run (spaceStep inOrder) (fun _ _ => True) s
      (sysMmap inOrder s 8192 protRead).1 := fun s =>
    .tail (.refl s) trivial (hstep s)
  have hall := user_pages_freed_once emptyMachine_fresh hcreate (hrun _)
  exact ⟨_, l1, hcreate, fun p => (hall.2.2.2.2.2.2.2.2.2 p).1⟩

/-! ## A single page -/

theorem SameTree.free {pool : Word → Prop} (hsame : SameTree m m' l1) (h : Tidy pool m l1 hand)
    (h' : Tidy pool m' l1 hand) : m'.pmm.free = m.pmm.free := by
  have hat : pageAt m' l1 = pageAt m l1 := pageAt_congr hsame.l2 hsame.l3 hsame.entry
  funext p
  have hheld : isHeld m'.pmm.log p = isHeld m.pmm.log p := by
    rw [Bool.eq_iff_iff, h'.held, h.held]
    simp only [At, hat]
  rw [Bool.eq_iff_iff, h'.free_iff, h.free_iff, hheld]

/--
`vmm_user_map_page` is atomic: if it succeeds, the leaf of `va` is the page and the other
leaves stay, and if it fails, the leaves, the tables and the free pages stay.  In memory it
writes the words on the walk to `va`, and pages that were free.
-/
theorem user_map_page_atomic {choose : Nat → Option Word} {pool : Word → Prop} {m : Machine}
    {l1 : Word} {hand : List Word} (h : Tidy pool m l1 hand) (hs : Settled m l1) (va : Nat)
    (pa : Word) (flags : Flags) :
    ∃ m' ok, vmmUserMapPage choose m l1 va pa flags = (m', ok) ∧
      (∀ q k, ¬ Written m l1 va q k → m'.mem q k = m.mem q k) ∧
      (ok = true → pteAddr (leafAt m' l1 va) = pa &&& pteAddrMask ∧
        ∀ va', InWindow va' → leafAt m' l1 va' =
          if va' = va then makePageDesc pa flags else leafAt m l1 va') ∧
      (ok = false → SameTree m m' l1 ∧ m'.pmm.free = m.pmm.free) := by
  have hl1 : m.pmm.free l1 = false := h.taken l1 ((h.held l1).mpr (.inl ⟨.l1, rfl⟩))
  have hcases : MapCases (fun _ => True) pool m l1 va (makePageDesc pa flags) hand
      (vmmUserMapPage choose m l1 va pa flags) :=
    vmmUserMapPage_cases (fun _ _ _ _ _ => trivial) h hs
  have hframe : ∀ q k, ¬ Written m l1 va q k →
      (vmmUserMapPage choose m l1 va pa flags).1.mem q k = m.mem q k :=
    fun _ _ => vmmUserMapPage_frame hl1
  generalize vmmUserMapPage choose m l1 va pa flags = r at hcases hframe ⊢
  obtain ⟨m', ok⟩ := r
  refine ⟨m', ok, rfl, hframe, ?_⟩
  rcases hcases with ⟨rfl, -, hmapped⟩ | ⟨rfl, htidy, hsame⟩
  · refine ⟨fun _ => ⟨?_, fun va' hva' => ?_⟩, fun hno => by cases hno⟩
    · simp [leafAt, hmapped.entry]
    · rw [leafAt, hmapped.entry]
      by_cases hva : va' = va
      · simp [hva]
      rw [if_neg hva, if_neg]
      · rfl
      rintro ⟨h1, h2, h3⟩
      exact hva (hva'.ext hmapped.window h1 h2 h3)
  · exact ⟨(fun hyes => by cases hyes), fun _ => ⟨hsame, hsame.free h htidy⟩⟩

/-- The first page of a new address space. -/
theorem user_map_page_atomic_first : ∃ m l1,
    vmmCreateUserL1 inOrder (fun _ => 0) emptyMachine = (m, some l1) ∧
      ∃ m' ok, vmmUserMapPage inOrder m l1 userVaBase 0#64 vmmFlagsUserData = (m', ok) ∧
        (ok = false → SameTree m m' l1 ∧ m'.pmm.free = m.pmm.free) := by
  have hpage : IsPage 4096#64 := ⟨rfl, by decide⟩
  have hfree : emptyMachine.pmm.free 4096#64 = true := by simp [emptyMachine, hpage]
  have hfirst : inOrder emptyMachine.pmm.calls = some 4096#64 := rfl
  have hcreate := vmmCreateUserL1_eq (fun _ => 0) (alloc_eq hfirst hfree)
  have hsound := Sound.created emptyMachine_fresh hcreate
  obtain ⟨pool, htidy⟩ := hsound.tidy
  obtain ⟨m', ok, hmap, -, -, hno⟩ :=
    user_map_page_atomic htidy hsound.settled userVaBase 0#64 vmmFlagsUserData
  exact ⟨_, _, hcreate, m', ok, hmap, hno⟩

end SlmOs.Vmm
