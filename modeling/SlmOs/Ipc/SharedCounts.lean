import SlmOs.Ipc.SharedBuffer

/-!
# Reference counts of shared buffers over whole runs

Tasks create, map, unmap and destroy buffers in any order, and every call is one
step.  A call on a buffer names a slot of the table that is in use: a pointer to a
buffer that has been destroyed is not a buffer.  The run keeps the history of the
memory behind the buffers.  Its entries carry the number of the creation, so that
an address may be handed out again later.
-/

namespace SlmOs.Ipc

open Function Foundation BufferTable List
open Option (map_eq_some_iff)

/-! ## Tasks and buffers -/

structure ShmSystem where
  table : BufferTable
  /-- The number of the creation that filled a slot. -/
  serial : Nat → Nat
  created : Nat
  log : List (Entry (Nat × Chunk))

def ShmSystem.init : ShmSystem := ⟨BufferTable.init, fun _ => 0, 0, []⟩

inductive ShmCall where
  | create (env : Allocators) (current : TaskSlot) (size : Nat) (flags : BitVec 32)
  | map (i : Nat) (current : TaskSlot) (task : Option TaskSlot) (perms : BitVec 32) (page : Bool)
  | unmap (i : Nat) (current : TaskSlot) (task : Option TaskSlot)
  | destroy (i : Nat) (current : TaskSlot)

def tagged (n : Nat) : Entry Chunk → Entry (Nat × Chunk)
  | .take c => .take (n, c)
  | .give c => .give (n, c)

def ShmSystem.setBuffer (s : ShmSystem) (i : Nat) (b : SharedBuffer) : ShmSystem :=
  { s with table := { s.table with buffers := update s.table.buffers i (some b) } }

/-- A creation that fails leaves no buffer; the history is about buffers. -/
def shmStep (s : ShmSystem) : ShmCall → Option ShmSystem
  | .create env current size flags =>
    let r := sharedBufferCreate s.table env current size flags
    match r.slot with
    | none => some { s with table := r.table }
    | some i =>
      some
        { table := r.table
          serial := update s.serial i s.created
          created := s.created + 1
          log := r.log.map (tagged s.created) ++ s.log }
  | .map i current task perms page =>
    (s.table.buffers i).map fun b => s.setBuffer i (sharedBufferMap b current task perms page).1
  | .unmap i current task =>
    (s.table.buffers i).map fun b => s.setBuffer i (sharedBufferUnmap b current task).1
  | .destroy i current =>
    let r := sharedBufferDestroy s.table current i
    some { s with table := r.1, log := r.2.2.map (tagged (s.serial i)) ++ s.log }

/-! ## One buffer -/

def Allowed (flags perms : BitVec 32) : Prop :=
  ∀ bit ∈ [shmRead, shmWrite], perms &&& bit ≠ 0 → flags &&& bit ≠ 0

structure WellCounted (b : SharedBuffer) : Prop where
  refcount : b.refcount = 1 + b.mappings.length
  once : (b.mappings.map ShmMapping.task).Nodup
  allowed : ∀ m ∈ b.mappings, Allowed b.flags m.perms

theorem and_not_and_self (x y bit : BitVec 32) : x &&& ~~~bit &&& y &&& bit = 0 := by
  ext i
  simp
  grind

theorem allowed_limitPerms (flags perms : BitVec 32) : Allowed flags (limitPerms flags perms) := by
  have hself : ∀ x bit : BitVec 32, x &&& ~~~bit &&& bit = 0 := by
    intro x bit
    rw [BitVec.and_assoc, BitVec.and_comm (~~~bit) bit, BitVec.and_not_self]
    exact BitVec.and_zero
  intro bit hbit hperms hflags
  simp only [mem_cons, not_mem_nil, or_false] at hbit
  unfold limitPerms at hperms
  simp only at hperms
  rcases hbit with rfl | rfl
  · rw [if_pos hflags] at hperms
    split at hperms
    · exact hperms (and_not_and_self perms _ _)
    · exact hperms (hself perms _)
  rw [if_pos hflags] at hperms
  exact hperms (hself _ _)

variable {b : SharedBuffer}

theorem WellCounted.length_le (h : WellCounted b) : b.mappings.length ≤ maxTasks := by
  have hcard := h.once.length_le_card
  simpa using hcard

theorem counted_with (hn : n = 1 + l.length)
    (honce : (l.map ShmMapping.task).Nodup) (hallowed : ∀ m ∈ l, Allowed b.flags m.perms) :
    WellCounted { b with mappings := l, refcount := n } :=
  ⟨hn, honce, hallowed⟩

theorem WellCounted.map (h : WellCounted b) (current : TaskSlot)
    (task : Option TaskSlot) (perms : BitVec 32) (page : Bool) :
    WellCounted (sharedBufferMap b current task perms page).1 := by
  unfold sharedBufferMap
  simp only
  by_cases hmapped : (b.mappings.any fun m => m.task = task.getD current) = true
  · rw [if_pos hmapped]
    exact h
  rw [if_neg hmapped]
  cases page with
  | false => exact h
  | true =>
    have hlen := h.length_le
    have hcount := h.refcount
    unfold maxTasks at hlen
    rw [Bool.not_true, if_neg Bool.false_ne_true]
    apply counted_with
    · rw [length_cons]
      omega
    · refine nodup_cons.mpr ⟨fun hmem => hmapped ?_, h.once⟩
      obtain ⟨m, hm, htask⟩ := mem_map.mp hmem
      exact any_eq_true.mpr ⟨m, hm, decide_eq_true htask⟩
    intro m hm
    rcases mem_cons.mp hm with rfl | hm
    · exact allowed_limitPerms _ _
    · exact h.allowed m hm

theorem removeMapping_some
    (h : removeMapping task l = some l') : l'.Sublist l ∧ l.length = l'.length + 1 := by
  induction l generalizing l' with
  | nil => cases h
  | cons m l ih =>
    rw [removeMapping] at h
    split at h
    · cases h
      exact ⟨sublist_cons_self _ _, rfl⟩
    obtain ⟨r, hr, rfl⟩ := map_eq_some_iff.mp h
    obtain ⟨hsub, hlen⟩ := ih hr
    exact ⟨hsub.cons_cons m, by rw [length_cons, length_cons, hlen]⟩

theorem WellCounted.unmap (h : WellCounted b) (current : TaskSlot)
    (task : Option TaskSlot) : WellCounted (sharedBufferUnmap b current task).1 := by
  unfold sharedBufferUnmap
  cases hremove : removeMapping (task.getD current) b.mappings with
  | none => exact h
  | some l =>
    obtain ⟨hsub, hlen⟩ := removeMapping_some hremove
    have hle := h.length_le
    have hcount := h.refcount
    unfold maxTasks at hle
    apply counted_with
    · omega
    · exact h.once.sublist (hsub.map _)
    · exact fun m hm => h.allowed m (hsub.subset hm)

/-! ## The table and the memory -/

def SharedBuffer.page (b : SharedBuffer) : Chunk := ⟨.pmm, b.descriptor, 1⟩

theorem memory_with (b : SharedBuffer) (l : List ShmMapping) (n : Nat) :
    ({ b with mappings := l, refcount := n } : SharedBuffer).backing = b.backing ∧
      ({ b with mappings := l, refcount := n } : SharedBuffer).page = b.page :=
  ⟨rfl, rfl⟩

theorem sharedBufferMap_memory (b : SharedBuffer) (current : TaskSlot) (task : Option TaskSlot)
    (perms : BitVec 32) (page : Bool) :
    (sharedBufferMap b current task perms page).1.backing = b.backing ∧
      (sharedBufferMap b current task perms page).1.page = b.page := by
  unfold sharedBufferMap
  simp only
  split
  · exact ⟨rfl, rfl⟩
  split
  · exact ⟨rfl, rfl⟩
  · apply memory_with

theorem sharedBufferUnmap_memory (b : SharedBuffer) (current : TaskSlot) (task : Option TaskSlot) :
    (sharedBufferUnmap b current task).1.backing = b.backing ∧
      (sharedBufferUnmap b current task).1.page = b.page := by
  unfold sharedBufferUnmap
  cases removeMapping (task.getD current) b.mappings with
  | none => exact ⟨rfl, rfl⟩
  | some l => apply memory_with

/--
Every buffer counts its references, and the memory in use is that of the buffers
in the table.
-/
structure ShmSystem.Sound (s : ShmSystem) : Prop where
  counted : ∀ i b, s.table.buffers i = some b → WellCounted b
  apart : ∀ i b, s.table.buffers i = some b → b.backing ≠ b.page
  serial_lt : ∀ i b, s.table.buffers i = some b → s.serial i < s.created
  serial_inj : ∀ i j b c, s.table.buffers i = some b → s.table.buffers j = some c →
    s.serial i = s.serial j → i = j
  balance : InBalance s.log
  held : ∀ n c, isHeld s.log (n, c) = true ↔
    ∃ i b, s.table.buffers i = some b ∧ s.serial i = n ∧ (c = b.backing ∨ c = b.page)

theorem sound_init : ShmSystem.init.Sound where
  counted := by simp [ShmSystem.init, init]
  apart := by simp [ShmSystem.init, init]
  serial_lt := by simp [ShmSystem.init, init]
  serial_inj := by simp [ShmSystem.init, init]
  balance := trivial
  held := by simp [ShmSystem.init, init]

section Steps

variable {s : ShmSystem} {i : Nat}

theorem ShmSystem.setBuffer_ne_none (h : s.table.buffers i ≠ none) (j : Nat)
    (b : SharedBuffer) : (s.setBuffer j b).table.buffers i ≠ none := by
  by_cases hij : i = j
  · simp [ShmSystem.setBuffer, hij]
  · simpa [ShmSystem.setBuffer, hij] using h

theorem ShmSystem.Sound.setBuffer (h : s.Sound)
    (hb : s.table.buffers i = some b) (hcounted : WellCounted b')
    (hbacking : b'.backing = b.backing) (hpage : b'.page = b.page) : (s.setBuffer i b').Sound := by
  -- the same slots are in use, and they stand for the same memory
  have hslot : ∀ j c, (s.setBuffer i b').table.buffers j = some c →
      ∃ d, s.table.buffers j = some d ∧ c.backing = d.backing ∧ c.page = d.page ∧
        (WellCounted d → WellCounted c) := by
    intro j c hc
    by_cases hj : j = i
    · subst hj
      simp only [ShmSystem.setBuffer, update_self] at hc
      cases hc
      exact ⟨b, hb, hbacking, hpage, fun _ => hcounted⟩
    simp only [ShmSystem.setBuffer, update_of_ne hj] at hc
    exact ⟨c, hc, rfl, rfl, id⟩
  refine ⟨?_, ?_, ?_, ?_, h.balance, ?_⟩
  · intro j c hc
    obtain ⟨d, hd, -, -, himp⟩ := hslot j c hc
    exact himp (h.counted j d hd)
  · intro j c hc
    obtain ⟨d, hd, hback, hpg, -⟩ := hslot j c hc
    rw [hback, hpg]
    exact h.apart j d hd
  · intro j c hc
    obtain ⟨d, hd, -⟩ := hslot j c hc
    exact h.serial_lt j d hd
  · intro j k c e hc he
    obtain ⟨d, hd, -⟩ := hslot j c hc
    obtain ⟨f, hf, -⟩ := hslot k e he
    exact h.serial_inj j k d f hd hf
  intro n c
  refine (h.held n c).trans ⟨?_, ?_⟩
  · rintro ⟨j, d, hd, hserial, hc⟩
    by_cases hj : j = i
    · subst hj
      rw [hb, Option.some.injEq] at hd
      subst hd
      exact ⟨j, b', by simp [ShmSystem.setBuffer], hserial, by rwa [hbacking, hpage]⟩
    · exact ⟨j, d, by simp [ShmSystem.setBuffer, hj, hd], hserial, hc⟩
  rintro ⟨j, d, hd, hserial, hc⟩
  obtain ⟨e, he, hback, hpg, -⟩ := hslot j d hd
  exact ⟨j, e, he, hserial, by rwa [← hback, ← hpg]⟩

def ShmSystem.register (s : ShmSystem) (i : Nat) (b : SharedBuffer) (nextId : Nat) : ShmSystem where
  table := ⟨update s.table.buffers i (some b), nextId⟩
  serial := update s.serial i s.created
  created := s.created + 1
  log := .take (s.created, b.backing) :: .take (s.created, b.page) :: s.log

theorem ShmSystem.Sound.unused (h : s.Sound) (c : Chunk) : isHeld s.log (s.created, c) = false := by
  rw [← Bool.not_eq_true]
  intro hheld
  obtain ⟨i, b, hb, hserial, -⟩ := (h.held _ _).mp hheld
  have hlt := h.serial_lt i b hb
  omega

theorem ShmSystem.Sound.register (h : s.Sound) (hfree : s.table.buffers i = none)
    (hcounted : WellCounted b) (hapart : b.backing ≠ b.page) (nextId : Nat) :
    (s.register i b nextId).Sound := by
  have hslot : ∀ j c, (s.register i b nextId).table.buffers j = some c →
      (j = i ∧ c = b ∧ (s.register i b nextId).serial j = s.created) ∨
      (s.table.buffers j = some c ∧ (s.register i b nextId).serial j = s.serial j) := by
    intro j c hc
    by_cases hj : j = i
    · subst hj
      simp only [ShmSystem.register, update_self, Option.some.injEq] at hc ⊢
      exact .inl ⟨trivial, hc.symm, trivial⟩
    simp only [ShmSystem.register, update_of_ne hj] at hc ⊢
    exact .inr ⟨hc, trivial⟩
  have hold : ∀ j c, s.table.buffers j = some c → (s.register i b nextId).table.buffers j = some c ∧
        (s.register i b nextId).serial j = s.serial j := by
    intro j c hc
    have hj : j ≠ i := by
      rintro rfl
      rw [hfree] at hc
      cases hc
    simp [ShmSystem.register, hj, hc]
  refine ⟨?_, ?_, ?_, ?_, ?_, ?_⟩
  · intro j c hc
    rcases hslot j c hc with ⟨-, rfl, -⟩ | ⟨hc, -⟩
    · exact hcounted
    · exact h.counted j c hc
  · intro j c hc
    rcases hslot j c hc with ⟨-, rfl, -⟩ | ⟨hc, -⟩
    · exact hapart
    · exact h.apart j c hc
  · intro j c hc
    rcases hslot j c hc with ⟨-, -, hserial⟩ | ⟨hc, hserial⟩
    · rw [hserial]
      exact Nat.lt_succ_self _
    rw [hserial]
    exact Nat.lt_succ_of_lt (h.serial_lt j c hc)
  · intro j k c d hc hd heq
    rcases hslot j c hc with ⟨hj, -, hserial⟩ | ⟨hc, hserial⟩
    · rcases hslot k d hd with ⟨hk, -, -⟩ | ⟨hd, hserial'⟩
      · rw [hj, hk]
      · have hlt := h.serial_lt k d hd
        omega
    rcases hslot k d hd with ⟨-, -, hserial'⟩ | ⟨hd, hserial'⟩
    · have hlt := h.serial_lt j c hc
      omega
    · exact h.serial_inj j k c d hc hd (by omega)
  · refine ⟨?_, h.unused _, h.balance⟩
    rw [← Bool.not_eq_true, isHeld_take, h.unused]
    simp [hapart]
  intro n c
  have hlog : isHeld (s.register i b nextId).log (n, c) = true ↔
      (n = s.created ∧ (c = b.backing ∨ c = b.page)) ∨ isHeld s.log (n, c) = true := by
    simp only [ShmSystem.register, isHeld_take, Prod.mk.injEq]
    tauto
  rw [hlog, h.held n c]
  constructor
  · rintro (⟨rfl, hc⟩ | ⟨j, d, hd, hserial, hc⟩)
    · exact ⟨i, b, by simp [ShmSystem.register], by simp [ShmSystem.register], hc⟩
    · obtain ⟨hd', hserial'⟩ := hold j d hd
      exact ⟨j, d, hd', hserial'.trans hserial, hc⟩
  rintro ⟨j, d, hd, hserial, hc⟩
  rcases hslot j d hd with ⟨-, rfl, hserial'⟩ | ⟨hd', hserial'⟩
  · exact .inl ⟨hserial.symm.trans hserial', hc⟩
  · exact .inr ⟨j, d, hd', hserial'.symm.trans hserial, hc⟩

def ShmSystem.release (s : ShmSystem) (i : Nat) (b : SharedBuffer) : ShmSystem :=
  { s with
    table := { s.table with buffers := update s.table.buffers i none }
    log := .give (s.serial i, b.page) :: .give (s.serial i, b.backing) :: s.log }

theorem ShmSystem.Sound.release (h : s.Sound)
    (hb : s.table.buffers i = some b) : (s.release i b).Sound := by
  have hslot : ∀ j c, (s.release i b).table.buffers j = some c ↔
      j ≠ i ∧ s.table.buffers j = some c := by
    intro j c
    by_cases hj : j = i
    · subst hj
      simp [ShmSystem.release]
    · simp [ShmSystem.release, hj]
  refine ⟨?_, ?_, ?_, ?_, ?_, ?_⟩
  · exact fun j c hc => h.counted j c ((hslot j c).mp hc).2
  · exact fun j c hc => h.apart j c ((hslot j c).mp hc).2
  · exact fun j c hc => h.serial_lt j c ((hslot j c).mp hc).2
  · exact fun j k c d hc hd => h.serial_inj j k c d ((hslot j c).mp hc).2 ((hslot k d).mp hd).2
  · refine ⟨?_, (h.held _ _).mpr ⟨i, b, hb, rfl, .inl rfl⟩, h.balance⟩
    rw [isHeld_give]
    refine ⟨fun heq => h.apart i b hb (Prod.mk.inj heq).2.symm, ?_⟩
    exact (h.held _ _).mpr ⟨i, b, hb, rfl, .inr rfl⟩
  intro n c
  have hlog : isHeld (s.release i b).log (n, c) = true ↔
      ¬(n = s.serial i ∧ (c = b.backing ∨ c = b.page)) ∧ isHeld s.log (n, c) = true := by
    simp only [ShmSystem.release, isHeld_give, Prod.mk.injEq, ne_eq]
    tauto
  rw [hlog, h.held n c]
  constructor
  · rintro ⟨hnot, j, d, hd, rfl, hc⟩
    refine ⟨j, d, (hslot j d).mpr ⟨?_, hd⟩, rfl, hc⟩
    rintro rfl
    rw [hb, Option.some.injEq] at hd
    subst hd
    exact hnot ⟨rfl, hc⟩
  rintro ⟨j, d, hd, hserial, hc⟩
  obtain ⟨hne, hd⟩ := (hslot j d).mp hd
  refine ⟨?_, j, d, hd, hserial, hc⟩
  rintro ⟨hn, -⟩
  exact hne (h.serial_inj j i d b hd hb (hserial.trans hn))

end Steps

/-! ## Calls -/

theorem allocBacking_pages
    (h : allocBacking env size flags = some c) : c.pages = size / shmPageSize := by
  unfold allocBacking at h
  simp only at h
  split at h
  · split at h
    · cases h
      rfl
    · obtain ⟨a, -, rfl⟩ := map_eq_some_iff.mp h
      rfl
  obtain ⟨a, -, rfl⟩ := map_eq_some_iff.mp h
  rfl

theorem newBuffer_backing (id : Nat) (current : TaskSlot) (flags : BitVec 32) (buf : Nat)
    (h : c.pages = size / shmPageSize) : (newBuffer id current size flags buf c).backing = c := by
  obtain ⟨source, a, pages⟩ := c
  simp only at h
  subst h
  cases source <;> rfl

theorem buffers_of_freeSlot {t : BufferTable} {i : Nat} (h : t.freeSlot = some i) :
    t.buffers i = none := by
  have hnone := find?_some h
  simpa using hnone

variable {s' : ShmSystem}

theorem shmStep_create (h : shmStep s (.create env current size flags) = some s') :
    s' = s ∨ ∃ i b nextId, s.table.buffers i = none ∧ WellCounted b ∧ b.backing ≠ b.page ∧
      s' = s.register i b nextId := by
  rcases create_cases s.table env current size flags with
    ⟨-, hres⟩ | ⟨-, buf, -, ⟨-, hres⟩ | ⟨backing, hback, hres⟩⟩
  · simp only [shmStep, hres, Option.some.injEq] at h
    exact .inl h.symm
  · simp only [shmStep, hres, Option.some.injEq] at h
    exact .inl h.symm
  cases hslot : s.table.freeSlot with
  | none =>
    simp only [shmStep, hres, registerBuffer, hslot, Option.some.injEq] at h
    exact .inl h.symm
  | some i =>
    simp only [shmStep, hres, registerBuffer, hslot, Option.some.injEq] at h
    have hnew := newBuffer_backing s.table.nextBufferId current flags buf (allocBacking_pages hback)
    refine .inr ⟨i, newBuffer s.table.nextBufferId current (roundToBlock size) flags buf backing,
      (s.table.nextBufferId + 1) % 2 ^ 32, buffers_of_freeSlot hslot,
      ⟨rfl, nodup_nil, by simp [newBuffer]⟩, ?_, ?_⟩
    · intro heq
      exact pages_ne_one size (congrArg Chunk.pages heq)
    rw [← h, ShmSystem.register, hnew]
    rfl

theorem shmStep_destroy (hsound : s.Sound) (h : shmStep s (.destroy i current) = some s') :
    (s' = s ∧ ∀ b, s.table.buffers i = some b → b.owner = current → b.mappings ≠ []) ∨
      ∃ b, s.table.buffers i = some b ∧ b.owner = current ∧ b.mappings = [] ∧
        s' = s.release i b := by
  simp only [shmStep, Option.some.injEq] at h
  unfold sharedBufferDestroy at h
  cases hb : s.table.buffers i with
  | none =>
    simp only [hb] at h
    exact .inl ⟨h.symm, nofun⟩
  | some b =>
    have hcount := (hsound.counted i b hb).refcount
    simp only [hb] at h
    by_cases howner : b.owner = current
    · rw [if_neg (not_not_intro howner)] at h
      by_cases hbusy : b.refcount > 1
      · rw [if_pos hbusy] at h
        refine .inl ⟨h.symm, fun b' hb' _ hnil => ?_⟩
        rw [Option.some.injEq] at hb'
        subst hb'
        rw [hnil, length_nil] at hcount
        omega
      rw [if_neg hbusy] at h
      refine .inr ⟨b, rfl, howner, length_eq_zero_iff.mp (by omega), h.symm.trans rfl⟩
    rw [if_pos howner] at h
    refine .inl ⟨h.symm, fun b' hb' howner' => ?_⟩
    rw [Option.some.injEq] at hb'
    exact absurd (hb' ▸ howner') howner

theorem ShmSystem.Sound.step {s : ShmSystem} (h : s.Sound) {c : ShmCall}
    (hstep : shmStep s c = some s') : s'.Sound := by
  cases c with
  | create env current size flags =>
    rcases shmStep_create hstep with rfl | ⟨i, b, nextId, hfree, hcounted, hapart, rfl⟩
    · exact h
    · exact h.register hfree hcounted hapart nextId
  | map i current task perms page =>
    obtain ⟨b, hb, rfl⟩ := map_eq_some_iff.mp hstep
    have hsame := sharedBufferMap_memory b current task perms page
    exact h.setBuffer hb ((h.counted i b hb).map current task perms page) hsame.1 hsame.2
  | unmap i current task =>
    obtain ⟨b, hb, rfl⟩ := map_eq_some_iff.mp hstep
    have hsame := sharedBufferUnmap_memory b current task
    exact h.setBuffer hb ((h.counted i b hb).unmap current task) hsame.1 hsame.2
  | destroy i current =>
    rcases shmStep_destroy h hstep with ⟨rfl, -⟩ | ⟨b, hb, -, -, rfl⟩
    · exact h
    · exact h.release hb

theorem sound_of_run (hrun : Run shmStep (fun _ _ => True) ShmSystem.init s) : s.Sound :=
  Run.invariant (I := ShmSystem.Sound) (fun _ _ _ h _ hstep => h.step hstep) sound_init hrun

theorem step_release (h : s.Sound) (hstep : shmStep s call = some s')
    (hb : s.table.buffers i = some b) :
    ((call = .destroy i b.owner ∧ b.mappings = []) ∧ s'.table.buffers i = none ∧
        isHeld s'.log (s.serial i, b.backing) = false) ∨
      (¬(call = .destroy i b.owner ∧ b.mappings = []) ∧ s'.table.buffers i ≠ none ∧
        isHeld s'.log (s.serial i, b.backing) = true) := by
  have hheld : isHeld s.log (s.serial i, b.backing) = true :=
    (h.held _ _).mpr ⟨i, b, hb, rfl, .inl rfl⟩
  have hlive : s.table.buffers i ≠ none := by simp [hb]
  cases call with
  | create env current size flags =>
    right
    refine ⟨fun heq => ShmCall.noConfusion heq.1, ?_⟩
    rcases shmStep_create hstep with rfl | ⟨j, d, nextId, hfree, -, -, rfl⟩
    · exact ⟨hlive, hheld⟩
    have hij : i ≠ j := by
      rintro rfl
      exact hlive hfree
    refine ⟨by simpa [ShmSystem.register, hij] using hlive, ?_⟩
    simp [ShmSystem.register, hheld]
  | map j current task perms page | unmap j current task =>
    right
    refine ⟨fun heq => ShmCall.noConfusion heq.1, ?_⟩
    obtain ⟨d, -, rfl⟩ := map_eq_some_iff.mp hstep
    exact ⟨ShmSystem.setBuffer_ne_none hlive j _, hheld⟩
  | destroy j current =>
    rcases shmStep_destroy h hstep with ⟨rfl, hnone⟩ | ⟨d, hd, howner, hmaps, rfl⟩
    · right
      refine ⟨?_, hlive, hheld⟩
      rintro ⟨heq, hnil⟩
      obtain ⟨rfl, rfl⟩ := ShmCall.destroy.inj heq
      exact hnone b hb rfl hnil
    by_cases hij : i = j
    · subst hij
      rw [hb, Option.some.injEq] at hd
      subst hd
      subst howner
      left
      refine ⟨⟨rfl, hmaps⟩, by simp [ShmSystem.release], ?_⟩
      simp [ShmSystem.release, isHeld]
    right
    refine ⟨fun heq => hij (ShmCall.destroy.inj heq.1).1.symm, ?_, ?_⟩
    · simpa [ShmSystem.release, hij] using hlive
    have hserial : s.serial i ≠ s.serial j := fun heq =>
      hij (h.serial_inj i j b d hb hd heq)
    simp [ShmSystem.release, hserial, hheld]

/--
In every run the reference counts are right, no task has two mappings of a buffer,
no mapping exceeds the buffer's permissions, and memory is in use exactly if it
belongs to a buffer of the table.  A step releases the memory of a buffer exactly
if it is the owner's `destroy` and nobody has the buffer mapped.
-/
theorem shared_buffers_counted {s : ShmSystem}
    (hrun : Run shmStep (fun _ _ => True) ShmSystem.init s) :
    (∀ i b, s.table.buffers i = some b →
      b.refcount = 1 + b.mappings.length ∧ (b.mappings.map ShmMapping.task).Nodup ∧
      ∀ m ∈ b.mappings, Allowed b.flags m.perms) ∧
    InBalance s.log ∧
    (∀ n c, isHeld s.log (n, c) = true ↔
      ∃ i b, s.table.buffers i = some b ∧ s.serial i = n ∧ (c = b.backing ∨ c = b.page)) ∧
    ∀ call s', shmStep s call = some s' → ∀ i b, s.table.buffers i = some b →
      (isHeld s'.log (s.serial i, b.backing) = false ↔
        call = .destroy i b.owner ∧ b.mappings = []) ∧
      (s'.table.buffers i = none ↔ call = .destroy i b.owner ∧ b.mappings = []) := by
  have hsound := sound_of_run hrun
  refine ⟨fun i b hb => ?_, hsound.balance, hsound.held, ?_⟩
  · have hcounted := hsound.counted i b hb
    exact ⟨hcounted.refcount, hcounted.once, hcounted.allowed⟩
  intro call s' hstep i b hb
  rcases step_release hsound hstep hb with ⟨hrel, hgone, hfree⟩ | ⟨hnot, hlive, hheld⟩
  · exact ⟨iff_of_true hfree hrel, iff_of_true hgone hrel⟩
  · exact ⟨iff_of_false (by rw [hheld]; decide) hnot, iff_of_false hlive hnot⟩

theorem shared_buffers_counted_mapped :
    ∃ s b, Run shmStep (fun _ _ => True) ShmSystem.init s ∧ s.table.buffers 0 = some b ∧
      b.mappings = [⟨1, 0x90000000, shmRead⟩] ∧ b.refcount = 1 + b.mappings.length := by
  have hrun : Run shmStep (fun _ _ => True) ShmSystem.init _ :=
    run_exec [.create gpuWithMemory 0 4096 shmRead,
      .map 0 0 (some 1) (shmRead ||| shmWrite) true] rfl
  exact ⟨_, _, hrun, rfl, rfl, ((shared_buffers_counted hrun).1 0 _ rfl).1⟩

end SlmOs.Ipc
